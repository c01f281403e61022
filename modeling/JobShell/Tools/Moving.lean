import JobShell.Tools.Paths

/-!
# Moving, copying and linking

`mv`, `cp` and `ln`: each makes files appear under new names, and asks, keeps or refuses where the
name is taken.
-/

namespace JobShell.Moving

open Util Operands

inductive Replacing where
  | always
  | never
  | ask
  deriving DecidableEq

def replacing (a : Arguments) : Replacing :=
  match a.last? ["f", "i", "n"] with
  | some "n" => .never
  | some "i" => .ask
  | _ => .always

/-- Options that `mv` and `cp` share. -/
def sharedOptions : List (String × Arity × String) :=
  [("force", .none, "f"), ("interactive", .none, "i"), ("no-clobber", .none, "n"),
   ("target-directory", .required, "t"), ("no-target-directory", .none, "T"),
   ("verbose", .none, "v"), ("update", .optional, "u"), ("strip-trailing-slashes", .none, "strip")] ++
  backupOptions

def areSame (a b : Bytes) : Bytes :=
  Quoted.always a ++ Bytes.ofString " and " ++ Quoted.always b ++ Bytes.ofString " are the same file"

/-- The question before a file is replaced. A file without leave to write is named as such. -/
def overwriteQuestion (target : Bytes) (info : FileInfo) : Bytes :=
  if info.kind = .file && info.mode &&& 0o200 = 0 then
    let mode := modeText info.mode
    Bytes.ofString "replace " ++ Quoted.always target ++ Bytes.ofString ", overriding mode " ++ mode
  else Bytes.ofString "overwrite " ++ Quoted.always target

def backupNote : Option Bytes → Bytes
  | none => []
  | some name => Bytes.ofString " (backup: " ++ Quoted.always name ++ Bytes.ofString ")"

/-- Whether the kinds of two files allow the first to take the place of the second; tells if not. -/
def kindsAgree (source target : Bytes) (s t : FileInfo) : Util Bool := do
  if t.kind = .directory && s.kind ≠ .directory then
    warn (Bytes.ofString "cannot overwrite directory " ++ Quoted.always target ++
      Bytes.ofString " with non-directory")
    return false
  if s.kind = .directory && t.kind ≠ .directory then
    warn (Bytes.ofString "cannot overwrite non-directory " ++ Quoted.always target ++
      Bytes.ofString " with directory " ++ Quoted.always source)
    return false
  return true

/-! ## mv -/

def mvTable : OptionTable := .of "bfint:uvS:TZ" sharedOptions

/-- Whether a file may be moved where another one is; tells or asks. -/
def mayReplace (a : Arguments) (source target : Bytes) (s t : FileInfo) : Util Bool := do
  if replacing a = .never then
    warn (Bytes.ofString "not replacing " ++ Quoted.always target)
    return false
  if s.ino = t.ino then
    warn (areSame source target)
    return false
  if a.has "u" && t.modified ≥ s.modified then return false
  if !(← kindsAgree source target s t) then return false
  if replacing a = .ask then
    if !(← agreed (overwriteQuestion target t)) then
      setStatus 1
      return false
  return true

def move (a : Arguments) (backups : BackupStyle) (source target : Bytes) : Util Unit := do
  match ← stat source false with
  | .error e => warn (because (Bytes.ofString "cannot stat " ++ Quoted.always source) e)
  | .ok s =>
    let mut backup : Option Bytes := none
    if let .ok t ← stat target false then
      if !(← mayReplace a source target s t) then return ()
      if t.kind ≠ .directory then backup := ← backups.keep target
    match ← call (.rename source target) with
    | .ok () =>
      if a.has "v" then putLine (Bytes.ofString "renamed " ++ Quoted.always source ++
        Bytes.ofString " -> " ++ Quoted.always target ++ backupNote backup)
    | .error .EINVAL =>
      warn (Bytes.ofString "cannot move " ++ Quoted.always source ++
        Bytes.ofString " to a subdirectory of itself, " ++ Quoted.always target)
    | .error e =>
      if e = .EEXIST || e = .ENOTEMPTY || e = .EISDIR then
        warn (because (Bytes.ofString "cannot overwrite " ++ Quoted.always target) e)
      else
        warn (because (Bytes.ofString "cannot move " ++ Quoted.always source ++
          Bytes.ofString " to " ++ Quoted.always target) e)

def mv (args : List Bytes) : Util UInt8 := do
  let a ← arguments mvTable args
  let backups ← backupStyle a
  for (source, target) in pairsOf (← targetsOf a) do
    move a backups source target
  return (← get).status

/-! ## cp -/

def cpTable : OptionTable :=
  .of "abdfiHlLnprst:uvxPRS:TZ"
    (sharedOptions ++ [("archive", .none, "a"), ("attributes-only", .none, "attributes"),
     ("dereference", .none, "L"), ("link", .none, "l"), ("no-dereference", .none, "P"),
     ("no-preserve", .required, "no-preserve"), ("one-file-system", .none, "x"),
     ("parents", .none, "parents"), ("preserve", .optional, "p"), ("recursive", .none, "r"),
     ("remove-destination", .none, "remove"), ("symbolic-link", .none, "s")])

/-- Opens the file that a copy goes to; with `force` one that cannot be opened is replaced. -/
def openCopy (force : Bool) (target : Bytes) (mode : Nat) : Util (Except Errno Nat) := do
  let attempt := call (.open target .truncating mode)
  match ← attempt with
  | .ok fd => return .ok fd
  | .error e =>
    if force && (← stat target false).toOption.isSome then
      match ← call (.unlink target) with
      | .ok () => attempt
      | .error _ => return .error e
    else if e = .EISDIR && target.getLast? = some Bytes.slash then return .error .ENOTDIR
    else return .error e

def copyContent (a : Arguments) (source target : Bytes) (mode : Nat) : Util Unit := do
  match ← call (.open source .reading 0) with
  | .error e => warn (because (Bytes.ofString "cannot open " ++ Quoted.always source ++
      Bytes.ofString " for reading") e)
  | .ok input =>
    match ← openCopy (a.has "f") target mode with
    | .error e =>
      closeOperand input
      warn (because (Bytes.ofString "cannot create regular file " ++ Quoted.always target) e)
    | .ok output =>
      unless a.has "attributes" do
        let (text, failure) ← readAll input
        if let some e := failure then
          warn (because (Bytes.ofString "error reading " ++ Quoted.always source) e)
        if let .error e ← writeAll output text then
          warn (because (Bytes.ofString "error writing " ++ Quoted.always target) e)
      closeOperand output
      closeOperand input

def makeLink (symbolic : Bool) (source target : Bytes) : Util Unit := do
  let (r, what) ← if symbolic then do pure (← call (.symlink source target), "symbolic")
    else do pure (← call (.link source target), "hard")
  if let .error e := r then
    warn (because (Bytes.ofString s!"cannot create {what} link " ++ Quoted.always target ++
      Bytes.ofString " to " ++ Quoted.always source) e)

/-- Copies what is not a directory. -/
def copyPlain (a : Arguments) (source target : Bytes) (s : FileInfo) (present : Bool) : Util Unit := do
  if present && (a.has "remove" || a.has "l" || a.has "s" || s.kind = .link) then
    if a.has "remove" || a.has "f" || s.kind = .link then let _ ← call (.unlink target)
  if a.has "s" then makeLink true source target
  else if a.has "l" then makeLink false source target
  else if s.kind = .link then
    match ← call (.readlink source) with
    | .ok text =>
      if let .error e ← call (.symlink text target) then
        warn (because (Bytes.ofString "cannot create symbolic link " ++ Quoted.always target) e)
    | .error e => warn (because (Bytes.ofString "cannot read symbolic link " ++ Quoted.always source) e)
  else
    let keepsMode := (a.value? "no-preserve").all fun names =>
      !(Bytes.split (· = 0x2c) names).any fun n => n = Bytes.ofString "mode" || n = Bytes.ofString "all"
    copyContent a source target (if keepsMode then s.mode else 0o666)
    if a.has "p" || a.has "a" then
      let _ ← call (.chmod target s.mode)
      let _ ← call (.touch target (some s.modified))

structure CopyTask where
  options : Arguments
  backups : BackupStyle
  /-- The operands. -/
  source : Bytes
  target : Bytes
  /-- The directory that was made first; it is not copied into itself. -/
  made : Option Nat := none

/-- Whether a copy may take the place of what is there; tells or asks. -/
def mayCopyOver (a : Arguments) (source target : Bytes) (s t : FileInfo) : Util Bool := do
  if replacing a = .never then return false
  if a.has "u" && t.modified ≥ s.modified then return false
  if s.kind = .directory && t.kind = .directory then return true
  if !(← kindsAgree source target s t) then return false
  if replacing a = .ask then
    if !(← agreed (overwriteQuestion target t)) then
      setStatus 1
      return false
  return true

/-- Copies a file or, if asked to, a tree, at most `n` levels deep. Whether the copy has come to its
own result, which ends it. -/
def copy (task : CopyTask) : Nat → Bytes → Bytes → Util Bool
  | 0, _, _ => return false
  | n + 1, source, target => do
    let a := task.options
    let recursive := a.has "r" || a.has "R" || a.has "a"
    let follow := !(recursive || a.has "P" || a.has "d") || a.has "L"
    match ← stat source follow with
    | .error e =>
      warn (because (Bytes.ofString "cannot stat " ++ Quoted.always source) e)
      return false
    | .ok s =>
      if s.kind = .directory && !recursive then
        warn (Bytes.ofString "-r not specified; omitting directory " ++ Quoted.always source)
        return false
      if s.kind = .directory && task.made = some s.ino then
        warn (Bytes.ofString "cannot copy a directory, " ++ Quoted.always task.source ++
          Bytes.ofString ", into itself, " ++ Quoted.always task.target)
        return true
      let t := (← stat target false).toOption
      let behind := (← stat target (s.kind ≠ .link)).toOption
      if behind.any (·.ino = s.ino) && !(replacing a = .never) then
        warn (areSame source target)
        return false
      if let some t := t then
        if !(← mayCopyOver a source target s t) then return false
      let backup ← if s.kind ≠ .directory && t.isSome then task.backups.keep target else pure none
      if a.has "v" then
        putLine (Quoted.always source ++ Bytes.ofString " -> " ++ Quoted.always target ++ backupNote backup)
      if s.kind ≠ .directory then
        copyPlain a source target s (t.isSome && backup.isNone)
        return false
      if t.isNone then
        if let .error e ← call (.mkdir target s.mode) then
          warn (because (Bytes.ofString "cannot create directory " ++ Quoted.always target) e)
          return false
      let made ← if task.made.isSome then pure task.made else
        pure ((← stat target false).toOption.map (·.ino))
      match ← call (.list source) with
      | .error e =>
        warn (because (Bytes.ofString "cannot access " ++ Quoted.always source) e)
        return false
      | .ok names =>
        let mut ended := false
        for name in names do
          unless ended do
            ended := ← copy { task with made } n (Path.append source name) (Path.append target name)
        return ended

def makeWay (verbose : Bool) (directory : Bytes) (done : Bytes) : List Bytes → Util Unit
  | [] => return ()
  | name :: rest => do
    let way := if done.isEmpty then name else Path.append done name
    match ← call (.mkdir (Path.append directory way) 0o777) with
    | .ok () =>
      if verbose then putLine (way ++ Bytes.ofString " -> " ++ Path.append directory way)
    | .error _ => pure ()
    makeWay verbose directory way rest

def copyParents (a : Arguments) (backups : BackupStyle) : Util Unit := do
  let (directory, sources) := match a.value? "t" with
    | some d => (d, a.operands)
    | none => (a.operands.getLast?.getD [], a.operands.dropLast)
  if !(← isDirectory directory) then
    misuseString "with --parents, the destination must be a directory"
  for source in sources do
    makeWay (a.has "v") directory [] (Path.parse source).names.dropLast
    let target := Path.append directory source
    let _ ← copy { options := a, backups, source, target } 100 source target

def cp (args : List Bytes) : Util UInt8 := do
  let a ← arguments cpTable args
  for (key, _) in a.options do
    if key = "n" then
      complain (Bytes.ofString
        "warning: behavior of -n is non-portable and may change in future; use --update=none instead")
  let backups ← backupStyle a
  if a.has "parents" && a.operands.length > 1 then copyParents a backups
  else
    for (source, target) in pairsOf (← targetsOf a) do
      let _ ← copy { options := a, backups, source, target } 100 source target
  return (← get).status

/-! ## ln -/

def lnTable : OptionTable :=
  .of "bdfFinLPrsS:t:Tv"
    ([("directory", .none, "d"), ("force", .none, "f"), ("interactive", .none, "i"),
      ("logical", .none, "L"), ("no-dereference", .none, "n"), ("no-target-directory", .none, "T"),
      ("physical", .none, "P"), ("relative", .none, "r"), ("symbolic", .none, "s"),
      ("target-directory", .required, "t"), ("verbose", .none, "v")] ++ backupOptions)

/-- The complaint about a link that was not made. -/
def linkFailure (symbolic : Bool) (target name : Bytes) (e : Errno) : Bytes :=
  if symbolic then because (Bytes.ofString "failed to create symbolic link " ++ Quoted.always name) e
  else if e = .EPERM then Quoted.needed target ++ Bytes.ofString ": hard link not allowed for directory"
  else
    let front := Bytes.ofString "failed to create hard link " ++ Quoted.always name
    because (if e = .EEXIST then front else front ++ Bytes.ofString " => " ++ Quoted.always target) e

/-- Makes room for a link where a file is; the backup of that file, `none` if the link is not to be
made. -/
def clear (a : Arguments) (backups : BackupStyle) (target name : Bytes) : Util (Option (Option Bytes)) := do
  let willing := a.has "f" || a.has "i" || backups.kind ≠ .none
  match ← stat name false with
  | .error _ => return some none
  | .ok there =>
    if !willing then return some none
    if there.kind = .directory then
      warn (Quoted.needed name ++ Bytes.ofString ": cannot overwrite directory")
      return none
    if let .ok source ← stat target then
      if source.ino = there.ino && (source.links = 1 || target = name) then
        warn (areSame target name)
        return none
    if a.last? ["f", "i"] = some "i" then
      if !(← agreed (Bytes.ofString "replace " ++ Quoted.always name)) then
        setStatus 1
        return none
    match ← backups.keep name with
    | some kept => return some (some kept)
    | none =>
      let _ ← call (.unlink name)
      return some none

def link (a : Arguments) (backups : BackupStyle) (target name : Bytes) : Util Unit := do
  let symbolic := a.has "s"
  let source ← stat target false
  let behind ← if !symbolic && a.last? ["L", "P"] = some "L" then do
      pure ((← Paths.canonical .all true target).toOption.getD target)
    else pure target
  match symbolic, source with
  | false, .error e => warn (because (Bytes.ofString "failed to access " ++ Quoted.always target) e)
  | _, _ =>
    match ← clear a backups target name with
    | none => return ()
    | some backup =>
      match ← if symbolic then call (.symlink target name) else call (.link behind name) with
      | .ok () =>
        if a.has "v" then putLine (Quoted.always name ++ Bytes.ofString
          (if symbolic then " -> " else " => ") ++ Quoted.always target ++ backupNote backup)
      | .error e => warn (linkFailure symbolic target name e)

def ln (args : List Bytes) : Util UInt8 := do
  let a ← arguments lnTable args
  let backups ← backupStyle a
  let pairs ← match a.value? "t", a.operands with
    | none, [] => misuseString "missing file operand"
    | none, [one] => pure [(one, inside Path.dot one)]
    | _, _ => pure (pairsOf (← targetsOf a (!a.has "n")))
  for (target, name) in pairs do link a backups target name
  return (← get).status

end JobShell.Moving
