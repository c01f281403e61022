import JobShell.Tools.Operands

/-!
# Removing files and directories

`rm` and `rmdir`.
-/

namespace JobShell.Removing

open Util Operands

/-! ## rm -/

/-- When `rm` asks. -/
inductive Asking where
  | never
  /-- Once, when there is much to remove. -/
  | once
  | always
  deriving DecidableEq

structure RemoveStyle where
  asking : Asking := .never
  /-- What is not there is passed over. -/
  force : Bool := false
  recursive : Bool := false
  emptyDirectories : Bool := false
  verbose : Bool := false
  guardsRoot : Bool := true

def rmTable : OptionTable :=
  .of "dfirvIR"
    [("dir", .none, "d"), ("force", .none, "f"), ("interactive", .optional, "interactive"),
     ("no-preserve-root", .none, "no-preserve-root"), ("one-file-system", .none, "x"),
     ("preserve-root", .optional, "preserve-root"), ("recursive", .none, "r"), ("verbose", .none, "v")]

def applyOption (s : RemoveStyle) (key : String) (value : Option Bytes) : Util RemoveStyle := do
  match key with
  | "d" => return { s with emptyDirectories := true }
  | "f" => return { s with force := true, asking := .never }
  | "i" => return { s with force := false, asking := .always }
  | "I" => return { s with force := false, asking := .once }
  | "interactive" =>
    match value with
    | none => return { s with force := false, asking := .always }
    | some word =>
      let i ← keyword "--interactive" [["never", "no", "none"], ["once"], ["always", "yes"]] word
      return { s with asking := match i with | 0 => .never | 1 => .once | _ => .always }
  | "r" | "R" => return { s with recursive := true }
  | "v" => return { s with verbose := true }
  | "no-preserve-root" => return { s with guardsRoot := false }
  | _ => return s

def cannotRemove (path : Bytes) (e : Errno) : Util Unit :=
  warn (because (Bytes.ofString "cannot remove " ++ Quoted.always path) e)

def kindName (i : FileInfo) : String :=
  match i.kind with
  | .directory => "directory"
  | .link => "symbolic link"
  | .pipe => "fifo"
  | .file => if i.size = 0 then "regular empty file" else "regular file"
  | .device => "character special file"

namespace RemoveStyle

/-- Whether to go on, asked if the style asks each time. -/
def goesOn (s : RemoveStyle) (question : String) (path : Bytes) : Util Bool := do
  if s.asking ≠ .always then return true
  agreed (Bytes.ofString (question ++ " ") ++ Quoted.always path)

/-- Tells how a removal went; whether it did. -/
def told (s : RemoveStyle) (what : String) (path : Bytes) : Except Errno Unit → Util Bool
  | .error e => do
    cannotRemove path e
    return false
  | .ok () => do
    if s.verbose then putLine (Bytes.ofString what ++ Quoted.always path)
    return true

/-- Removes a file or, if asked to, a tree, at most `n` levels deep; whether it is gone. -/
def remove (s : RemoveStyle) : Nat → Bytes → Util Bool
  | 0, _ => return false
  | n + 1, path => do
    match ← stat path false with
    | .error e =>
      if s.force && (e = .ENOENT || e = .ENOTDIR) then return true
      cannotRemove path e
      return false
    | .ok i =>
      if i.kind ≠ .directory then
        if !(← s.goesOn s!"remove {kindName i}" path) then return false
        s.told "removed " path (← call (.unlink path))
      else if !s.recursive && !s.emptyDirectories then
        cannotRemove path .EISDIR
        return false
      else
        let names ← if s.recursive then call (.list path) else pure (.ok [])
        match names with
        | .error e =>
          cannotRemove path e
          return false
        | .ok names =>
          if !names.isEmpty then
            if !(← s.goesOn "descend into directory" path) then return false
          let mut gone := true
          for name in names do
            if !(← remove s n (Path.append path name)) then gone := false
          if !gone then return false
          if !(← s.goesOn "remove directory" path) then return false
          s.told "removed directory " path (← call (.rmdir path))

end RemoveStyle

/-- Whether a path names the root as it stands. -/
def isRoot (path : Bytes) : Bool :=
  let p := Path.parse path
  p.absolute && p.names.all (fun name => name = Path.dot || name = Path.dotdot)

def rm (args : List Bytes) : Util UInt8 := do
  let a ← arguments rmTable args
  let s ← a.options.foldlM (fun s (key, value) => applyOption s key value) ({} : RemoveStyle)
  let count := a.operands.length
  if count = 0 then
    if s.force then return 0 else misuseString "missing operand"
  if s.asking = .once && (s.recursive || count > 3) then
    let question := s!"remove {count} argument" ++ (if count = 1 then "" else "s") ++
      if s.recursive then " recursively" else ""
    if !(← agreed (Bytes.ofString question)) then return 0
  for path in a.operands do
    let name := Path.baseName path
    if s.recursive && (name = Path.dot || name = Path.dotdot) then
      warn (Bytes.ofString "refusing to remove '.' or '..' directory: skipping " ++ Quoted.always path)
    else if s.recursive && s.guardsRoot && isRoot path then
      complain (Bytes.ofString "it is dangerous to operate recursively on " ++ Quoted.always path ++
        if path = [Bytes.slash] then [] else Bytes.ofString " (same as '/')")
      warn (Bytes.ofString "use --no-preserve-root to override this failsafe")
    else
      let _ ← s.remove 100 path
  return (← get).status

/-! ## rmdir -/

def rmdirTable : OptionTable :=
  .of "pv" [("parents", .none, "p"), ("verbose", .none, "v"), ("ignore-fail-on-non-empty", .none, "ignore")]

/-- The directories above a path, the nearest first, at most `n`. -/
def parentsOf (path : Bytes) : Nat → List Bytes
  | 0 => []
  | n + 1 =>
    let t := withoutSlashes path
    if Bytes.slash ∉ t then []
    else
      let up := withoutSlashes ((t.reverse.dropWhile (· ≠ Bytes.slash)).reverse)
      up :: parentsOf up n

def removeInTurn (a : Arguments) : List Bytes → Util Unit
  | [] => return ()
  | path :: rest => do
    if a.has "v" then putLine (Bytes.ofString "rmdir: removing directory, " ++ Quoted.always path)
    match ← call (.rmdir path) with
    | .ok () => removeInTurn a rest
    | .error e =>
      unless a.has "ignore" && e = .ENOTEMPTY do
        warn (because (Bytes.ofString "failed to remove directory " ++ Quoted.always path) e)

/-- The reason for which a directory was not removed. -/
def reasonOf (path : Bytes) (e : Errno) : Util Bytes := do
  let bare := withoutSlashes path
  if e = .ENOTDIR && bare ≠ path then
    if let .ok i ← stat bare false then
      if i.kind = .link then return Bytes.ofString "Symbolic link not followed"
  return Bytes.ofString e.reason

def rmdir (args : List Bytes) : Util UInt8 := do
  let a ← arguments rmdirTable args
  if a.operands.isEmpty then misuseString "missing operand"
  for path in a.operands do
    if a.has "v" then putLine (Bytes.ofString "rmdir: removing directory, " ++ Quoted.always path)
    match ← call (.rmdir path) with
    | .error e =>
      unless a.has "ignore" && e = .ENOTEMPTY do
        warn (Bytes.ofString "failed to remove " ++ Quoted.always path ++ Bytes.ofString ": " ++
          (← reasonOf path e))
    | .ok () => if a.has "p" then removeInTurn a (parentsOf path path.length)
  return (← get).status

end JobShell.Removing
