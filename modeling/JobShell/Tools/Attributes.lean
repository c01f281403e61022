import JobShell.Tools.ModeChange
import JobShell.Tools.Operands

/-!
# Making directories, changing permissions and times

`mkdir`, `chmod` and `touch`.
-/

namespace JobShell.Attributes

open Util Operands

def umask : Util Nat := do
  let old ← call (.umask 0)
  let _ ← call (.umask old)
  return old

/-! ## mkdir -/

def mkdirTable : OptionTable :=
  .of "pm:vZ" [("mode", .required, "m"), ("parents", .none, "p"), ("verbose", .none, "v")]

def madeLine (path : Bytes) : Bytes := Bytes.ofString "mkdir: created directory " ++ Quoted.always path

def makeParents (verbose : Bool) (done : Bytes) : List Bytes → Util (Except (Bytes × Errno) Unit)
  | [] => return .ok ()
  | name :: rest => do
    let path := if done.isEmpty then name else Path.append done name
    match ← call (.mkdir path 0o777) with
    | .ok () =>
      if verbose then putLine (madeLine path)
      makeParents verbose path rest
    | .error e =>
      if ← isDirectory path then makeParents verbose path rest
      else return .error (path, if e = .EEXIST && rest ≠ [] then .ENOTDIR else e)

/-- Makes a directory, with those above it if asked to. -/
def makeDirectory (a : Arguments) (path : Bytes) : Util (Except (Bytes × Errno) Unit) := do
  if a.has "p" then
    let p := Path.parse path
    makeParents (a.has "v") (if p.absolute then [Bytes.slash] else []) p.names
  else
    match ← call (.mkdir path 0o777) with
    | .ok () =>
      if a.has "v" then putLine (madeLine path)
      return .ok ()
    | .error e => return .error (path, e)

def mkdir (args : List Bytes) : Util UInt8 := do
  let a ← arguments mkdirTable args
  if a.operands.isEmpty then misuseString "missing operand"
  let mode ← match a.value? "m" with
    | none => pure none
    | some m => match ModeChange.parse? m with
      | some changes => pure (some (ModeChange.adjust changes true (← umask) 0o777))
      | none => fail (Bytes.ofString "invalid mode " ++ Quoted.plain m)
  for path in a.operands do
    match ← makeDirectory a path, mode with
    | .error (at_, e), _ => warn (because (Bytes.ofString "cannot create directory " ++ Quoted.always at_) e)
    | .ok (), some m => let _ ← call (.chmod path m)
    | .ok (), none => pure ()
  return (← get).status

/-! ## chmod -/

def chmodTable : OptionTable :=
  .of "Rcfv" [("changes", .none, "c"), ("no-preserve-root", .none, "npr"), ("preserve-root", .none, "pr"),
    ("quiet", .none, "f"), ("recursive", .none, "R"), ("reference", .required, "reference"),
    ("silent", .none, "f"), ("verbose", .none, "v")]

/-- Whether an argument is a mode although it starts like an option. -/
def isModeArgument (s : Bytes) : Bool :=
  s.head? = some 0x2d && s.length > 1 && (s.drop 1).all (· ∈ Bytes.ofString "rwxXstugoa+-=,01234567")

/-- What `chmod` does to each file. -/
structure ModeTask where
  changes : List ModeChange
  mask : Nat
  /-- A mode that looks like an option; what the mask spares is told. -/
  surprising : Bool
  quiet : Bool
  /-- The changes that are told: all, those that change something, or none. -/
  verbose : Bool
  onlyChanges : Bool
  recursive : Bool

namespace ModeTask

def warnUnlessQuiet (t : ModeTask) (text : Bytes) : Util Unit :=
  if t.quiet then setStatus 1 else warn text

def tell (t : ModeTask) (path : Bytes) (old new : Nat) (failed : Bool) : Util Unit := do
  let quoted := Quoted.always path
  let fromTo := quoted ++ Bytes.ofString " from " ++ modeText old ++ Bytes.ofString " to " ++ modeText new
  if failed then
    if t.verbose then putLine (Bytes.ofString "failed to change mode of " ++ fromTo)
  else if old ≠ new then
    if t.verbose || t.onlyChanges then
      putLine (Bytes.ofString "mode of " ++ quoted ++ Bytes.ofString " changed from " ++ modeText old ++
        Bytes.ofString " to " ++ modeText new)
  else if t.verbose then
    putLine (Bytes.ofString "mode of " ++ quoted ++ Bytes.ofString " retained as " ++ modeText old)

/-- Changes a file and, if asked to, what is below it, at most `n` levels deep. -/
def change (t : ModeTask) : Nat → Bytes → Util Unit
  | 0, _ => return ()
  | n + 1, path => do
    match ← stat path with
    | .error e =>
      if (← stat path false).toOption.isSome then
        t.warnUnlessQuiet (Bytes.ofString "cannot operate on dangling symlink " ++ Quoted.always path)
      else t.warnUnlessQuiet (because (Bytes.ofString "cannot access " ++ Quoted.always path) e)
    | .ok i =>
      let isDirectory := i.kind == .directory
      let new := ModeChange.adjust t.changes isDirectory t.mask i.mode
      match ← call (.chmod path new) with
      | .error e =>
        t.warnUnlessQuiet (because (Bytes.ofString "changing permissions of " ++ Quoted.always path) e)
        t.tell path i.mode new true
      | .ok () =>
        t.tell path i.mode new false
        let expected := ModeChange.adjust t.changes isDirectory 0 i.mode
        if t.surprising && ModeChange.without new expected ≠ 0 then
          t.warnUnlessQuiet (Quoted.needed path ++ Bytes.ofString ": new permissions are " ++
            permissions new ++ Bytes.ofString ", not " ++ permissions expected)
      if t.recursive && isDirectory then
        match ← call (.list path) with
        | .error e =>
          t.warnUnlessQuiet (because (Bytes.ofString "cannot read directory " ++ Quoted.always path) e)
        | .ok names =>
          for name in names do
            let below := Path.append path name
            match ← stat below false with
            | .ok { kind := .link, .. } => pure ()
            | _ => change t n below

end ModeTask

def chmod (args : List Bytes) : Util UInt8 := do
  let modes := args.filter isModeArgument
  let a ← arguments chmodTable (args.filter (!isModeArgument ·))
  let (mode, paths) ← match a.value? "reference", modes ++ a.operands with
    | _, [] => misuseString "missing operand"
    | some r, paths => do
      match ← stat r with
      | .ok i => pure ([{ operator := .set, affected := ModeChange.allBits, value := .bits i.mode,
                          mentioned := ModeChange.allBits }], paths)
      | .error e => fail (because (Bytes.ofString "failed to get attributes of " ++ Quoted.always r) e)
    | none, mode :: paths => do
      if paths.isEmpty then misuse (Bytes.ofString "missing operand after " ++ Quoted.plain mode)
      match ModeChange.parse? mode with
      | some changes => pure (changes, paths)
      | none => misuse (Bytes.ofString "invalid mode: " ++ Quoted.plain mode)
  let task : ModeTask :=
    { changes := mode, mask := ← umask, surprising := !modes.isEmpty, quiet := a.has "f"
      verbose := a.has "v", onlyChanges := a.has "c", recursive := a.has "R" }
  for path in paths do task.change 100 path
  return (← get).status

/-! ## touch -/

def touchTable : OptionTable :=
  .of "acd:fhmr:t:"
    [("date", .required, "d"), ("no-create", .none, "c"), ("no-dereference", .none, "h"),
     ("reference", .required, "r"), ("time", .required, "time")]

/-- Whether a text is a time as `-t` takes it: two to six pairs of digits from the month on, and
seconds behind a dot. -/
def isStamp (s : Bytes) : Bool :=
  let (front, seconds) := Bytes.cut 0x2e s
  let pair (t : Bytes) (lo hi : Nat) : Bool := (Bytes.toNat? (t.take 2)).any fun n => lo ≤ n && n ≤ hi
  let last := front.drop (front.length - 8)
  front.all Class.isDigit && (front.length = 8 || front.length = 10 || front.length = 12) &&
    pair last 1 12 && pair (last.drop 2) 1 31 && pair (last.drop 4) 0 23 && pair (last.drop 6) 0 59 &&
    seconds.all fun t => t.length = 2 && t.all Class.isDigit && pair t 0 60

/-- Whether a text may be a date: it has a digit, or starts with the name of a time or a letter that
stands for a zone. -/
def isDate (s : Bytes) : Bool :=
  let word := (s.takeWhile Class.isAlpha).map Class.toLower
  s.any Class.isDigit || word.length = 1 ||
    ["now", "today", "yesterday", "tomorrow", "noon", "midnight", "next", "last", "this"].any
      (Bytes.ofString · = word)

/-- The time that options ask for. A date stands before everything made in this run. -/
def timeOf (a : Arguments) : Util (Option Nat) := do
  let invalid (s : Bytes) : Util (Option Nat) :=
    fail (Bytes.ofString "invalid date format " ++ Quoted.always s)
  if let some word := a.value? "time" then
    let _ ← keyword "--time" [["atime", "access", "use"], ["mtime", "modify"]] word
  match a.value? "t", a.value? "d", a.value? "r" with
  | some s, _, _ => if isStamp s then return some 0 else invalid s
  | none, some s, _ => if isDate s then return some 0 else invalid s
  | none, none, some r =>
    match ← stat r with
    | .ok i => return some i.modified
    | .error e => fail (because (Bytes.ofString "failed to get attributes of " ++ Quoted.always r) e)
  | none, none, none => return none

def touch (args : List Bytes) : Util UInt8 := do
  let a ← arguments touchTable args
  let time ← timeOf a
  if a.operands.isEmpty then misuseString "missing file operand"
  for path in a.operands do
    unless path = dash do
      let opened : Option Errno ← if a.has "c" || a.has "h" then pure none else
        match ← call (.open path { write := true, create := true } 0o666) with
        | .ok fd =>
          closeOperand fd
          pure none
        | .error e => pure (some e)
      match ← call (.touch path time), opened with
      | .ok (), _ => pure ()
      | .error _, some e => warn (because (Bytes.ofString "cannot touch " ++ Quoted.always path) e)
      | .error e, none =>
        unless a.has "c" && e = .ENOENT do
          warn (because (Bytes.ofString "setting times of " ++ Quoted.always path) e)
  return (← get).status

end JobShell.Attributes
