import JobShell.Tools.Operands

/-!
# Links and the names behind them

`readlink` and `realpath`. `canonical` takes the links out of a path name by name.
-/

namespace JobShell.Paths

open Util Operands

inductive Need where
  | all
  /-- All but the last. -/
  | allButLast
  | none
  deriving DecidableEq

/-- The directory above; the root is above itself. -/
def above (path : Bytes) : Bytes := ((path.reverse.dropWhile (· ≠ Bytes.slash)).drop 1).reverse

/-- Resolves the names of a path behind the directory `done`, in at most `n` steps; the root is the
empty text. `links` says that links are followed. -/
def canonicalFrom (need : Need) (links : Bool) : Nat → Bytes → List Bytes → Util (Except Errno Bytes)
  | 0, _, _ => return .error .ELOOP
  | _, done, [] => return .ok done
  | n + 1, done, name :: rest => do
    if name = Path.dot then canonicalFrom need links n done rest
    else if name = Path.dotdot then canonicalFrom need links n (above done) rest
    else
      let path := done ++ Bytes.slash :: name
      match ← stat path (!links) with
      | .ok i =>
        if links && i.kind = .link then
          match ← call (.readlink path) with
          | .ok target =>
            let p := Path.parse target
            canonicalFrom need links n (if p.absolute then [] else done) (p.names ++ rest)
          | .error e => return .error e
        else if i.kind ≠ .directory && !rest.isEmpty && need ≠ .none then return .error .ENOTDIR
        else canonicalFrom need links n path rest
      | .error e =>
        if need = .none || (need = .allButLast && rest.isEmpty && e = .ENOENT) then
          canonicalFrom need links n path rest
        else return .error e

/-- A path from the root without links. A slash at its end asks for a directory. -/
def canonical (need : Need) (links : Bool) (path : Bytes) : Util (Except Errno Bytes) := do
  let p := Path.parse path
  if path.isEmpty then return .error .ENOENT
  let start ← if p.absolute then pure (.ok []) else call .getcwd
  match start with
  | .error e => return .error e
  | .ok d =>
    match ← canonicalFrom need links 1000 (if d = [Bytes.slash] then [] else d) p.names with
    | .error e => return .error e
    | .ok found =>
      if p.trailing && need ≠ .none then
        if let .ok i ← stat found false then
          if i.kind ≠ .directory then return .error .ENOTDIR
      return .ok (if found.isEmpty then [Bytes.slash] else found)

/-- The need that options name; the last of them counts. -/
def needOf? (a : Arguments) : Option Need :=
  (a.last? ["e", "f", "m", "E"]).map fun key =>
    if key = "e" then .all else if key = "m" then .none else .allButLast

/-! ## readlink -/

def readlinkTable : OptionTable :=
  .of "efmnqsvz"
    [("canonicalize", .none, "f"), ("canonicalize-existing", .none, "e"),
     ("canonicalize-missing", .none, "m"), ("no-newline", .none, "n"), ("quiet", .none, "q"),
     ("silent", .none, "q"), ("verbose", .none, "v"), ("zero", .none, "z")]

def readlink (args : List Bytes) : Util UInt8 := do
  let a ← arguments readlinkTable args
  if a.operands.isEmpty then misuseString "missing operand"
  let several := a.operands.length > 1
  if a.has "n" && several then complain (Bytes.ofString "ignoring --no-newline with multiple arguments")
  let ending : Bytes := if a.has "n" && !several then [] else [if a.has "z" then 0 else Bytes.newline]
  for path in a.operands do
    let result ← match needOf? a with
      | some need => canonical need true path
      | none => call (.readlink path)
    match result with
    | .ok t => put (t ++ ending)
    | .error e => if a.last? ["v", "q", "s"] = some "v" then warnFile path e else setStatus 1
  return (← get).status

/-! ## realpath -/

def realpathTable : OptionTable :=
  .of "eELmPqsz"
    [("canonicalize", .none, "E"), ("canonicalize-existing", .none, "e"),
     ("canonicalize-missing", .none, "m"), ("logical", .none, "L"), ("no-symlinks", .none, "s"),
     ("physical", .none, "P"), ("quiet", .none, "q"), ("relative-base", .required, "base"),
     ("relative-to", .required, "to"), ("strip", .none, "s"), ("zero", .none, "z")]

def namesOf (path : Bytes) : List Bytes := (Path.parse path).names

def relative : List Bytes → List Bytes → List Bytes
  | a :: directory, b :: path =>
    if a = b then relative directory path else (a :: directory).map (fun _ => Path.dotdot) ++ b :: path
  | directory, path => directory.map (fun _ => Path.dotdot) ++ path

/-- A path as it is shown from a directory, when it is below `base`. -/
def shownFrom (directory base : Option Bytes) (path : Bytes) : Bytes :=
  match directory with
  | none => path
  | some directory =>
    if base.all fun b => (namesOf b).isPrefixOf (namesOf path) then
      let way := relative (namesOf directory) (namesOf path)
      if way.isEmpty then Path.dot else Bytes.join [Bytes.slash] way
    else path

def realpath (args : List Bytes) : Util UInt8 := do
  let a ← arguments realpathTable args
  if a.operands.isEmpty then misuseString "missing operand"
  let need := (needOf? a).getD .allButLast
  let links := a.last? ["L", "P", "s"] ≠ some "s"
  let given (key : String) : Util (Option Bytes) := do
    match a.value? key with
    | none => return none
    | some path =>
      match ← canonical need links path with
      | .ok t => return some t
      | .error e => fail (because (Quoted.needed path) e)
  let target ← given "to"
  let base ← given "base"
  let directory := match target, base with
    | some t, some b => if (namesOf b).isPrefixOf (namesOf t) then some t else none
    | none, base => base
    | target, none => target
  for path in a.operands do
    match ← canonical need links path with
    | .ok t => put (shownFrom directory base t ++ [if a.has "z" then 0 else Bytes.newline])
    | .error e => if a.has "q" then setStatus 1 else warnFile path e
  return (← get).status

end JobShell.Paths
