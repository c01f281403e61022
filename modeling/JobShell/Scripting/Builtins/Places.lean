import JobShell.Scripting.Expansion

/-!
# Builtins on directories and file modes

`cd`, `pwd` and `umask`. The interpreter knows its directory by the path it came there by.
-/

namespace JobShell.Scripting.Builtins

open Sh

/-- The names of a path in front of which `done` stand, backwards, when `.` and `..` have been
resolved by name. -/
def resolveNames (done : List Bytes) : List Bytes → List Bytes
  | [] => done.reverse
  | name :: rest =>
    if name.isEmpty || name = [0x2e] then resolveNames done rest
    else if name = [0x2e, 0x2e] then resolveNames done.tail rest
    else resolveNames (name :: done) rest

def absolute (here dest : Bytes) : Bytes :=
  let path := if dest.head? = some Bytes.slash then dest else here ++ Bytes.slash :: dest
  Bytes.slash :: Bytes.join [Bytes.slash] (resolveNames [] (Bytes.split (· = Bytes.slash) path))

def physical : Sh Bytes := do
  match ← call .getcwd with
  | .ok path => return path
  | .error e =>
    warn (Bytes.ofString s!"getcwd() failed: {e.reason}")
    return []

def exportAs (name : String) (value : Bytes) : Sh Unit := do
  assign (Bytes.ofString name) value
  modify fun s => { s with vars := s.vars.mark (Bytes.ofString name) true false }

/-- Goes to a directory; whether that was possible. -/
def goTo (byName : Bool) (dest : Bytes) : Sh Bool := do
  let here := (← get).directory
  let target := if byName && (dest.head? = some Bytes.slash || !here.isEmpty) then some (absolute here dest)
    else none
  match ← call (.chdir (target.getD dest)) with
  | .error _ => return false
  | .ok () =>
    exportAs "OLDPWD" here
    let path ← match target with
      | some path => pure path
      | none => physical
    modify ({ · with directory := path })
    exportAs "PWD" path
    return true

/-- Whether a directory is looked for in `CDPATH`. -/
def isSearched (dest : Bytes) : Bool :=
  match dest with
  | 0x2f :: _ => false
  | [0x2e] => false
  | 0x2e :: 0x2f :: _ => false
  | [0x2e, 0x2e] => false
  | 0x2e :: 0x2e :: 0x2f :: _ => false
  | _ => true

/-- `-L` and `-P`: whether directories go by name. -/
def byName (options : List (Char × Bytes)) : Bool := (options.getLast?).all (·.1 = 'L')

def cd (args : List Bytes) : Sh Nat := do
  let (options, args) ← Options.ofBuiltin "LP" args
  let named := byName options
  let (dest, back) ← match args.head? with
    | none => pure ((← valueOf "HOME").getD [], false)
    | some [0x2d] => pure ((← valueOf "OLDPWD").getD [], true)
    | some d => pure (d, false)
  let arrive (path : Bytes) (shown : Bool) : Sh Nat := do
    unless ← goTo named path do fail (Bytes.ofString "can't cd to " ++ dest)
    if shown then putLine (← get).directory
    return 0
  if !isSearched dest then arrive dest back
  else
    let name := if dest.isEmpty then [0x2e] else dest
    let starts := ((← valueOf "CDPATH").map (Bytes.split (· = 0x3a))).getD []
    let rec search : List Bytes → Sh Nat
      | [] => arrive dest back
      | start :: rest => do
        let path := if start.isEmpty then name else start ++ Bytes.slash :: name
        match ← call (.stat path true) with
        | .ok info => if info.kind = .directory then arrive path (back || !start.isEmpty) else search rest
        | .error _ => search rest
    if dest.isEmpty then
      if starts.isEmpty then arrive [0x2e] back else search starts
    else search starts

def pwd (args : List Bytes) : Sh Nat := do
  let (options, _) ← Options.ofBuiltin "LP" args
  let path ← if byName options then pure (← get).directory else physical
  putLine path
  return 0

/-! ## umask -/

/-- The bits of `u`, `g`, `o`, which stand 6, 3 and 0 places up. -/
def classShift? (c : UInt8) : Option Nat :=
  if c = 0x75 then some 6 else if c = 0x67 then some 3 else if c = 0x6f then some 0 else none

def permission? (c : UInt8) : Option Nat :=
  if c = 0x72 then some 4 else if c = 0x77 then some 2 else if c = 0x78 then some 1 else none

/-- A mode changed by one clause such as `u=rw`. -/
def applyClause (mode : Nat) (clause : Bytes) : Option Nat :=
  let who := clause.takeWhile fun c => (classShift? c).isSome || c = 0x61
  let shifts := if who.isEmpty || 0x61 ∈ who then [6, 3, 0] else who.filterMap classShift?
  match clause.drop who.length with
  | op :: ps =>
    let bits := (ps.filterMap permission?).foldl (· ||| ·) 0
    if !ps.all (permission? · |>.isSome) then none
    else
      let change (m shift : Nat) : Nat :=
        let old := (m >>> shift) &&& 7
        let new := if op = 0x3d then bits else if op = 0x2b then old ||| bits else old &&& (7 ^^^ bits)
        m - (old <<< shift) + (new <<< shift)
      if op ∈ [0x3d, 0x2b, 0x2d] then some (shifts.foldl change mode) else none
  | [] => none

def maskLetters (mask : Nat) : String :=
  let part (name : String) (shift : Nat) : String :=
    let bits := 7 ^^^ ((mask >>> shift) &&& 7)
    let letter (bit : Nat) (s : String) : String := if bits &&& bit ≠ 0 then s else ""
    name ++ "=" ++ letter 4 "r" ++ letter 2 "w" ++ letter 1 "x"
  part "u" 6 ++ "," ++ part "g" 3 ++ "," ++ part "o" 0

def octal (n : Nat) : String :=
  let digits := Nat.toDigits 8 n
  String.ofList (List.replicate (4 - digits.length) '0' ++ digits)

def umask (args : List Bytes) : Sh Nat := do
  let (options, args) ← Options.ofBuiltin "S" args
  let old : Nat ← call (.umask 0)
  let _ ← call (.umask old)
  match args with
  | [] =>
    putString ((if options.isEmpty then octal old else maskLetters old) ++ "\n")
    return 0
  | mode :: _ =>
    if mode.head?.any Class.isDigit then
      if !mode.all (fun b => 0x30 ≤ b && b ≤ 0x37) then badNumber mode
      let n := mode.foldl (fun n b => 8 * n + (b.toNat - 0x30)) 0
      let _ ← call (.umask (n &&& 0o777))
      return 0
    else
      let clauses := Bytes.split (· = 0x2c) mode
      match clauses.foldl (fun m c => m.bind (applyClause · c)) (some (0o777 ^^^ old)) with
      | some m =>
        let _ ← call (.umask (0o777 ^^^ m))
        return 0
      | none => fail (Bytes.ofString "Illegal mode: " ++ mode)

end JobShell.Scripting.Builtins
