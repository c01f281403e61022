import JobShell.Text.Class

/-!
# Changes of permissions

A mode is written in octal, or as clauses such as `u+x,go=r` that change one. `ModeChange.parse?`
reads both forms, and `ModeChange.adjust` applies them.
-/

namespace JobShell

inductive ModeOperator where
  | add
  | remove
  | set
  deriving DecidableEq

inductive ModeValue where
  | bits (n : Nat)
  /-- Bits, and leave to run where there is any or for directories. -/
  | bitsAndRun (n : Nat)
  /-- What the mode itself grants in these bits, for everyone. -/
  | copied (n : Nat)

structure ModeChange where
  operator : ModeOperator
  /-- The bits it may touch; 0 stands for those the mask leaves. -/
  affected : Nat
  value : ModeValue
  /-- The bits it names, which it changes for directories too. -/
  mentioned : Nat

namespace ModeChange

def allBits : Nat := 0o7777

def without (mode bits : Nat) : Nat := mode &&& (allBits ^^^ (bits &&& allBits))

def classBits (b : UInt8) : Nat :=
  if b = 0x75 then 0o4700 else if b = 0x67 then 0o2070 else if b = 0x6f then 0o1007 else allBits

def permissionBits (b : UInt8) : Nat :=
  match Char.ofNat b.toNat with
  | 'r' => 0o444
  | 'w' => 0o222
  | 'x' => 0o111
  | 's' => 0o6000
  | 't' => 0o1000
  | _ => 0

def isOctal (b : UInt8) : Bool := 0x30 ≤ b && b ≤ 0x37

def octal? (s : Bytes) : Option Nat :=
  if s.isEmpty || !s.all isOctal then none
  else
    let v := (Class.octalFront s.length 0 s).1
    if v ≤ allBits then some v else none

def operator? (b : UInt8) : Option ModeOperator :=
  if b = 0x2b then some .add else if b = 0x2d then some .remove else if b = 0x3d then some .set else none

/-- The operators of a clause with their permissions, at most `n`. -/
def actions? (affected : Nat) : Nat → Bytes → Option (List ModeChange)
  | 0, _ => none
  | _, [] => some []
  | n + 1, b :: rest => do
    let operator ← operator? b
    let digits := rest.takeWhile isOctal
    let letters := rest.takeWhile (· ∈ Bytes.ofString "rwxXst")
    let source := rest.head?.filter (· ∈ Bytes.ofString "ugo")
    match digits, source with
    | _ :: _, _ =>
      -- A number ends the clause and names all bits.
      let v ← octal? digits
      if affected ≠ 0 || digits.length < rest.length then none
      else return [{ operator, affected := allBits, value := .bits v, mentioned := allBits }]
    | [], some who =>
      let bits := classBits who &&& 0o777
      let more ← actions? affected n (rest.drop 1)
      return { operator, affected, value := .copied bits, mentioned := 0 } :: more
    | [], none =>
      let bits := letters.foldl (fun n b => n ||| permissionBits b) 0
      let value := if 0x58 ∈ letters then ModeValue.bitsAndRun bits else .bits bits
      let mentioned := if affected = 0 then bits else bits &&& affected
      let more ← actions? affected n (rest.drop letters.length)
      return { operator, affected, value, mentioned } :: more

/-- One clause: classes of users and at least one operator. -/
def clause? (s : Bytes) : Option (List ModeChange) := do
  let who := s.takeWhile (· ∈ Bytes.ofString "ugoa")
  let affected := who.foldl (fun n b => n ||| classBits b) 0
  let rest := s.drop who.length
  if rest.isEmpty then none else actions? affected (rest.length + 1) rest

def parse? (s : Bytes) : Option (List ModeChange) :=
  match octal? s with
  | some v =>
    let mentioned := if s.length < 5 then (v &&& 0o6000) ||| 0o1777 else allBits
    some [{ operator := .set, affected := allBits, value := .bits v, mentioned }]
  | none => ((Bytes.split (· = 0x2c) s).mapM clause?).map List.flatten

def valueFor (v : ModeValue) (isDirectory : Bool) (mode : Nat) : Nat :=
  match v with
  | .bits n => n
  | .bitsAndRun n => if isDirectory || mode &&& 0o111 ≠ 0 then n ||| 0o111 else n
  | .copied n =>
    let own := n &&& mode
    [0o444, 0o222, 0o111].foldl (fun v bits => if own &&& bits ≠ 0 then v ||| bits else v) 0

def apply (isDirectory : Bool) (mask : Nat) (mode : Nat) (c : ModeChange) : Nat :=
  let kept := if isDirectory then without 0o6000 c.mentioned else 0
  let limit := if c.affected = 0 then without allBits mask else c.affected
  let value := without (valueFor c.value isDirectory mode &&& limit) kept
  match c.operator with
  | .add => mode ||| value
  | .remove => without mode value
  | .set =>
    let preserved := (if c.affected = 0 then 0 else without allBits c.affected) ||| kept
    (mode &&& preserved) ||| value

def adjust (cs : List ModeChange) (isDirectory : Bool) (mask : Nat) (mode : Nat) : Nat :=
  cs.foldl (apply isDirectory mask) mode

end ModeChange

end JobShell
