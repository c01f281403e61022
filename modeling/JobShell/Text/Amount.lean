import JobShell.Text.Class

/-!
# Amounts

A number with a unit behind it, as utilities take counts and sizes: `2K` is 2048, `2kB` is 2000. A
unit alone counts once. Amounts fit in 64 bits.
-/

namespace JobShell

/-- Why a text is no amount. -/
inductive AmountError where
  | notNumber
  | badUnit
  | tooLarge
  deriving DecidableEq, Repr

namespace Amount

/-- The first number that is no amount. -/
def limit : Nat := Nat.pow 2 64

def power? (letter : UInt8) : Option Nat :=
  match Char.ofNat letter.toNat with
  | 'k' | 'K' => some 1
  | 'm' | 'M' => some 2
  | 'g' | 'G' => some 3
  | 't' | 'T' => some 4
  | 'P' => some 5
  | 'E' => some 6
  | 'Z' => some 7
  | 'Y' => some 8
  | 'R' => some 9
  | 'Q' => some 10
  | _ => none

/-- What a unit stands for, when some letters are allowed as units. With `0` among the letters a
unit may say which base it counts in: `B` or `D` behind it is 1000, `iB` is 1024. -/
def unit? (letters : Bytes) : Bytes → Option Nat
  | [] => some 1
  | c :: base =>
    if c ∉ letters then none
    else if c = 0x62 then if base.isEmpty then some 512 else none
    else do
      let p ← power? c
      if base.isEmpty then some (Nat.pow 1024 p)
      else if 0x30 ∉ letters then none
      else if base = Bytes.ofString "iB" then some (Nat.pow 1024 p)
      else if base = [0x42] || base = [0x44] then some (Nat.pow 1000 p)
      else none

/-- The letters of the units that counts and sizes take. -/
def usual : Bytes := Bytes.ofString "bkKmMGTPEZYRQ0"

/-- The number at the front of a text, in octal or hexadecimal if its first digits say so, and what
follows it. -/
def numberFront (based : Bool) (s : Bytes) : Option Nat × Bytes :=
  let digits := s.takeWhile Class.isDigit
  let decimal := (Bytes.toNat? digits, s.drop digits.length)
  match based, s with
  | true, 0x30 :: x :: h :: rest =>
    if (x = 0x78 || x = 0x58) && Class.isXdigit h then
      let (n, rest) := Class.hexFront (rest.length + 1) 0 (h :: rest)
      (some n, rest)
    else let (n, rest) := Class.octalFront s.length 0 s; (some n, rest)
  | true, 0x30 :: rest => let (n, rest) := Class.octalFront s.length 0 (0x30 :: rest); (some n, rest)
  | _, _ => decimal

/-- A number with a unit. Blanks and a plus sign may stand in front. -/
def parse (s : Bytes) (letters : Bytes := usual) (based : Bool := false) : Except AmountError Nat :=
  let s := s.dropWhile Class.isSpace
  let s := if s.head? = some 0x2b then s.drop 1 else s
  let (n, rest) := match numberFront based s with
    | (none, c :: rest) => if c ∈ letters && c ≠ 0x30 then (some 1, c :: rest) else (none, rest)
    | found => found
  match n with
  | none => .error .notNumber
  | some n =>
    match unit? letters rest with
    | none => .error .badUnit
    | some u => if n * u < limit then .ok (n * u) else .error .tooLarge

def parse? (s : Bytes) : Option Nat := (parse s).toOption

end Amount

end JobShell
