/-!
# Byte strings

File contents, names and arguments are lists of bytes. `Bytes.ofString` is the UTF-8 form of a
text; the rest are the few list functions that lines and names need.
-/

namespace JobShell

abbrev Bytes := List UInt8

namespace Bytes

def ofChars (cs : List Char) : Bytes := cs.flatMap String.utf8EncodeChar

def ofString (s : String) : Bytes := ofChars s.toList

/-- The decimal digits of a number. -/
def ofNat (n : Nat) : Bytes := (Nat.toDigits 10 n).map (·.toNat.toUInt8)

/-- A number with its sign when it is negative. -/
def ofInt : Int → Bytes
  | .ofNat n => ofNat n
  | .negSucc n => 0x2d :: ofNat (n + 1)

abbrev newline : UInt8 := 0x0a

abbrev slash : UInt8 := 0x2f

/-- Pieces between the bytes that satisfy `p`, behind the pieces `done` and the piece `current` that
has been started, both backwards. -/
def splitOnto (p : UInt8 → Bool) (done : List Bytes) (current : Bytes) : Bytes → List Bytes
  | [] => (current.reverse :: done).reverse
  | b :: rest =>
    if p b then splitOnto p (current.reverse :: done) [] rest else splitOnto p done (b :: current) rest

/-- Pieces between the bytes that satisfy `p`; one piece more than such bytes. -/
def split (p : UInt8 → Bool) (s : Bytes) : List Bytes := splitOnto p [] [] s

/-- The pieces joined with `sep` between neighbours. -/
def join (sep : Bytes) (pieces : List Bytes) : Bytes := sep.intercalate pieces

/-- The bytes up to the first `b`, and those after it when there is one. -/
def cut (b : UInt8) (s : Bytes) : Bytes × Option Bytes :=
  match s.dropWhile (· != b) with
  | [] => (s, none)
  | _ :: rest => (s.takeWhile (· != b), some rest)

/-- Whether `t` stands at the front of `s`. -/
def startsWith (s t : Bytes) : Bool := t.isPrefixOf s

/-- What follows `t` in `s`, when `s` starts with `t`. -/
def after? (t s : Bytes) : Option Bytes := if t.isPrefixOf s then some (s.drop t.length) else none

/-- Whether `t` stands somewhere in `s`. -/
def contains (s t : Bytes) : Bool :=
  match s with
  | [] => t.isEmpty
  | b :: rest => t.isPrefixOf (b :: rest) || contains rest t

/-- `s` with every occurrence of `old`, from the left, replaced by `new`, behind `done`, which is
backwards; `skip` counts the bytes of an occurrence still to pass over. -/
def replaceOnto (old new : Bytes) (done : Bytes) : Nat → Bytes → Bytes
  | _, [] => done.reverse
  | skip + 1, _ :: rest => replaceOnto old new done skip rest
  | 0, b :: rest =>
    if old.isPrefixOf (b :: rest) then
      replaceOnto old new (new.reverse ++ done) (old.length - 1) rest
    else replaceOnto old new (b :: done) 0 rest

/-- `s` with every occurrence of `old`, from the left, replaced by `new`. -/
def replace (old new s : Bytes) : Bytes := if old.isEmpty then s else replaceOnto old new [] 0 s

def digit? (b : UInt8) : Option Nat := if 0x30 ≤ b && b ≤ 0x39 then some (b.toNat - 0x30) else none

def toNat? (s : Bytes) : Option Nat :=
  if s.isEmpty then none
  else s.foldl (fun n b => do return 10 * (← n) + (← digit? b)) (some 0)

def toInt? : Bytes → Option Int
  | 0x2d :: rest => (toNat? rest).map (-Int.ofNat ·)
  | 0x2b :: rest => (toNat? rest).map Int.ofNat
  | s => (toNat? s).map Int.ofNat

/-- Order by unsigned bytes, a proper start first. -/
def compare : Bytes → Bytes → Ordering
  | [], [] => .eq
  | [], _ :: _ => .lt
  | _ :: _, [] => .gt
  | a :: s, b :: t => if a < b then .lt else if b < a then .gt else compare s t

/-- `n` copies of the byte `b`. -/
def fill (b : UInt8) (n : Nat) : Bytes := List.replicate n b

end Bytes

end JobShell
