import JobShell.Text.Bytes

/-!
# Well-formed UTF-8

`Utf8.Form` is the table of well-formed byte sequences: for each lead byte the number of bytes that
follow and the bounds of the first of them; every later byte is in `80..BF`. `Utf8.decode` reads a
whole byte string or refuses it; `Utf8.decodeLossy` puts one U+FFFD for each maximal piece that no
character can start with.
-/

namespace JobShell.Utf8

structure Form where
  /-- Number of bytes that follow. -/
  trailing : Nat
  /-- Least first byte that follows. -/
  low : UInt8 := 0x80
  /-- Greatest first byte that follows. -/
  high : UInt8 := 0xbf
  /-- The bits of the code point that the lead byte carries. -/
  bits : Nat
  deriving Repr, DecidableEq

/-- The form of the sequences that `lead` starts; `none` for a byte that starts none. -/
def form? (lead : UInt8) : Option Form :=
  if lead < 0x80 then some { trailing := 0, bits := lead.toNat }
  else if lead < 0xc2 then none
  else if lead < 0xe0 then some { trailing := 1, bits := lead.toNat - 0xc0 }
  else if lead = 0xe0 then some { trailing := 2, low := 0xa0, bits := 0 }
  else if lead = 0xed then some { trailing := 2, high := 0x9f, bits := 0xd }
  else if lead < 0xf0 then some { trailing := 2, bits := lead.toNat - 0xe0 }
  else if lead = 0xf0 then some { trailing := 3, low := 0x90, bits := 0 }
  else if lead < 0xf4 then some { trailing := 3, bits := lead.toNat - 0xf0 }
  else if lead = 0xf4 then some { trailing := 3, high := 0x8f, bits := 4 }
  else none

/-- Reads up to `n` bytes that continue a character, the first of them between `low` and `high`,
into the bits read so far. The flag says that all `n` were there. -/
def continuation : Nat → UInt8 → UInt8 → Nat → Bytes → Bool × Nat × Bytes
  | 0, _, _, bits, rest => (true, bits, rest)
  | _ + 1, _, _, bits, [] => (false, bits, [])
  | n + 1, low, high, bits, b :: rest =>
    if low ≤ b && b ≤ high then continuation n 0x80 0xbf (64 * bits + (b.toNat - 0x80)) rest
    else (false, bits, b :: rest)

/-- The first character of a byte string that is not empty, or `none` when its first piece is
ill-formed; and the bytes after that piece. -/
def first (lead : UInt8) (rest : Bytes) : Option Char × Bytes :=
  match form? lead with
  | none => (none, rest)
  | some f =>
    match continuation f.trailing f.low f.high f.bits rest with
    | (true, bits, rest') => (some (Char.ofNat bits), rest')
    | (false, _, rest') => (none, rest')

theorem length_continuation_le (n : Nat) (low high : UInt8) (bits : Nat) (b : Bytes) :
    (continuation n low high bits b).2.2.length ≤ b.length := by
  fun_induction continuation n low high bits b <;> simp_all
  omega

theorem length_first_le (lead : UInt8) (rest : Bytes) :
    (first lead rest).2.length ≤ rest.length := by
  unfold first
  split
  · simp
  · rename_i f _
    have h := length_continuation_le f.trailing f.low f.high f.bits rest
    split <;> simp_all

def decode : Bytes → Option (List Char)
  | [] => some []
  | lead :: rest =>
    match h : first lead rest with
    | (none, _) => none
    | (some c, rest') =>
      have : rest'.length ≤ rest.length := by simpa [h] using length_first_le lead rest
      (decode rest').map (c :: ·)
termination_by b => b.length

def decodeString (b : Bytes) : Option String := (decode b).map String.ofList

/-- The characters of a byte string, with U+FFFD for each ill-formed piece. -/
def decodeLossy : Bytes → List Char
  | [] => []
  | lead :: rest =>
    match h : first lead rest with
    | (c?, rest') =>
      have : rest'.length ≤ rest.length := by simpa [h] using length_first_le lead rest
      c?.getD '\uFFFD' :: decodeLossy rest'
termination_by b => b.length

end JobShell.Utf8
