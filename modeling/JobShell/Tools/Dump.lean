import JobShell.Text.Amount
import JobShell.Text.Real
import JobShell.Tools.Arguments

/-!
# Dumps

`od` shows bytes as characters and numbers. A `Shape` says how a unit of so many bytes is shown. When
there are several, the units of a line stand under each other: every block has the width that the
widest shape needs, and what is left over is spread in front of the units.
-/

namespace JobShell.Dump

open Util

inductive Kind where
  /-- A character with its escape or its octal number. -/
  | character
  /-- The name of a character. -/
  | named
  | signed
  | unsigned
  | octal
  | hexadecimal
  | real
  deriving DecidableEq

structure Shape where
  kind : Kind
  /-- Number of bytes of a unit. -/
  size : Nat
  /-- The line is shown as text too. -/
  trailer : Bool := false

def digitsIn (base n : Nat) : Bytes := (Nat.toDigits base n).map (·.toNat.toUInt8)

/-- A text behind as many bytes as it takes to reach a width. -/
def padded (pad : UInt8) (width : Nat) (text : Bytes) : Bytes :=
  Bytes.fill pad (width - text.length) ++ text

def characterText (b : UInt8) : Bytes :=
  match Char.ofNat b.toNat with
  | '\x00' => Bytes.ofString "\\0"
  | '\x07' => Bytes.ofString "\\a"
  | '\x08' => Bytes.ofString "\\b"
  | '\x0c' => Bytes.ofString "\\f"
  | '\n' => Bytes.ofString "\\n"
  | '\r' => Bytes.ofString "\\r"
  | '\t' => Bytes.ofString "\\t"
  | '\x0b' => Bytes.ofString "\\v"
  | _ => if Class.isPrint b then [b] else padded 0x30 3 (digitsIn 8 b.toNat)

/-- The names of the characters that are not printed. -/
def names : List String :=
  ["nul", "soh", "stx", "etx", "eot", "enq", "ack", "bel", "bs", "ht", "nl", "vt", "ff", "cr", "so",
   "si", "dle", "dc1", "dc2", "dc3", "dc4", "nak", "syn", "etb", "can", "em", "sub", "esc", "fs",
   "gs", "rs", "us", "sp"]

/-- The name of the character in the low seven bits. -/
def nameText (b : UInt8) : Bytes :=
  let b := b.toNat % 128
  if b = 127 then Bytes.ofString "del"
  else match names[b]? with
    | some n => Bytes.ofString n
    | none => [b.toUInt8]

/-! ## Real numbers -/

def single : RealFormat := ⟨24, 128, 1⟩

def realOfBits (f : RealFormat) (size v : Nat) : Real :=
  let mantissaBits := f.bits - 1
  let exponentBits := 8 * size - 1 - mantissaBits
  let negative := v / Nat.pow 2 (8 * size - 1) = 1
  let exponent := v / Nat.pow 2 mantissaBits % Nat.pow 2 exponentBits
  let mantissa := v % Nat.pow 2 mantissaBits
  if exponent = Nat.pow 2 exponentBits - 1 then
    if mantissa = 0 then .infinite negative else .undefined negative
  else
    let m := if exponent = 0 then mantissa else mantissa + Nat.pow 2 mantissaBits
    .finite negative (m * Nat.pow 2 (max exponent 1)) (Nat.pow 2 f.places * 2)

/-- The shortest text of at least `precision` digits that reads back as the number; at most `n`
digits more. -/
def shortest (f : RealFormat) (num den : Nat) : Nat → Nat → Bytes
  | 0, precision => Real.general num den precision false false
  | n + 1, precision =>
    let text := Real.general num den precision false false
    match Real.front text with
    | some (r, _) =>
      if (f.round r).1.compare (.finite false num den) = .eq then text
      else shortest f num den n (precision + 1)
    | none => text

def realText (f : RealFormat) (digits : Nat) : Real → Bytes
  | .finite s n d =>
    (if s then [0x2d] else []) ++ shortest f n d 4 (if n * Nat.pow 2 (f.limit - 2) < d then 1 else digits)
  | .infinite s => (if s then [0x2d] else []) ++ Bytes.ofString "inf"
  | .undefined s => (if s then [0x2d] else []) ++ Bytes.ofString "nan"

namespace Shape

/-- Characters a unit takes, without the blank in front of it. -/
def width (s : Shape) : Nat :=
  match s.kind with
  | .character | .named => 3
  | .octal => match s.size with | 1 => 3 | 2 => 6 | 4 => 11 | _ => 22
  | .hexadecimal => 2 * s.size
  | .unsigned => match s.size with | 1 => 3 | 2 => 5 | 4 => 10 | _ => 20
  | .signed => match s.size with | 1 => 4 | 2 => 6 | 4 => 11 | _ => 20
  | .real => if s.size = 4 then 15 else 24

def unit (s : Shape) (bytes : Bytes) : Bytes :=
  let v := bytes.foldr (fun b n => n * 256 + b.toNat) 0
  match s.kind with
  | .character => characterText v.toUInt8
  | .named => nameText v.toUInt8
  | .octal => padded 0x30 s.width (digitsIn 8 v)
  | .hexadecimal => padded 0x30 s.width (digitsIn 16 v)
  | .unsigned => digitsIn 10 v
  | .signed => Bytes.ofInt (if 2 * v ≥ Nat.pow 256 s.size then (v : Int) - Nat.pow 256 s.size else v)
  | .real =>
    if s.size = 4 then realText single 6 (realOfBits single 4 v)
    else realText .double 15 (realOfBits .double 8 v)

/-- The units of a text, `n` bytes each, the last one filled up with zeros. -/
def units (n : Nat) : Nat → Bytes → List Bytes
  | 0, _ => []
  | fuel + 1, s =>
    if s.isEmpty then []
    else
      let u := s.take n
      (u ++ Bytes.fill 0 (n - u.length)) :: units n fuel (s.drop n)

/-- A line of `perLine` bytes, of which some may be missing, with blocks `block` characters wide. -/
def line (s : Shape) (perLine block : Nat) (bigEndian : Bool) (text : Bytes) : Bytes :=
  let fields := perLine / s.size
  let blank := (perLine - text.length) / s.size
  let pad := block - s.width * fields
  let before (left : Nat) : Nat := pad * left / fields
  let shown := ((units s.size text.length text).zipIdx).flatMap fun (u, i) =>
    let left := fields - i
    padded 0x20 (s.width + (before left - before (left - 1)))
      (s.unit (if bigEndian then u.reverse else u))
  let trailer :=
    if !s.trailer then []
    else Bytes.fill 0x20 (blank * s.width + before blank) ++ Bytes.ofString "  >" ++
      text.map (fun b => if Class.isPrint b then b else 0x2e) ++ [0x3c]
  shown ++ trailer

end Shape

/-! ## Types -/

inductive TypeError where
  | badLetter (letter : UInt8)
  | badSize (size : Nat) (real : Bool)
  | tooLarge

def TypeError.message (text : Bytes) : TypeError → Bytes
  | badLetter c => Bytes.ofString "invalid character '" ++ c :: Bytes.ofString "' in type string " ++
      Quoted.plain text
  | badSize n real =>
    let kind := if real then "floating point" else "integral"
    Bytes.ofString "invalid type string " ++ Quoted.plain text ++
      Bytes.ofString s!";\nthis system doesn't provide a {n}-byte {kind} type"
  | tooLarge => Bytes.ofString "invalid type string " ++ Quoted.plain text

/-- The size of a number at the front, and what follows it. -/
def sizeFront (real : Bool) (s : Bytes) : Except TypeError (Nat × Bytes) :=
  let letters : List (UInt8 × Nat) :=
    if real then [(0x46, 4), (0x44, 8), (0x4c, 16)] else [(0x43, 1), (0x53, 2), (0x49, 4), (0x4c, 8)]
  let digits := s.takeWhile Class.isDigit
  match s.head?.bind (fun c => letters.lookup c), Bytes.toNat? digits with
  | some n, _ => .ok (n, s.drop 1)
  | none, none => .ok (if real then 8 else 4, s)
  | none, some n =>
    if n ≥ Nat.pow 2 31 then .error .tooLarge
    else if (if real then [4, 8, 16] else [1, 2, 4, 8]).contains n then .ok (n, s.drop digits.length)
    else .error (.badSize n real)

def shapesOf : Nat → Bytes → Except TypeError (List Shape)
  | 0, _ => .ok []
  | _, [] => .ok []
  | n + 1, k :: rest => do
    let number (kind : Kind) : Except TypeError (Shape × Bytes) := do
      let (size, rest) ← sizeFront (kind = .real) rest
      return ({ kind, size }, rest)
    let (shape, rest) ← match Char.ofNat k.toNat with
      | 'a' => pure (({ kind := .named, size := 1 } : Shape), rest)
      | 'c' => pure (({ kind := .character, size := 1 } : Shape), rest)
      | 'd' => number .signed
      | 'u' => number .unsigned
      | 'o' => number .octal
      | 'x' => number .hexadecimal
      | 'f' => number .real
      | _ => .error (.badLetter k)
    match rest with
    | 0x7a :: rest => return { shape with trailer := true } :: (← shapesOf n rest)
    | _ => return shape :: (← shapesOf n rest)

def letterTypes : List (String × String) :=
  [("a", "a"), ("b", "o1"), ("c", "c"), ("d", "u2"), ("f", "f4"), ("h", "x2"), ("i", "d4"),
   ("l", "d8"), ("o", "o2"), ("x", "x2"), ("s", "d2"), ("B", "o2"), ("D", "u4"), ("e", "f8"),
   ("F", "f8"), ("H", "x4"), ("I", "d8"), ("L", "d8"), ("O", "o4"), ("X", "x4")]

/-! ## The utility -/

def table : OptionTable :=
  .of "A:t:N:j:w::vabcdfhilosxBDeFHILOX"
    [("address-radix", .required, "A"), ("format", .required, "t"), ("read-bytes", .required, "N"),
     ("skip-bytes", .required, "j"), ("width", .optional, "w"), ("output-duplicates", .none, "v"),
     ("endian", .required, "endian")]

/-- Pieces of a text of at most `n` bytes. -/
def pieces (n : Nat) : Nat → Bytes → List Bytes
  | 0, _ => []
  | fuel + 1, s => if s.isEmpty then [] else s.take n :: pieces n fuel (s.drop n)

/-- Lines of an output; those that repeat the one before are replaced by one `*`, but for the last. -/
def showLines (all : Bool) (perLine : Nat) (show_ : Nat → Bytes → Bytes) :
    Nat → List Bytes → Option Bytes → Bool → List Bytes
  | _, [], _, _ => []
  | at_, line :: rest, before, starred =>
    if !all && before = some line && line.length = perLine then
      (if starred then [] else [[0x2a]]) ++ showLines all perLine show_ (at_ + line.length) rest before true
    else show_ at_ line :: showLines all perLine show_ (at_ + line.length) rest (some line) false

def addressText (radix : UInt8) (n : Nat) : Bytes :=
  match Char.ofNat radix.toNat with
  | 'd' => padded 0x30 7 (digitsIn 10 n)
  | 'x' => padded 0x30 6 (digitsIn 16 n)
  | 'n' => []
  | _ => padded 0x30 7 (digitsIn 8 n)

def amountOf (a : Arguments) (key : String) (letters : Bytes := Amount.usual) : Util (Option Nat) :=
  match a.value? key with
  | none => return none
  | some s => match Amount.parse s letters true with
    | .ok n => return some n
    | .error .notNumber => fail (Bytes.ofString s!"invalid -{key} argument " ++ Quoted.plain s)
    | .error .badUnit => fail (Bytes.ofString s!"invalid suffix in -{key} argument " ++ Quoted.plain s)
    | .error .tooLarge => fail (Bytes.ofString s!"-{key} argument " ++ Quoted.plain s ++
        Bytes.ofString " too large")

/-- The shapes that the options ask for; none if one was not understood. -/
def shapesFor (a : Arguments) : Util (Option (List Shape)) := do
  let mut shapes : List Shape := []
  let mut fine := true
  for (key, value) in a.options do
    let text? := if key = "t" then value else (letterTypes.lookup key).map Bytes.ofString
    match text? with
    | none => pure ()
    | some text => match shapesOf (text.length + 1) text with
      | .ok more => shapes := shapes ++ more
      | .error e =>
        complain (e.message text)
        fine := false
  if !fine then return none
  else return some (if shapes.isEmpty then [{ kind := .octal, size := 2 }] else shapes)

/-- The bytes of all operands, one after the other; whether one of them could be opened. -/
def readOperands (operands : List Bytes) : Util (Bytes × Bool) := do
  let mut parts : List Bytes := []
  let mut any := false
  for operand in operands do
    match ← openOperand operand with
    | .error e => warnFile operand e
    | .ok fd =>
      any := true
      let (text, failure) ← readAll fd
      closeOperand fd
      parts := text :: parts
      match failure with
      | some e => warnFile operand e
      | none => pure ()
  return (parts.reverse.flatten, any)

def od (args : List Bytes) : Util UInt8 := do
  let a ← arguments table args
  let radix ← match a.value? "A" with
    | none => pure 0x6f
    | some s => match s with
      | c :: _ =>
        if c ∈ Bytes.ofString "doxn" then pure c
        else fail (Bytes.ofString "invalid output address radix '" ++ c ::
          Bytes.ofString "'; it must be one character from [doxn]")
      | [] => failString "invalid output address radix '\x00'; it must be one character from [doxn]"
  let skip := (← amountOf a "j").getD 0
  let most ← amountOf a "N"
  let asked ← amountOf a "w" []
  let endian ← match a.value? "endian" with
    | none => pure 0
    | some word => keyword "--endian" [["little"], ["big"]] word
  match ← shapesFor a with
  | none => return 1
  | some shapes =>
    let unit := (shapes.map (·.size)).foldl Nat.lcm 1
    let wanted := asked.getD (if a.has "w" then 32 else if unit < 16 then unit * (16 / unit) else unit)
    if wanted % unit ≠ 0 || wanted = 0 then
      complain (Bytes.ofString s!"warning: invalid width {wanted}; using {unit} instead")
    let perLine := if wanted % unit ≠ 0 || wanted = 0 then unit else wanted
    let (text, any) ← readOperands (if a.operands.isEmpty then [dash] else a.operands)
    if !any then return 1
    if text.length < skip then failString "cannot skip past end of combined input"
    let text := text.drop skip
    let text := match most with
      | some n => text.take n
      | none => text
    let block := (shapes.map fun s => (s.width + 1) * (perLine / s.size)).foldl max 0
    let indent := Bytes.fill 0x20 (addressText radix 0).length
    let showLine (at_ : Nat) (line : Bytes) : Bytes :=
      Bytes.join [Bytes.newline] ((shapes.zipIdx).map fun (s, i) =>
        (if i = 0 then addressText radix at_ else indent) ++ s.line perLine block (endian = 1) line)
    put (joinLines (showLines (a.has "v") perLine showLine skip (pieces perLine text.length text) none
      false))
    if radix ≠ 0x6e then putLine (addressText radix (skip + text.length))
    return (← get).status

end JobShell.Dump
