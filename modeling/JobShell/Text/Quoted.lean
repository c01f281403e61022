import JobShell.Text.Bytes

/-!
# Names in messages

Utilities print names so that they can be told from the words around them. `Quoted.plain` puts
quotes around any text; `Quoted.always` writes a text as one word of a command line; `Quoted.needed`
does so only when the text is not such a word as it stands.
-/

namespace JobShell.Quoted

def controlLetter? (b : UInt8) : Option UInt8 :=
  if b = 7 then some 0x61 else if b = 8 then some 0x62 else if b = 9 then some 0x74
  else if b = 10 then some 0x6e else if b = 11 then some 0x76 else if b = 12 then some 0x66
  else if b = 13 then some 0x72 else none

def isPrintable (b : UInt8) : Bool := 0x20 ≤ b && b < 0x7f

def octal (b : UInt8) : Bytes :=
  [b.toNat / 64, b.toNat / 8 % 8, b.toNat % 8].map fun n => (0x30 + n).toUInt8

/-- What follows the backslash for a byte that is not printed as itself. -/
def escape? (b : UInt8) : Option Bytes :=
  match controlLetter? b with
  | some c => some [c]
  | none => if isPrintable b then none else some (octal b)

def quote : UInt8 := 0x27

def plain (s : Bytes) : Bytes :=
  quote :: s.flatMap (fun b =>
    if b = quote || b = 0x5c then [0x5c, b]
    else match escape? b with
      | some e => 0x5c :: e
      | none => [b]) ++ [quote]

/-- Bytes that mean something on a command line, wherever they stand. -/
def isSpecial (b : UInt8) : Bool := b ∈ Bytes.ofString " !\"$&()*;<=>[^`|?\\'"

/-- Whether a text is one word of a command line as it stands. -/
def isPlainWord (s : Bytes) : Bool :=
  !s.isEmpty && s.all (fun b => isPrintable b && !isSpecial b) &&
    s.head? ≠ some 0x23 && s.head? ≠ some 0x7e && s ≠ [0x7b] && s ≠ [0x7d]

/-- Whether double quotes are enough around a text with single quotes. -/
def fitsDoubleQuotes (b : UInt8) : Bool :=
  b.toNat < 0x80 && (Char.ofNat b.toNat).isAlphanum || b ∈ Bytes.ofString " '%+,-./:]_#~\x7b\x7d@"

/-- The bytes between single quotes; `open` says that a run of escapes has been started. -/
def inner : Bool → Bytes → Bytes
  | _, [] => []
  | escaping, b :: rest =>
    match escape? b with
    | some e => (if escaping then [] else [quote, 0x24, quote]) ++ 0x5c :: e ++ inner true rest
    | none =>
      if b = quote then [quote, 0x5c, quote, quote] ++ inner false rest
      else (if escaping then [quote, quote] else []) ++ b :: inner false rest

def always (s : Bytes) : Bytes :=
  if quote ∈ s && s.all fitsDoubleQuotes then 0x22 :: s ++ [0x22] else quote :: inner false s ++ [quote]

def asWord (s : Bytes) : Bytes := if isPlainWord s then s else always s

/-- A text as one word of a command line; a colon asks for quotes too. -/
def needed (s : Bytes) : Bytes := if 0x3a ∈ s then always s else asWord s

end JobShell.Quoted
