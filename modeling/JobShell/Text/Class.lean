import JobShell.Text.Bytes

/-!
# Classes of bytes

The character classes of the plain locale: only ASCII bytes belong to a class, and each byte is a
character.
-/

namespace JobShell.Class

def isDigit (b : UInt8) : Bool := 0x30 ≤ b && b ≤ 0x39

def isUpper (b : UInt8) : Bool := 0x41 ≤ b && b ≤ 0x5a

def isLower (b : UInt8) : Bool := 0x61 ≤ b && b ≤ 0x7a

def isAlpha (b : UInt8) : Bool := isUpper b || isLower b

def isAlnum (b : UInt8) : Bool := isAlpha b || isDigit b

def isBlank (b : UInt8) : Bool := b = 0x20 || b = 0x09

def isSpace (b : UInt8) : Bool := b = 0x20 || (0x09 ≤ b && b ≤ 0x0d)

def isCntrl (b : UInt8) : Bool := b < 0x20 || b = 0x7f

def isPrint (b : UInt8) : Bool := 0x20 ≤ b && b < 0x7f

def isGraph (b : UInt8) : Bool := 0x20 < b && b < 0x7f

def isPunct (b : UInt8) : Bool := isGraph b && !isAlnum b

def isXdigit (b : UInt8) : Bool := isDigit b || (0x41 ≤ b && b ≤ 0x46) || (0x61 ≤ b && b ≤ 0x66)

/-- A byte of a name or a word: a letter, a digit or `_`. -/
def isWord (b : UInt8) : Bool := isAlnum b || b = 0x5f

def toLower (b : UInt8) : UInt8 := if isUpper b then b + 0x20 else b

def toUpper (b : UInt8) : UInt8 := if isLower b then b - 0x20 else b

def digitValue? (b : UInt8) : Option Nat :=
  if isDigit b then some (b.toNat - 0x30)
  else if isAlpha b then some ((toLower b).toNat - 0x61 + 10)
  else none

def ofName? (name : Bytes) : Option (UInt8 → Bool) :=
  let table : List (String × (UInt8 → Bool)) :=
    [("alpha", isAlpha), ("digit", isDigit), ("alnum", isAlnum), ("upper", isUpper),
     ("lower", isLower), ("space", isSpace), ("blank", isBlank), ("punct", isPunct),
     ("print", isPrint), ("graph", isGraph), ("cntrl", isCntrl), ("xdigit", isXdigit)]
  (table.find? fun e => Bytes.ofString e.1 = name).map (·.2)

/-- The octal number at the front, of at most `n` digits, and what follows it. -/
def octalFront : Nat → Nat → Bytes → Nat × Bytes
  | 0, value, rest => (value, rest)
  | _ + 1, value, [] => (value, [])
  | n + 1, value, b :: rest =>
    if 0x30 ≤ b && b ≤ 0x37 then octalFront n (8 * value + (b.toNat - 0x30)) rest
    else (value, b :: rest)

/-- The hexadecimal number at the front, of at most `n` digits, and what follows it. -/
def hexFront : Nat → Nat → Bytes → Nat × Bytes
  | 0, value, rest => (value, rest)
  | _ + 1, value, [] => (value, [])
  | n + 1, value, b :: rest =>
    if isXdigit b then hexFront n (16 * value + ((digitValue? b).getD 0)) rest
    else (value, b :: rest)

end JobShell.Class
