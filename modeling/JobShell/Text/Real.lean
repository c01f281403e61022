import JobShell.Text.Class

/-!
# Real numbers in texts

`Real` is a number as utilities read it: a fraction with a sign, an infinity, or no number at all.
`Real.front` reads the one at the front of a text, decimal or hexadecimal. `RealFormat.round` gives
the nearest number that so many binary digits can hold, a half going to the even neighbour, and
`fixed`, `scientific`, `general` and `hexadecimal` write a fraction.
-/

namespace JobShell

inductive Real where
  /-- `num / den`, with a sign that zero has too. -/
  | finite (negative : Bool) (num den : Nat)
  | infinite (negative : Bool)
  | undefined (negative : Bool)
  deriving Repr

namespace Real

def isNegative : Real → Bool
  | finite s _ _ | infinite s | undefined s => s

def negate : Real → Real
  | finite s n d => finite (!s) n d
  | infinite s => infinite !s
  | undefined s => undefined !s

def isDefined : Real → Bool
  | undefined _ => false
  | _ => true

def isFinite : Real → Bool
  | finite .. => true
  | _ => false

/-- A fraction as a numerator with a sign over a denominator. -/
def signed (negative : Bool) (n : Nat) : Int := if negative then -n else n

/-- The order of numbers; those that are undefined are equal to all. -/
def compare : Real → Real → Ordering
  | finite s n d, finite t m k => Ord.compare (signed s n * k) (signed t m * d)
  | infinite s, infinite t => Ord.compare t s
  | infinite s, finite .. => if s then .lt else .gt
  | finite .., infinite t => if t then .gt else .lt
  | _, _ => .eq

/-! ## Reading -/

/-- Exponents beyond this one are as large as any. -/
def exponentLimit : Int := 40000

/-- `n * base ^ exponent`. -/
def scaled (base n : Nat) (exponent : Int) : Real :=
  if n = 0 then finite false 0 1
  else if exponent > exponentLimit then infinite false
  else if exponent < -exponentLimit then finite false 1 (Nat.pow base exponentLimit.toNat)
  else if exponent ≥ 0 then finite false (n * Nat.pow base exponent.toNat) 1
  else finite false n (Nat.pow base (-exponent).toNat)

/-- An exponent behind its letter, if digits follow, and what follows them. -/
def exponentFront (letter : UInt8) (s : Bytes) : Int × Bytes :=
  match s with
  | c :: rest =>
    if Class.toLower c ≠ letter then (0, s)
    else
      let (negative, digits) := match rest with
        | 0x2d :: more => (true, more)
        | 0x2b :: more => (false, more)
        | _ => (false, rest)
      let ds := digits.takeWhile Class.isDigit
      match Bytes.toNat? ds with
      | some n => (signed negative n, digits.drop ds.length)
      | none => (0, s)
  | [] => (0, [])

/-- The digits at the front and those behind a point, and what follows them. -/
def digitsFront (isDigit : UInt8 → Bool) (s : Bytes) : Bytes × Bytes × Bytes :=
  let whole := s.takeWhile isDigit
  match s.drop whole.length with
  | 0x2e :: more =>
    let fraction := more.takeWhile isDigit
    if whole.isEmpty && fraction.isEmpty then ([], [], s)
    else (whole, fraction, more.drop fraction.length)
  | rest => (whole, [], rest)

def valueOf (base : Nat) (digits : Bytes) : Nat :=
  digits.foldl (fun n b => n * base + (Class.digitValue? b).getD 0) 0

/-- A decimal number without a sign. -/
def decimalFront (s : Bytes) : Option (Real × Bytes) :=
  let (whole, fraction, rest) := digitsFront Class.isDigit s
  if whole.isEmpty && fraction.isEmpty then none
  else
    let (exponent, rest) := exponentFront 0x65 rest
    some (scaled 10 (valueOf 10 (whole ++ fraction)) (exponent - fraction.length), rest)

/-- A hexadecimal number behind its `0x`. -/
def hexFront (s : Bytes) : Option (Real × Bytes) :=
  let (whole, fraction, rest) := digitsFront Class.isXdigit s
  if whole.isEmpty && fraction.isEmpty then none
  else
    let (exponent, rest) := exponentFront 0x70 rest
    some (scaled 2 (valueOf 16 (whole ++ fraction)) (exponent - 4 * fraction.length), rest)

def afterWord? (word : String) (s : Bytes) : Option Bytes :=
  let w := Bytes.ofString word
  if (s.take w.length).map Class.toLower = w then some (s.drop w.length) else none

/-- What follows letters and digits in parentheses, if they stand at the front. -/
def skipTag (s : Bytes) : Bytes :=
  match s with
  | 0x28 :: rest =>
    let tag := rest.takeWhile fun b => Class.isAlnum b || b = 0x5f
    match rest.drop tag.length with
    | 0x29 :: more => more
    | _ => s
  | _ => s

/-- A number without a sign. -/
def plainFront (s : Bytes) : Option (Real × Bytes) :=
  match afterWord? "infinity" s, afterWord? "inf" s, afterWord? "nan" s with
  | some rest, _, _ => some (infinite false, rest)
  | _, some rest, _ => some (infinite false, rest)
  | _, _, some rest => some (undefined false, skipTag rest)
  | _, _, _ =>
    match s with
    | 0x30 :: x :: more =>
      if Class.toLower x = 0x78 then (hexFront more).or (decimalFront s) else decimalFront s
    | _ => decimalFront s

/-- The number at the front of a text, behind blanks, and what follows it. -/
def front (s : Bytes) : Option (Real × Bytes) :=
  match s.dropWhile Class.isSpace with
  | 0x2d :: rest => (plainFront rest).map fun (r, rest) => (r.negate, rest)
  | 0x2b :: rest => plainFront rest
  | s => plainFront s

/-! ## Rounding -/

/-- `n / d` rounded to the nearest whole number, a half to the even one. -/
def roundDiv (n d : Nat) : Nat :=
  let q := n / d
  let r := n % d
  if 2 * r > d || (2 * r = d && q % 2 = 1) then q + 1 else q

end Real

structure RealFormat where
  /-- Number of binary digits. -/
  bits : Nat
  /-- Powers of two from this one on are too large. -/
  limit : Nat
  /-- Number of binary digits in front of the point when a number is written in base 16. -/
  lead : Nat
  deriving DecidableEq, Repr

namespace RealFormat

def extended : RealFormat := ⟨64, 16384, 4⟩

def double : RealFormat := ⟨53, 1024, 1⟩

/-- The power of two of the first binary digit of a fraction that is not 0. -/
def topPower (n d : Nat) : Int :=
  let whole : Int := (Nat.log2 n : Int) - Nat.log2 d
  let below := if whole ≥ 0 then n < d * Nat.pow 2 whole.toNat else n * Nat.pow 2 (-whole).toNat < d
  if below then whole - 1 else whole

/-- The number of places behind the point that can be held. -/
def places (f : RealFormat) : Nat := f.limit + f.bits - 3

/-- The nearest number that can be held, and whether the number was too large or too small. -/
def round (f : RealFormat) : Real → Real × Bool
  | .finite s n d =>
    if n = 0 then (.finite s 0 1, false)
    else
      let scale := min ((f.bits : Int) - 1 - topPower n d) f.places
      let (m, k) := if scale ≥ 0 then (Real.roundDiv (n * Nat.pow 2 scale.toNat) d, Nat.pow 2 scale.toNat)
        else (Real.roundDiv n (d * Nat.pow 2 (-scale).toNat) * Nat.pow 2 (-scale).toNat, 1)
      if m ≥ Nat.pow 2 f.limit * k then (.infinite s, true)
      else (.finite s m k, m * Nat.pow 2 (f.limit - 2) < k)
  | .infinite s => (.infinite s, false)
  | .undefined s => (.undefined s, false)

end RealFormat

namespace Real

/-! ## Writing -/

/-- Digits with a point before the last `places`. -/
def fixed (n d places : Nat) (point : Bool) : Bytes :=
  let digits := Bytes.ofNat (roundDiv (n * Nat.pow 10 places) d)
  let digits := Bytes.fill 0x30 (places + 1 - digits.length) ++ digits
  let k := digits.length - places
  digits.take k ++ (if places > 0 || point then [0x2e] else []) ++ digits.drop k

/-- The power of ten of the first digit of a fraction that is not 0. -/
def magnitude (n d : Nat) : Int :=
  if n ≥ d then ((Nat.toDigits 10 (n / d)).length : Int) - 1
  else -((Nat.toDigits 10 (d / n)).length : Int) + (if d % n = 0 && isPowerOfTen (d / n) then 1 else 0)
where
  isPowerOfTen (k : Nat) : Bool := k = Nat.pow 10 ((Nat.toDigits 10 k).length - 1)

/-- The mantissa's digits, `places` behind the first, and the exponent. -/
def scientificParts (n d places : Nat) : Nat × Int :=
  if n = 0 then (0, 0)
  else
    let m := magnitude n d
    let scale := (places : Int) - m
    let v := if scale ≥ 0 then roundDiv (n * Nat.pow 10 scale.toNat) d else roundDiv n (d * Nat.pow 10 (-scale).toNat)
    if v ≥ Nat.pow 10 (places + 1) then (v / 10, m + 1) else (v, m)

def exponentText (upper : Bool) (e : Int) : Bytes :=
  let digits := Bytes.ofNat e.natAbs
  [if upper then 0x45 else 0x65, if e < 0 then 0x2d else 0x2b] ++
    (if digits.length < 2 then [0x30] else []) ++ digits

def scientific (n d places : Nat) (upper point : Bool) : Bytes :=
  let (v, e) := scientificParts n d places
  let digits := Bytes.ofNat v
  let digits := digits ++ Bytes.fill 0x30 (places + 1 - digits.length)
  digits.take 1 ++ (if places > 0 || point then [0x2e] else []) ++ digits.drop 1 ++ exponentText upper e

/-- Without zeros at the end of the places, and without a point at the end. -/
def trimPlaces (s : Bytes) : Bytes :=
  if 0x2e ∈ s then
    let s := (s.reverse.dropWhile (· = 0x30)).reverse
    if s.getLast? = some 0x2e then s.dropLast else s
  else s

def general (n d precision : Nat) (upper alternative : Bool) : Bytes :=
  let p := max precision 1
  let (_, e) := scientificParts n d (p - 1)
  if e < -4 || e ≥ p then
    let s := scientific n d (p - 1) upper alternative
    if alternative then s
    else
      let mark : UInt8 := if upper then 0x45 else 0x65
      let mantissa := s.takeWhile (· ≠ mark)
      trimPlaces mantissa ++ s.drop mantissa.length
  else
    let s := fixed n d (p - 1 - e).toNat alternative
    if alternative then s else trimPlaces s

/-- Base 16 with a power of two behind `p`, without the `0x`. -/
def hexadecimal (f : RealFormat) (n d : Nat) (precision : Option Nat) (point : Bool) : Bytes :=
  let most := (f.bits - f.lead) / 4
  let top := if n = 0 then 0 else RealFormat.topPower n d
  let scale := (f.bits : Int) - 1 - top
  let m := if scale ≥ 0 then n * Nat.pow 2 scale.toNat / d else n / (d * Nat.pow 2 (-scale).toNat)
  let shown := precision.getD most
  let v := if shown < most then roundDiv m (Nat.pow 16 (most - shown)) else m * Nat.pow 16 (shown - most)
  let digits := (Nat.toDigits 16 v).map (·.toNat.toUInt8)
  let digits := Bytes.fill 0x30 (shown + 1 - digits.length) ++ digits
  let k := digits.length - shown
  let behind := digits.drop k
  let behind := if precision.isNone then (behind.reverse.dropWhile (· = 0x30)).reverse else behind
  let e : Int := if n = 0 then 0 else top - (f.lead - 1)
  digits.take k ++ (if !behind.isEmpty || point then [0x2e] else []) ++ behind ++
    [0x70, if e < 0 then 0x2d else 0x2b] ++ Bytes.ofNat e.natAbs

end Real

end JobShell
