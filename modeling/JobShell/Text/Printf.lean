import JobShell.Text.Quoted
import JobShell.Text.Real

/-!
# Formatted output

`Printf.run` writes words as a format says. A real number is held with so many binary digits before
its decimal digits are rounded, each time to the nearest, a half to the even neighbour.
-/

namespace JobShell.Printf

structure Dialect where
  /-- `\xHH` is an escape. -/
  hex : Bool
  /-- A backslash before a double quote is left out. -/
  doubleQuote : Bool
  /-- The real numbers it knows. -/
  format : RealFormat
  /-- An empty word is the number 0. -/
  emptyIsZero : Bool
  /-- Letters that may stand in front of a conversion and say nothing. -/
  sizes : Bytes
  /-- Letters that are flags. -/
  flags : Bytes
  /-- Each conversion takes only the flags that mean something for it. -/
  strict : Bool

inductive Complaint where
  | notNumber (word : Bytes)
  | partly (word : Bytes)
  | tooLarge (word : Bytes)
  /-- Text behind the character that a word stands for. -/
  | beyond (text : Bytes)
  /-- An unknown conversion, which ends the output. -/
  | badFormat (text : Bytes)
  /-- A conversion without its letter, which ends the output. -/
  | unfinished (text : Bytes)
  /-- An escape that names no character, which ends the output. -/
  | badEscape (text : Bytes)
  deriving Repr

inductive Stop where
  /-- `\c`. -/
  | asked
  | wrong (c : Complaint)

/-- What the output consists of, in order. -/
inductive Event where
  | out (text : Bytes)
  | complain (c : Complaint)
  deriving Repr

/-! ## Escapes -/

def letter? (c : UInt8) : Option UInt8 :=
  match Char.ofNat c.toNat with
  | 'a' => some 7
  | 'b' => some 8
  | 'e' => some 0x1b
  | 'f' => some 12
  | 'n' => some 10
  | 'r' => some 13
  | 't' => some 9
  | 'v' => some 11
  | '\\' => some 0x5c
  | _ => none

def noDigits : Stop := .wrong (.badEscape (Bytes.ofString "missing hexadecimal number in escape"))

/-- An escape of two digits of base 16 behind its `x`. -/
def hexEscape (strict : Bool) (rest : Bytes) : Except Stop (Bytes × Bytes) :=
  if (rest.head?).any Class.isXdigit then
    let (v, rest) := Class.hexFront 2 0 rest
    .ok ([v.toUInt8], rest)
  else if strict then .error noDigits
  else .ok ([0x5c, 0x78], rest)

/-- An escape that names a character by its number, behind the letter: four digits for `u`, eight for
`U`. Only the first 128 characters have a byte; others stay as they are written. -/
def wideEscape (letter : UInt8) (rest : Bytes) : Except Stop (Bytes × Bytes) :=
  let count := if letter = 0x75 then 4 else 8
  let digits := rest.take count
  if digits.length < count || !digits.all Class.isXdigit then .error noDigits
  else
    let (v, _) := Class.hexFront count 0 digits
    let rest := rest.drop count
    if 0xd800 ≤ v && v ≤ 0xdfff then
      .error (.wrong (.badEscape
        (Bytes.ofString "invalid universal character name \\" ++ letter :: digits.map Class.toLower)))
    else if v < 0x80 then .ok ([v.toUInt8], rest)
    else if v < 0x10000 then
      .ok (Bytes.ofString "\\u" ++ (digits.drop (count - 4)).map Class.toUpper, rest)
    else .ok (Bytes.ofString "\\U" ++ digits.map Class.toUpper, rest)

/-- An escape of the format behind its backslash: its bytes and what follows. -/
def formatEscape (d : Dialect) (s : Bytes) : Except Stop (Bytes × Bytes) :=
  match s with
  | [] => .ok ([0x5c], [])
  | c :: rest =>
    if c = 0x63 && d.hex then .error .asked
    else if 0x30 ≤ c && c ≤ 0x37 then
      let (v, rest) := Class.octalFront 3 0 s
      .ok ([v.toUInt8], rest)
    else if c = 0x78 && d.hex then hexEscape d.strict rest
    else if (c = 0x75 || c = 0x55) && d.strict then wideEscape c rest
    else if c = 0x22 && d.doubleQuote then .ok ([0x22], rest)
    else match letter? c with
      | some b => .ok ([b], rest)
      | none => .ok ([0x5c, c], rest)

/-- The text of a word of at most `n` bytes with its escapes resolved, and what has ended it. An octal
escape starts with `\0`, or with any octal digit. -/
def resolve (hex strict : Bool) : Nat → Bytes → Bytes × Option Stop
  | 0, _ => ([], none)
  | _, [] => ([], none)
  | n + 1, 0x5c :: c :: rest =>
    let go (text : Bytes) (rest : Bytes) : Bytes × Option Stop :=
      let (t, stop) := resolve hex strict n rest
      (text ++ t, stop)
    let try_ : Except Stop (Bytes × Bytes) → Bytes × Option Stop
      | .ok (text, rest) => go text rest
      | .error stop => ([], some stop)
    if c = 0x63 then ([], some .asked)
    else if c = 0x30 then
      let (v, rest) := Class.octalFront 3 0 rest
      go [v.toUInt8] rest
    else if 0x31 ≤ c && c ≤ 0x37 then
      let (v, rest) := Class.octalFront 3 0 (c :: rest)
      go [v.toUInt8] rest
    else if c = 0x78 && hex then try_ (hexEscape strict rest)
    else if (c = 0x75 || c = 0x55) && strict then try_ (wideEscape c rest)
    else match letter? c with
      | some b => go [b] rest
      | none => go [0x5c, c] rest
  | n + 1, b :: rest =>
    let (t, stop) := resolve hex strict n rest
    (b :: t, stop)

/-! ## Numbers -/

/-- The character that a word with a quote in front stands for, and what follows it. -/
def quoted? : Bytes → Option (UInt8 × Bytes)
  | q :: c :: rest => if q = 0x27 || q = 0x22 then some (c, rest) else none
  | _ => none

def behindQuoted (rest : Bytes) : Option (Bytes → Complaint) :=
  if rest.isEmpty then none else some fun _ => .beyond rest

/-- A whole number read from a word, and what is wrong with the word. -/
def readInteger (unsigned : Bool) (word : Bytes) : Int × Option (Bytes → Complaint) :=
  match quoted? word with
  | some (c, rest) => (c.toNat, behindQuoted rest)
  | none =>
    let s := word.dropWhile Class.isSpace
    let (negative, s) := match s with
      | 0x2d :: rest => (true, rest)
      | 0x2b :: rest => (false, rest)
      | s => (false, s)
    let (base, body) : Nat × Bytes := match s with
      | 0x30 :: x :: d :: rest =>
        if (x = 0x78 || x = 0x58) && Class.isXdigit d then (16, d :: rest) else (8, s)
      | 0x30 :: _ => (8, s)
      | _ => (10, s)
    let digits := body.takeWhile fun b => (Class.digitValue? b).any (· < base)
    let value := digits.foldl (fun n b => n * base + (Class.digitValue? b).getD 0) 0
    let v : Int := if negative then -(value : Int) else value
    if digits.isEmpty then (0, some .notNumber)
    else if unsigned && value ≥ Nat.pow 2 64 then (Nat.pow 2 64 - 1, some .tooLarge)
    else if !unsigned && v < -(Nat.pow 2 63 : Int) then (-(Nat.pow 2 63 : Int), some .tooLarge)
    else if !unsigned && v ≥ Nat.pow 2 63 then (Nat.pow 2 63 - 1, some .tooLarge)
    else if digits.length < body.length then (v, some .partly)
    else (v, none)

/-- The number that a word starts with, as it can be held, and what is wrong with the word. -/
def readReal (f : RealFormat) (word : Bytes) : Real × Option (Bytes → Complaint) :=
  match quoted? word with
  | some (c, rest) => (.finite false c.toNat 1, behindQuoted rest)
  | none =>
    match Real.front word with
    | none => (.finite false 0 1, some .notNumber)
    | some (r, rest) =>
      let (r, outOfRange) := f.round r
      (r, if outOfRange then some .tooLarge else if rest.isEmpty then none else some .partly)

/-! ## Conversions -/

structure Spec where
  left : Bool := false
  plus : Bool := false
  space : Bool := false
  zero : Bool := false
  alternative : Bool := false
  /-- A flag for the grouping or the kind of digits, which changes nothing. -/
  grouped : Bool := false
  width : Nat := 0
  precision : Option Nat := none

def Spec.pad (s : Spec) (zeros : Bool) (sign body : Bytes) : Bytes :=
  let space := s.width - sign.length - body.length
  if s.left then sign ++ body ++ Bytes.fill 0x20 space
  else if zeros && s.zero then sign ++ Bytes.fill 0x30 space ++ body
  else Bytes.fill 0x20 space ++ sign ++ body

def Spec.sign (s : Spec) (negative : Bool) : Bytes :=
  if negative then [0x2d] else if s.plus then [0x2b] else if s.space then [0x20] else []

def Spec.text (s : Spec) (t : Bytes) : Bytes := s.pad false [] (match s.precision with
  | some p => t.take p
  | none => t)

/-- Digits with at least as many as the precision says; the value 0 has none at precision 0. -/
def Spec.digits (s : Spec) (ds : Bytes) : Bytes :=
  match s.precision with
  | none => ds
  | some p => if p = 0 && ds = [0x30] then [] else Bytes.fill 0x30 (p - ds.length) ++ ds

def Spec.integer (s : Spec) (conversion : Char) (v : Int) : Bytes :=
  let zeros := s.precision.isNone
  let unsigned : Nat := if v < 0 then (Nat.pow 2 64 + v).toNat else v.toNat
  let inBase (b : Nat) : Bytes := (Nat.toDigits b unsigned).map (·.toNat.toUInt8)
  match conversion with
  | 'o' =>
    let ds := s.digits (inBase 8)
    s.pad zeros [] (if s.alternative && ds.head? ≠ some 0x30 then 0x30 :: ds else ds)
  | 'x' => s.pad zeros (if s.alternative && v ≠ 0 then Bytes.ofString "0x" else []) (s.digits (inBase 16))
  | 'X' => s.pad zeros (if s.alternative && v ≠ 0 then Bytes.ofString "0X" else [])
      ((s.digits (inBase 16)).map Class.toUpper)
  | 'u' => s.pad zeros [] (s.digits (inBase 10))
  | _ => s.pad zeros (s.sign (v < 0)) (s.digits (Bytes.ofNat v.natAbs))

def Spec.real (s : Spec) (f : RealFormat) (conversion : Char) (r : Real) : Bytes :=
  let upper := conversion.isUpper
  let named (name : String) : Bytes :=
    { s with zero := false }.pad false (s.sign r.isNegative)
      (if upper then (Bytes.ofString name).map Class.toUpper else Bytes.ofString name)
  let p := s.precision.getD 6
  match r with
  | .infinite _ => named "inf"
  | .undefined _ => named "nan"
  | .finite negative n d =>
    let sign := s.sign negative
    match conversion.toLower with
    | 'e' => s.pad true sign (Real.scientific n d p upper s.alternative)
    | 'g' => s.pad true sign (Real.general n d p upper s.alternative)
    | 'a' =>
      let text (t : Bytes) := if upper then t.map Class.toUpper else t
      s.pad true (sign ++ text (Bytes.ofString "0x"))
        (text (Real.hexadecimal f n d s.precision s.alternative))
    | _ => s.pad true sign (Real.fixed n d p s.alternative)

/-! ## The format -/

structure State where
  words : List Bytes
  /-- A word has been asked for. -/
  used : Bool := false
  /-- Events, the latest first. -/
  events : List Event := []
  stopped : Bool := false

namespace State

def out (st : State) (t : Bytes) : State := { st with events := .out t :: st.events }

/-- The next word, if there is one. -/
def take (st : State) : Option Bytes × State :=
  match st.words with
  | [] => (none, { st with used := true })
  | w :: rest => (some w, { st with words := rest, used := true })

def note (st : State) (word : Bytes) : Option (Bytes → Complaint) → State
  | some c => { st with events := .complain (c word) :: st.events }
  | none => st

/-- The next word as a number; none is 0. -/
def takeInteger (d : Dialect) (unsigned : Bool) (st : State) : Int × State :=
  match st.take with
  | (none, st) => (0, st)
  | (some [], st) => if d.emptyIsZero then (0, st) else (0, st.note [] (some .notNumber))
  | (some w, st) =>
    let (v, c) := readInteger unsigned w
    (v, st.note w c)

end State

def flags (d : Dialect) (s : Spec) : Bytes → Spec × Bytes
  | [] => (s, [])
  | b :: rest =>
    if b ∉ d.flags then (s, b :: rest)
    else flags d (match Char.ofNat b.toNat with
      | '-' => { s with left := true }
      | '+' => { s with plus := true }
      | ' ' => { s with space := true }
      | '0' => { s with zero := true }
      | '#' => { s with alternative := true }
      | _ => { s with grouped := true }) rest

def Spec.suits (s : Spec) (conversion : Char) : Bool :=
  !(s.grouped && ['a', 'A', 'c', 'e', 'E', 'o', 's', 'x', 'X'].contains conversion) &&
  !(s.alternative && ['c', 'd', 'i', 's', 'u'].contains conversion) &&
  !(s.zero && ['c', 's'].contains conversion) && !(s.precision.isSome && conversion = 'c')

/-- A width or a precision: digits, or `*` for the next word. -/
def amount (d : Dialect) (st : State) (s : Bytes) : Option Int × State × Bytes :=
  match s with
  | 0x2a :: rest =>
    let (v, st) := st.takeInteger d false
    (some v, st, rest)
  | _ =>
    let ds := s.takeWhile Class.isDigit
    ((Bytes.toNat? ds).map Int.ofNat, st, s.drop ds.length)

def State.stopAt (st : State) (c : Complaint) : State :=
  { st with events := .complain c :: st.events, stopped := true }

/-- The output ends; no word is left over then. -/
def State.stop (st : State) : Stop → State
  | .asked => { st with words := [], stopped := true }
  | .wrong c => st.stopAt c

def convert (d : Dialect) (spec : Spec) (ch : Char) (st : State) : State :=
  if ['d', 'i'].contains ch then
    let (v, st) := st.takeInteger d false
    st.out (spec.integer ch v)
  else if ['o', 'u', 'x', 'X'].contains ch then
    let (v, st) := st.takeInteger d true
    st.out (spec.integer ch v)
  else if ch = 's' then
    let (word, st) := st.take
    st.out (spec.text (word.getD []))
  else if ch = 'c' then
    let (word, st) := st.take
    st.out (spec.text [((word.getD []).head?).getD 0])
  else if ch = 'q' then
    let (word, st) := st.take
    st.out (Quoted.asWord (word.getD []))
  else if ch = 'b' then
    let (word, st) := st.take
    let word := word.getD []
    let (t, stop) := resolve d.hex d.strict (word.length + 1) word
    let st := st.out (spec.text t)
    match stop with
    | some s => st.stop s
    | none => st
  else
    let zero : Real := .finite false 0 1
    match st.take with
    | (none, st) => st.out (spec.real d.format ch zero)
    | (some [], st) =>
      let st := if d.emptyIsZero then st else st.note [] (some .notNumber)
      st.out (spec.real d.format ch zero)
    | (some word, st) =>
      let (r, complaint) := readReal d.format word
      (st.note word complaint).out (spec.real d.format ch r)

/-- One conversion behind its `%`: the state after it and what follows. -/
def conversion (d : Dialect) (st : State) (s : Bytes) : State × Bytes :=
  let whole := s
  let (spec, s) := flags d {} s
  let (w, st, s) := amount d st s
  let spec := match w with
    | some w => { spec with width := w.natAbs, left := spec.left || w < 0 }
    | none => spec
  let (spec, st, s) := match s with
    | 0x2e :: rest =>
      let (p, st, rest) := amount d st rest
      ({ spec with precision := match p with
          | some p => if p < 0 then none else some p.toNat
          | none => some 0 }, st, rest)
    | _ => (spec, st, s)
  let s := s.dropWhile (· ∈ d.sizes)
  match s with
  | [] => (st.stopAt (.unfinished (0x25 :: whole)), [])
  | c :: rest =>
    let ch := Char.ofNat c.toNat
    let first : Bool := rest.length + 1 = whole.length
    let known : Bool := match ch with
      | 'b' => !d.strict || first
      | 'q' => d.strict && first
      | _ => "diouxXeEfFgGaAsc".contains ch && (!d.strict || spec.suits ch)
    if ch = '%' && first then (st.out [0x25], rest)
    else if !known then
      (st.stopAt (.badFormat (0x25 :: whole.take (whole.length - rest.length))), [])
    else
      let st := convert d spec ch st
      (st, if st.stopped then [] else rest)

/-- One pass over a format, of at most `n` bytes. -/
def pass (d : Dialect) : Nat → State → Bytes → State
  | 0, st, _ => st
  | _, st, [] => st
  | n + 1, st, b :: rest =>
    if st.stopped then st
    else if b = 0x25 then
      let (st, rest) := conversion d st rest
      pass d n st rest
    else if b = 0x5c then
      match formatEscape d rest with
      | .error s => st.stop s
      | .ok (t, rest) => pass d n (st.out t) rest
    else pass d n (st.out [b]) rest

/-- Passes over a format as long as words are left and asked for, at most `n`. -/
def passes (d : Dialect) (format : Bytes) : Nat → State → State
  | 0, st => st
  | n + 1, st =>
    let st := pass d (format.length + 1) { st with used := false } format
    if st.stopped || st.words.isEmpty || !st.used then st else passes d format n st

/-- The output of a format with words, and the words it has not asked for. -/
def run (d : Dialect) (format : Bytes) (words : List Bytes) : List Event × List Bytes :=
  let st := passes d format (words.length + 1) { words }
  (st.events.reverse, st.words)

end JobShell.Printf
