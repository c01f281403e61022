import JobShell.Text.Real
import JobShell.Text.Version

/-!
# The order of lines

Lines are compared by keys, each with its own flags, and, when all keys are equal, as whole lines.
-/

namespace JobShell.Sorting

structure Flags where
  numeric : Bool := false
  general : Bool := false
  human : Bool := false
  month : Bool := false
  version : Bool := false
  reverse : Bool := false
  fold : Bool := false
  dictionary : Bool := false
  printing : Bool := false
  blanksStart : Bool := false
  blanksEnd : Bool := false
  deriving DecidableEq

/-- The flags with one letter added; `none` for a letter that is no flag. -/
def Flags.add? (f : Flags) (letter : UInt8) (atEnd : Bool) : Option Flags :=
  match Char.ofNat letter.toNat with
  | 'n' => some { f with numeric := true }
  | 'g' => some { f with general := true }
  | 'h' => some { f with human := true }
  | 'M' => some { f with month := true }
  | 'V' => some { f with version := true }
  | 'r' => some { f with reverse := true }
  | 'f' => some { f with fold := true }
  | 'd' => some { f with dictionary := true }
  | 'i' => some { f with printing := true }
  | 'b' => some (if atEnd then { f with blanksEnd := true } else { f with blanksStart := true })
  | _ => none

def Flags.isPlain (f : Flags) : Bool := f = {}

/-- The letters of the flags but for the order and for blanks, sorted. -/
def Flags.letters (f : Flags) : String :=
  let given := [(f.dictionary, 'd'), (f.fold, 'f'), (f.general, 'g'), (f.human, 'h'),
    (f.printing && !f.dictionary, 'i'), (f.month, 'M'), (f.numeric, 'n'), (f.version, 'V')]
  String.ofList ((given.filter (·.1)).map (·.2))

/-- Whether the flags ask for two ways to compare at once. -/
def Flags.conflict (f : Flags) : Bool :=
  [f.numeric, f.general, f.human, f.month, f.version || f.dictionary || f.printing].count true > 1

/-- A key: the field and the byte it starts at, counted from 0, and where it ends. -/
structure Key where
  field : Nat := 0
  char : Nat := 0
  /-- The field and the byte after the last one; byte 0 is the end of the field. -/
  until_ : Option (Nat × Nat) := none
  flags : Flags := {}

/-- Where a field ends that starts at the front: behind leading blanks, before the next blank. -/
def blankField (s : Bytes) : Nat :=
  let lead := (s.takeWhile Class.isBlank).length
  lead + ((s.drop lead).takeWhile (!Class.isBlank ·)).length

/-- The offset of field `n`. -/
def fieldStartFrom (sep : Option UInt8) : Nat → Bytes → Nat
  | 0, _ => 0
  | n + 1, s =>
    match sep with
    | none =>
      let k := blankField s
      k + fieldStartFrom sep n (s.drop k)
    | some c =>
      let k := (s.takeWhile (· ≠ c)).length
      if k < s.length then k + 1 + fieldStartFrom sep n (s.drop (k + 1)) else s.length

/-- The offset of field `n`; no text has more fields than bytes, but for one. -/
def fieldStart (sep : Option UInt8) (n : Nat) (s : Bytes) : Nat := fieldStartFrom sep (min n (s.length + 1)) s

def fieldLength (sep : Option UInt8) (s : Bytes) : Nat :=
  match sep with
  | none => blankField s
  | some c => (s.takeWhile (· ≠ c)).length

def skipBlanks (skip : Bool) (s : Bytes) : Nat := if skip then (s.takeWhile Class.isBlank).length else 0

def Key.select (k : Key) (sep : Option UInt8) (line : Bytes) : Bytes :=
  let start := fieldStart sep k.field line
  let start := start + skipBlanks k.flags.blanksStart (line.drop start)
  let start := min line.length (start + k.char)
  let stop := match k.until_ with
    | none => line.length
    | some (field, char) =>
      let f := fieldStart sep field line
      if char = 0 then f + fieldLength sep (line.drop f)
      else min line.length (f + skipBlanks k.flags.blanksEnd (line.drop f) + char)
  (line.take stop).drop start

/-- A decimal number at the front: its sign, its digits before and after the point. -/
structure Decimal where
  negative : Bool
  whole : Bytes
  fraction : Bytes

def Decimal.of (s : Bytes) : Decimal :=
  let s := s.dropWhile Class.isBlank
  let (negative, s) := match s with
    | 0x2d :: rest => (true, rest)
    | s => (false, s)
  let whole := s.takeWhile Class.isDigit
  let rest := s.drop whole.length
  let fraction := match rest with
    | 0x2e :: f => f.takeWhile Class.isDigit
    | _ => []
  { negative, whole := whole.dropWhile (· = 0x30)
    fraction := (fraction.reverse.dropWhile (· = 0x30)).reverse }

def Decimal.isZero (d : Decimal) : Bool := d.whole.isEmpty && d.fraction.isEmpty

def Decimal.compareSize (a b : Decimal) : Ordering :=
  (compare a.whole.length b.whole.length).then
    ((Bytes.compare a.whole b.whole).then (Bytes.compare a.fraction b.fraction))

def Decimal.compare (a b : Decimal) : Ordering :=
  let neg (d : Decimal) := d.negative && !d.isZero
  match neg a, neg b with
  | true, false => .lt
  | false, true => .gt
  | false, false => a.compareSize b
  | true, true => b.compareSize a

def unitRank (s : Bytes) : Nat :=
  let s := s.dropWhile Class.isBlank
  let s := if s.head? = some 0x2d then s.drop 1 else s
  let s := s.dropWhile Class.isDigit
  let s := match s with
    | 0x2e :: f => f.dropWhile Class.isDigit
    | s => s
  match s with
  | 0x6b :: _ => 1
  | c :: _ => match (Bytes.ofString "KMGTPEZYRQ").idxOf? c with
    | some i => i + 1
    | none => 0
  | [] => 0

def compareHuman (a b : Bytes) : Ordering :=
  let x := Decimal.of a
  let y := Decimal.of b
  let sign (d : Decimal) : Int := if d.isZero then 0 else if d.negative then -1 else 1
  let rank (s : Bytes) (d : Decimal) : Int := sign d * (unitRank s : Int)
  (Ord.compare (sign x) (sign y)).then ((Ord.compare (rank a x) (rank b y)).then (x.compare y))

def months : List String :=
  ["JAN", "FEB", "MAR", "APR", "MAY", "JUN", "JUL", "AUG", "SEP", "OCT", "NOV", "DEC"]

def monthOf (s : Bytes) : Nat :=
  let s := ((s.dropWhile Class.isBlank).take 3).map Class.toUpper
  match months.findIdx? (Bytes.ofString · = s) with
  | some i => i + 1
  | none => 0

def compareGeneral (a b : Bytes) : Ordering :=
  let rank : Option (Real × Bytes) → Nat
    | none => 0
    | some (r, _) => if r.isDefined then 2 else 1
  let x := Real.front a
  let y := Real.front b
  (Ord.compare (rank x) (rank y)).then (match x, y with
    | some (x, _), some (y, _) => x.compare y
    | _, _ => .eq)

def Flags.translate (f : Flags) (s : Bytes) : Bytes :=
  let s := if f.dictionary then s.filter fun b => Class.isBlank b || Class.isAlnum b
    else if f.printing then s.filter Class.isPrint else s
  if f.fold then s.map Class.toUpper else s

def Flags.compare (f : Flags) (a b : Bytes) : Ordering :=
  let o :=
    if f.numeric then (Decimal.of a).compare (Decimal.of b)
    else if f.general then compareGeneral a b
    else if f.human then compareHuman a b
    else if f.month then Ord.compare (monthOf a) (monthOf b)
    else if f.version then Version.compare (f.translate a) (f.translate b)
    else Bytes.compare (f.translate a) (f.translate b)
  if f.reverse then o.swap else o

structure Order where
  keys : List Key := []
  separator : Option UInt8 := none
  flags : Flags := {}
  stable : Bool := false
  unique : Bool := false

namespace Order

def compareKeys (o : Order) (a b : Bytes) : Ordering :=
  if o.keys.isEmpty then
    if { o.flags with reverse := false, blanksStart := false, blanksEnd := false : Flags }.isPlain
        && !o.flags.blanksStart then .eq
    else
      let k : Key := { flags := o.flags }
      o.flags.compare (k.select none a) (k.select none b)
  else o.keys.foldl (fun r k =>
    r.then (k.flags.compare (k.select o.separator a) (k.select o.separator b))) .eq

def hasKeys (o : Order) : Bool :=
  !o.keys.isEmpty || o.flags.blanksStart ||
    !{ o.flags with reverse := false, blanksStart := false, blanksEnd := false : Flags }.isPlain

def compare (o : Order) (a b : Bytes) : Ordering :=
  let last := if o.flags.reverse then (Bytes.compare a b).swap else Bytes.compare a b
  if o.hasKeys then
    match o.compareKeys a b with
    | .eq => if o.stable || o.unique then .eq else last
    | r => r
  else last

end Order

end JobShell.Sorting
