import JobShell.Text.Class

/-!
# Regular expressions

`Regex` is the syntax, `Regex.parse` reads its two written forms, and `Regex.search` finds the
leftmost match and of those the longest. In the basic form groups, intervals and alternatives are
written with a backslash, in the extended form without.
-/

namespace JobShell

inductive Anchor where
  | start
  | finish
  /-- The start of the text even where newlines start lines. -/
  | textStart
  | textEnd
  | wordStart
  | wordEnd
  | wordEdge
  | inWord
  deriving DecidableEq, Repr

inductive Regex where
  | empty
  | byte (b : UInt8)
  | any
  | set (member : UInt8 → Bool)
  | cat (r s : Regex)
  | alt (r s : Regex)
  /-- Between `lo` and `hi` times. -/
  | times (r : Regex) (lo : Nat) (hi : Option Nat)
  | group (n : Nat) (r : Regex)
  /-- What a group has matched, again. -/
  | back (n : Nat)
  | anchor (a : Anchor)

namespace Regex

/-! ## Matching -/

/-- What groups have matched: start and end by number. -/
abbrev Groups := List (Nat × Nat × Nat)

def Groups.get? (g : Groups) (n : Nat) : Option (Nat × Nat) := (g.find? (·.1 = n)).map (·.2)

structure Subject where
  text : Array UInt8
  /-- Letters match in both cases. -/
  fold : Bool := false
  /-- Newlines start and end lines inside the text. -/
  multiline : Bool := false

namespace Subject

variable (s : Subject)

def at_ (i : Nat) : Option UInt8 := s.text[i]?

def same (a b : UInt8) : Bool := a = b || (s.fold && Class.toLower a = Class.toLower b)

def isWordAt (i : Nat) : Bool := (s.at_ i).any Class.isWord

/-- Whether a word byte stands before position `i`. -/
def isWordBefore (i : Nat) : Bool := i > 0 && s.isWordAt (i - 1)

def holds (i : Nat) : Anchor → Bool
  | .start => i = 0 || (s.multiline && s.at_ (i - 1) = some Bytes.newline)
  | .finish => i = s.text.size || (s.multiline && s.at_ i = some Bytes.newline)
  | .textStart => i = 0
  | .textEnd => i = s.text.size
  | .wordStart => !s.isWordBefore i && s.isWordAt i
  | .wordEnd => s.isWordBefore i && !s.isWordAt i
  | .wordEdge => s.isWordBefore i != s.isWordAt i
  | .inWord => s.isWordBefore i == s.isWordAt i

/-- Whether the `n` bytes at `i` are those at `j`. -/
def sameSpan (i j : Nat) : Nat → Bool
  | 0 => true
  | n + 1 =>
    match s.at_ i, s.at_ j with
    | some a, some b => s.same a b && sameSpan (i + 1) (j + 1) n
    | _, _ => false

end Subject

abbrev Match := Nat × Groups

/-- The longer of two matches, the first if they end together. -/
def longer (a : Option Match) (b : Unit → Option Match) : Option Match :=
  match a, b () with
  | some x, some y => if y.1 > x.1 then some y else some x
  | some x, none => some x
  | none, y => y

/-- Tries to match from a position and hands each way to match to what follows. -/
abbrev Matcher := Nat → Groups → (Nat → Groups → Option Match) → Option Match

/-- `step` repeated: more often first, then as often as now if that is enough. -/
def repeated (step : Matcher) (lo : Nat) (hi : Option Nat) : Nat → Nat → Matcher
  | 0, _ => fun _ _ _ => none
  | fuel + 1, count => fun i g k =>
    let more : Option Match :=
      if hi.all (count < ·) then
        step i g fun j g => if j = i && count ≥ lo then none else repeated step lo hi fuel (count + 1) j g k
      else none
    if count ≥ lo then longer more fun _ => k i g else more

def matcher (s : Subject) : Regex → Matcher
  | empty => fun i g k => k i g
  | byte b => fun i g k => match s.at_ i with
    | some c => if s.same b c then k (i + 1) g else none
    | none => none
  | any => fun i g k => if i < s.text.size then k (i + 1) g else none
  | set member => fun i g k => match s.at_ i with
    | some c => if member c || (s.fold && (member (Class.toLower c) || member (Class.toUpper c)))
      then k (i + 1) g else none
    | none => none
  | cat r t => fun i g k => matcher s r i g fun j g => matcher s t j g k
  | alt r t => fun i g k => longer (matcher s r i g k) fun _ => matcher s t i g k
  | times r lo hi => fun i g k =>
    repeated (matcher s r) lo hi (s.text.size - i + lo + 2) 0 i g k
  | group n r => fun i g k => matcher s r i g fun j g => k j ((n, i, j) :: g)
  | back n => fun i g k => match g.get? n with
    | some (a, b) => if s.sameSpan i a (b - a) then k (i + (b - a)) g else none
    | none => none
  | anchor a => fun i g k => if s.holds i a then k i g else none

/-- A match in a text: where it starts and ends, and its groups. -/
structure Found where
  start : Nat
  stop : Nat
  groups : Groups

/-- The longest match that starts at a position and that `accept` takes. -/
def matchAt (r : Regex) (s : Subject) (accept : Nat → Nat → Bool) (i : Nat) : Option Found :=
  (matcher s r i [] fun j g => if accept i j then some (j, g) else none).map fun (j, g) =>
    { start := i, stop := j, groups := g }

/-- The first match that starts at one of `n` positions from `i` on. -/
def searchFrom (r : Regex) (s : Subject) (accept : Nat → Nat → Bool) : Nat → Nat → Option Found
  | 0, _ => none
  | n + 1, i =>
    match r.matchAt s accept i with
    | some f => some f
    | none => searchFrom r s accept n (i + 1)

/-- The leftmost longest match from position `i` on, of those that `accept` takes by their start and
end. -/
def search (r : Regex) (s : Subject) (i : Nat := 0) (accept : Nat → Nat → Bool := fun _ _ => true) :
    Option Found :=
  searchFrom r s accept (s.text.size + 1 - i) i

/-! ## The written forms -/

inductive ParseError where
  /-- Nothing at all behind the bracket that opens a set. -/
  | unfinished
  | tooBig
  | unmatchedOpen
  | unmatchedClose
  | unmatchedBracket
  | unmatchedBrace
  | badInterval
  | badRepeat
  | badRange
  | badClass
  | badBack
  | trailingBackslash
  /-- `[:space:]` in place of `[[:space:]]`. -/
  | bareClass
  deriving DecidableEq, Repr

def ParseError.message : ParseError → String
  | unfinished => "Invalid regular expression"
  | tooBig => "Regular expression too big"
  | unmatchedOpen => "Unmatched ( or \\("
  | unmatchedClose => "Unmatched ) or \\)"
  | unmatchedBracket => "Unmatched [, [^, [:, [., or [="
  | unmatchedBrace => "Unmatched \\\x7b"
  | badInterval => "Invalid content of \\\x7b\\\x7d"
  | badRepeat => "Invalid preceding regular expression"
  | badRange => "Invalid range end"
  | badClass => "Invalid character class name"
  | badBack => "Invalid back reference"
  | trailingBackslash => "Trailing backslash"
  | bareClass => "character class syntax is [[:space:]], not [:space:]"

/-- An item of a bracket expression, and what follows it. -/
inductive Item where
  | class_ (member : UInt8 → Bool)
  | byte (b : UInt8)

/-- Splits at the first `mark]`. -/
def untilMark (mark : UInt8) : Bytes → Option (Bytes × Bytes)
  | b :: 0x5d :: rest => if b = mark then some ([], rest)
    else (untilMark mark (0x5d :: rest)).map fun (t, r) => (b :: t, r)
  | b :: rest => (untilMark mark rest).map fun (t, r) => (b :: t, r)
  | [] => none

def item : Bytes → Except ParseError (Item × Bytes)
  | 0x5b :: 0x3a :: rest =>
    match untilMark 0x3a rest with
    | some (name, rest) => match Class.ofName? name with
      | some p => .ok (.class_ p, rest)
      | none => .error .badClass
    | none => .error .unmatchedBracket
  | 0x5b :: 0x3d :: rest =>
    match untilMark 0x3d rest with
    | some ([c], rest) => .ok (.byte c, rest)
    | _ => .error .unmatchedBracket
  | 0x5b :: 0x2e :: rest =>
    match untilMark 0x2e rest with
    | some ([c], rest) => .ok (.byte c, rest)
    | _ => .error .unmatchedBracket
  | b :: rest => .ok (.byte b, rest)
  | [] => .error .unmatchedBracket

/-- The items of a bracket expression up to its `]`, at most `n`; the first may be a `]`. -/
def items (first : Bool) : Nat → Bytes → Except ParseError ((UInt8 → Bool) × Bytes)
  | 0, _ => .error .unmatchedBracket
  | _, [] => .error (if first then .unfinished else .unmatchedBracket)
  | n + 1, s@(b :: rest) => do
    if b = 0x5d && !first then return (fun _ => false, rest)
    match ← item s with
    | (.class_ p, rest) =>
      let (more, rest) ← items false n rest
      return (fun c => p c || more c, rest)
    | (.byte lo, 0x2d :: tail@(hi :: _)) =>
      if hi = 0x5d then
        let (more, rest) ← items false n (0x2d :: tail)
        return (fun c => c = lo || more c, rest)
      else match ← item tail with
        | (.byte hi, rest) =>
          if hi < lo then .error .badRange
          let (more, rest) ← items false n rest
          return (fun c => (lo ≤ c && c ≤ hi) || more c, rest)
        | (.class_ _, _) => .error .badRange
    | (.byte c, rest) =>
      let (more, rest) ← items false n rest
      return (fun d => d = c || more d, rest)

/-- A bracket expression behind its `[`. -/
def bracket (s : Bytes) : Except ParseError (Regex × Bytes) :=
  match s with
  | 0x5e :: rest => do
    let (p, rest) ← items true (rest.length + 1) rest
    return (.set fun c => !p c, rest)
  | _ => do
    let (p, rest) ← items true (s.length + 1) s
    let isBare := s.head? = some 0x3a && (s.take (s.length - rest.length - 1)).getLast? = some 0x3a
      && s.length - rest.length > 2
    if isBare then .error .bareClass
    return (.set p, rest)

inductive Token where
  | byte (b : UInt8)
  | any
  | open_
  | close
  | bar
  | star
  | plus
  | question
  | brace
  | bracket
  | start
  | finish
  | back (n : Nat)
  | anchor (a : Anchor)
  | set (member : UInt8 → Bool)

/-- The token that `c` behind a backslash is in both forms. -/
def escaped (c : UInt8) : Token :=
  match Char.ofNat c.toNat with
  | 'w' => .set Class.isWord
  | 'W' => .set (!Class.isWord ·)
  | 's' => .set Class.isSpace
  | 'S' => .set (!Class.isSpace ·)
  | 'b' => .anchor .wordEdge
  | 'B' => .anchor .inWord
  | '<' => .anchor .wordStart
  | '>' => .anchor .wordEnd
  | '\x60' => .anchor .textStart
  | '\'' => .anchor .textEnd
  | _ => if 0x31 ≤ c && c ≤ 0x39 then .back (c.toNat - 0x30) else .byte c

/-- The operators that stand with a backslash in the basic form and without in the extended. -/
def operator? (c : UInt8) : Option Token :=
  match Char.ofNat c.toNat with
  | '(' => some .open_
  | ')' => some .close
  | '|' => some .bar
  | '+' => some .plus
  | '?' => some .question
  | '\x7b' => some .brace
  | _ => none

def token (extended : Bool) : Bytes → Except ParseError (Token × Bytes)
  | [] => .error .trailingBackslash
  | [0x5c] => .error .trailingBackslash
  | 0x5c :: c :: rest =>
    match extended, operator? c with
    | false, some t => .ok (t, rest)
    | _, _ => .ok (escaped c, rest)
  | c :: rest =>
    let t : Token := match Char.ofNat c.toNat with
      | '.' => .any
      | '*' => .star
      | '[' => .bracket
      | '^' => .start
      | '$' => .finish
      | _ => match extended, operator? c with
        | true, some t => t
        | _, _ => .byte c
    .ok (t, rest)

/-- The bounds of an interval behind its brace, and what follows it. -/
def interval? (extended : Bool) (s : Bytes) : Option (Nat × Option Nat × Bytes) :=
  let low := s.takeWhile Class.isDigit
  let rest := s.drop low.length
  let close (lo : Nat) (hi : Option Nat) (rest : Bytes) : Option (Nat × Option Nat × Bytes) :=
    match extended, rest with
    | true, 0x7d :: rest => some (lo, hi, rest)
    | false, 0x5c :: 0x7d :: rest => some (lo, hi, rest)
    | _, _ => none
  match rest with
  | 0x2c :: more =>
    let high := more.takeWhile Class.isDigit
    let lo := (Bytes.toNat? low).getD 0
    close lo (Bytes.toNat? high) (more.drop high.length)
  | _ => (Bytes.toNat? low).bind fun n => close n (some n) rest

structure Reader where
  extended : Bool
  /-- A repetition of nothing is passed over, or stands for itself, where it is otherwise refused. -/
  lenient : Bool
  /-- Groups opened so far. -/
  groups : Nat := 0
  /-- Groups closed so far. -/
  closed : List Nat := []

def endsBranch (extended : Bool) (s : Bytes) : Bool :=
  match token extended s with
  | .ok (.close, _) => true
  | .ok (.bar, _) => true
  | _ => s.isEmpty

def startsRepeat (extended : Bool) (s : Bytes) : Bool :=
  match token extended s with
  | .ok (.star, _) | .ok (.plus, _) | .ok (.question, _) | .ok (.brace, _) => true
  | _ => false

/-- Repetitions behind an atom, at most `n`. A brace that opens no interval stands for itself in the
lenient extended form. -/
def repeats (extended lenient : Bool) : Nat → Regex → Bytes → Except ParseError (Regex × Bytes)
  | 0, r, s => .ok (r, s)
  | n + 1, r, s =>
    let go := repeats extended lenient n
    match token extended s with
    | .ok (.star, rest) => go (.times r 0 none) rest
    | .ok (.plus, rest) => go (.times r 1 none) rest
    | .ok (.question, rest) => go (.times r 0 (some 1)) rest
    | .ok (.brace, rest) =>
      match interval? extended rest with
      | some (lo, hi, rest) =>
        if lo > 32767 || hi.any (· > 32767) then .error .tooBig
        else if hi.any (· < lo) then .error .badInterval
        else go (.times r lo hi) rest
      | none =>
        if extended && lenient then .ok (r, s)
        else
          let close := if extended then [0x7d] else [0x5c, 0x7d]
          .error (if Bytes.contains rest close then .badInterval else .unmatchedBrace)
    | _ => .ok (r, s)

mutual

def alternatives (st : Reader) (depth : Nat) : Nat → Bytes → Except ParseError (Regex × Bytes × Reader)
  | 0, s => .ok (.empty, s, st)
  | n + 1, s => do
    let (r, s, st) ← branch st depth n true .empty s
    match token st.extended s with
    | .ok (.bar, rest) =>
      let (t, s, st) ← alternatives st depth n rest
      return (.alt r t, s, st)
    | _ => return (r, s, st)

/-- The atoms of one alternative; `first` says that none has been read. -/
def branch (st : Reader) (depth : Nat) : Nat → Bool → Regex → Bytes →
    Except ParseError (Regex × Bytes × Reader)
  | 0, _, r, s => .ok (r, s, st)
  | n + 1, first, r, s => do
    if s.isEmpty then return (r, s, st)
    let (t, rest) ← token st.extended s
    let more (atom : Regex) (rest : Bytes) (st : Reader) :
        Except ParseError (Regex × Bytes × Reader) := do
      let (atom, rest) ← repeats st.extended st.lenient n atom rest
      branch st depth n false (if first then atom else .cat r atom) rest
    match t with
    | .bar => return (r, s, st)
    | .close =>
      if depth > 0 then return (r, s, st)
      else if st.extended && st.lenient then more (.byte 0x29) rest st
      else .error .unmatchedClose
    | .open_ =>
      let k := st.groups + 1
      let (inner, rest, st) ← alternatives { st with groups := k } (depth + 1) n rest
      match token st.extended rest with
      | .ok (.close, rest) => more (.group k inner) rest { st with closed := k :: st.closed }
      | _ => .error .unmatchedOpen
    | .byte b => more (.byte b) rest st
    | .any => more .any rest st
    | .set p => more (.set p) rest st
    | .anchor a => more (.anchor a) rest st
    | .back k => if k ∈ st.closed then more (.back k) rest st else .error .badBack
    | .bracket =>
      let (chars, rest) ← bracket rest
      more chars rest st
    | .start =>
      if st.extended then
        if !st.lenient && startsRepeat true rest then .error .badRepeat
        more (.anchor .start) rest st
      else if first then
        -- A star behind the anchor stands for itself.
        match rest with
        | 0x2a :: rest => more (.cat (.anchor .start) (.byte 0x2a)) rest st
        | _ => branch st depth n false (.anchor .start) rest
      else more (.byte 0x5e) rest st
    | .finish =>
      if st.extended || endsBranch st.extended rest then more (.anchor .finish) rest st
      else more (.byte 0x24) rest st
    | .star => loose st depth n r 0x2a rest more
    | .plus => loose st depth n r 0x2b rest more
    | .question => loose st depth n r 0x3f rest more
    | .brace =>
      if !st.lenient then .error .badRepeat
      else match st.extended, interval? true rest with
        | true, some (_, _, rest) => passed st depth n r rest more
        | _, _ => more (.byte 0x7b) rest st

/-- A sign of repetition with nothing before it. -/
def loose (st : Reader) (depth : Nat) (n : Nat) (r : Regex) (sign : UInt8) (rest : Bytes)
    (more : Regex → Bytes → Reader → Except ParseError (Regex × Bytes × Reader)) :
    Except ParseError (Regex × Bytes × Reader) :=
  if !st.extended then more (.byte sign) rest st
  else if !st.lenient then .error .badRepeat
  else passed st depth n r rest more

/-- Goes on behind a repetition of nothing that is passed over. -/
def passed (st : Reader) (depth : Nat) (n : Nat) (r : Regex) (rest : Bytes)
    (more : Regex → Bytes → Reader → Except ParseError (Regex × Bytes × Reader)) :
    Except ParseError (Regex × Bytes × Reader) :=
  match token st.extended rest with
  | .ok (.close, rest) => more (.byte 0x29) rest st
  | _ => branch st depth n true r rest

end

def parse (extended lenient : Bool) (s : Bytes) : Except ParseError Regex := do
  let (r, rest, _) ← alternatives { extended, lenient } 0 (4 * s.length + 4) s
  if rest.isEmpty then return r else .error .unmatchedClose

/-- The signs of repetition with nothing before them, in the extended form of at most `n` bytes;
`start` says that an alternative starts here. -/
def looseFrom : Nat → Bool → Bytes → List String
  | 0, _, _ => []
  | _, _, [] => []
  | n + 1, start, b :: rest =>
    match Char.ofNat b.toNat with
    | '\\' => looseFrom n false rest.tail
    | '(' | '|' | '^' => looseFrom n true rest
    | '[' =>
      match bracket rest with
      | .ok (_, rest) => looseFrom n false rest
      | .error _ => []
    | '*' => if start then "*" :: looseFrom n start rest else looseFrom n start rest
    | '+' => if start then "+" :: looseFrom n start rest else looseFrom n start rest
    | '?' => if start then "?" :: looseFrom n start rest else looseFrom n start rest
    | '\x7b' =>
      match interval? true rest with
      | some (_, _, more) => if start then "\x7b...\x7d" :: looseFrom n start more else looseFrom n start more
      | none => looseFrom n false rest
    | _ => looseFrom n false rest

/-- The signs of repetition with nothing before them, in the extended form. -/
def looseRepetitions (s : Bytes) : List String := looseFrom s.length true s

def literal (s : Bytes) : Regex := s.foldr (fun b r => .cat (.byte b) r) .empty

end Regex

end JobShell
