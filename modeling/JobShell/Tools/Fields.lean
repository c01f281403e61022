import JobShell.Text.Amount
import JobShell.Text.Regex
import JobShell.Tools.Arguments

/-!
# Utilities that work on the fields of lines

`cut`, `paste` and `nl`.
-/

namespace JobShell.Fields

open Util

/-- Opens each operand in turn and gives it to `body`. -/
def eachOperand (operands : List Bytes) (body : Bytes → Nat → Util Unit) : Util Unit := do
  for operand in if operands.isEmpty then [dash] else operands do
    match ← openOperand operand with
    | .error e => warnFile operand e
    | .ok fd =>
      body operand fd
      closeOperand fd

/-- Gives the lines of a file to `body`; a failed read is told. -/
def linesOfFile {σ : Type} (operand : Bytes) (fd : Nat) (s : σ) (body : σ → Bytes → Util σ)
    (mark : UInt8 := Bytes.newline) : Util σ := do
  let (s, ending) ← eachLine fd s (fun s line _ => return .next (← body s line)) 4096 mark
  match ending with
  | .failed e => warnFile operand e
  | _ => pure ()
  return s

/-! ## cut -/

/-- A range of positions, counted from 1; without an end it is open. -/
structure Range where
  first : Nat
  last : Option Nat
  deriving Repr

def Range.contains (r : Range) (n : Nat) : Bool := r.first ≤ n && (r.last.all (n ≤ ·))

inductive RangeError where
  | zero
  | decreasing
  | noEnds
  | twoDashes
  | tooLarge (digits : Bytes)
  | invalid (text : Bytes)

def RangeError.message (fields : Bool) : RangeError → Bytes
  | zero => Bytes.ofString (if fields then "fields are numbered from 1"
      else "byte/character positions are numbered from 1")
  | decreasing => Bytes.ofString "invalid decreasing range"
  | noEnds => Bytes.ofString "invalid range with no endpoint: -"
  | twoDashes => Bytes.ofString (if fields then "invalid field range"
      else "invalid byte or character range")
  | tooLarge digits =>
    Bytes.ofString (if fields then "field number " else "byte/character offset ") ++
      Quoted.plain digits ++ Bytes.ofString " is too large"
  | invalid text =>
    Bytes.ofString (if fields then "invalid field value " else "invalid byte/character position ") ++
      Quoted.plain text

/-- A number at the front of a list, if there is one. -/
def numberFront (s : Bytes) : Except RangeError (Option Nat × Bytes) :=
  let digits := s.takeWhile Class.isDigit
  let n := Bytes.toNat? digits
  if n.any (· ≥ Amount.limit - 1) then .error (.tooLarge digits) else .ok (n, s.drop digits.length)

/-- Whether a text starts behind the end of a range. -/
def endsRange (s : Bytes) : Bool := s.head?.all fun b => b = 0x2c || Class.isBlank b

/-- The range at the front of a list, and what follows it. -/
def rangeFront (s : Bytes) : Except RangeError (Range × Bytes) := do
  let (first, rest) ← numberFront s
  match rest with
  | 0x2d :: rest =>
    if first = some 0 then .error .zero
    let (last, rest) ← numberFront rest
    if rest.head? = some 0x2d then .error .twoDashes
    else if !endsRange rest then .error (.invalid rest)
    else match first, last with
      | none, none => .error .noEnds
      | _, some last =>
        let first := first.getD 1
        if last < first then .error .decreasing else return ({ first, last := some last }, rest)
      | _, none => return ({ first := first.getD 1, last := none }, rest)
  | _ =>
    if !endsRange rest then .error (.invalid rest)
    else match first with
      | none | some 0 => .error .zero
      | some n => return ({ first := n, last := some n }, rest)

/-- The ranges of a list, separated by commas or blanks, at most `n`. -/
def rangesFrom : Nat → Bytes → Except RangeError (List Range)
  | 0, _ => .ok []
  | n + 1, s => do
    let (r, rest) ← rangeFront s
    match rest with
    | [] => return [r]
    | _ :: rest => return r :: (← rangesFrom n rest)

def parseRanges (s : Bytes) : Except RangeError (List Range) := rangesFrom (s.length + 1) s

def cutTable : OptionTable :=
  .of "b:c:d:f:nsz"
    [("bytes", .required, "b"), ("characters", .required, "c"), ("fields", .required, "f"),
     ("delimiter", .required, "d"), ("only-delimited", .none, "s"),
     ("output-delimiter", .required, "output"), ("complement", .none, "complement"),
     ("zero-terminated", .none, "z")]

/-- Elements at the positions that `keep` selects, counted from `n`. -/
def selectFrom {α : Type} (keep : Nat → Bool) (n : Nat) (l : List α) : List α :=
  ((l.zipIdx n).filter (keep ·.2)).map (·.1)

/-- The bytes a list selects, with `sep` between runs that do not touch, when it is given. -/
def selectBytes (keep : Nat → Bool) (starts : Nat → Bool) (sep : Option Bytes) (line : Bytes) : Bytes :=
  match sep with
  | none => selectFrom keep 1 line
  | some sep => ((line.zipIdx 1).foldl (fun (out, any) (b, n) =>
      if keep n then
        let out := if any && (!keep (n - 1) || starts n) then sep.reverse ++ out else out
        (b :: out, true)
      else (out, any)) (([] : Bytes), false)).1.reverse

def cut (args : List Bytes) : Util UInt8 := do
  let a ← arguments cutTable args
  let lists := a.options.filter fun o => ["b", "c", "f"].contains o.1
  let delimiter ← match a.value? "d" with
    | none => pure 0x09
    | some [] => pure 0
    | some [c] => pure c
    | some _ => misuseString "the delimiter must be a single character"
  let (key, list) ← match lists with
    | [] => misuseString "you must specify a list of bytes, characters, or fields"
    | [(k, v)] => pure (k, v.getD [])
    | _ => misuseString "only one list may be specified"
  let fields := key = "f"
  if !fields && a.has "d" then
    misuseString "an input delimiter may be specified only when operating on fields"
  if !fields && a.has "s" then
    misuse (Bytes.ofString "suppressing non-delimited lines makes sense\n\tonly when operating on fields")
  let ranges ← match parseRanges list with
    | .ok rs => pure rs
    | .error e => misuse (e.message fields)
  let inside (n : Nat) := ranges.any (·.contains n)
  let keep (n : Nat) : Bool := if a.has "complement" then !inside n else inside n
  let starts (n : Nat) : Bool := !a.has "complement" &&
    ranges.any (·.first = n) && !ranges.any fun r => r.first < n && r.contains n
  let output := (a.value? "output").getD [delimiter]
  let mark : UInt8 := if a.has "z" then 0 else Bytes.newline
  let transform (line : Bytes) : Option Bytes :=
    if fields then
      if delimiter ∈ line then
        some (Bytes.join output (selectFrom keep 1 (Bytes.split (· == delimiter) line)))
      else if a.has "s" then none else some line
    else some (selectBytes keep starts (a.value? "output") line)
  eachOperand a.operands fun operand fd =>
    linesOfFile operand fd () (fun _ line => match transform line with
      | some out => put (out ++ [mark])
      | none => pure ()) mark
  return (← get).status

/-! ## paste -/

def pasteTable : OptionTable :=
  .of "d:sz" [("delimiters", .required, "d"), ("serial", .none, "s"), ("zero-terminated", .none, "z")]

/-- The delimiters of a list; `\0` is the empty one. -/
def delimiterList : Bytes → List Bytes
  | [] => []
  | 0x5c :: c :: rest =>
    (match Char.ofNat c.toNat with
      | '0' => []
      | 'n' => [0x0a]
      | 't' => [0x09]
      | 'b' => [0x08]
      | 'f' => [0x0c]
      | 'r' => [0x0d]
      | 'v' => [0x0b]
      | _ => [c]) :: delimiterList rest
  | b :: rest => [b] :: delimiterList rest

/-- The delimiter behind column `n`. -/
def delimiterAt (ds : List Bytes) (n : Nat) : Bytes := (ds[n % ds.length]?).getD []

def interleave (ds : List Bytes) (texts : List Bytes) : Bytes :=
  ((texts.zipIdx).map fun (t, i) => if i = 0 then t else delimiterAt ds (i - 1) ++ t).flatten

/-- Rows of the columns side by side, as long as one of them has lines; at most `n`. -/
def rows (ds : List Bytes) : Nat → List (List Bytes) → List Bytes
  | 0, _ => []
  | n + 1, columns =>
    if columns.all (·.isEmpty) then []
    else interleave ds (columns.map fun c => c.head?.getD []) :: rows ds n (columns.map (·.drop 1))

def deal (lines : List Bytes) (k i : Nat) : List Bytes :=
  ((lines.zipIdx).filter (·.2 % k = i)).map (·.1)

/-- Whether a list of delimiters ends with a backslash that stands before nothing. -/
def endsWithBackslash (d : Bytes) : Bool := (d.reverse.takeWhile (· = 0x5c)).length % 2 = 1

/-- The lines of an open operand; a failed read is told. -/
def linesOfOpen (mark : UInt8) (operand : Bytes) (fd : Nat) : Util (List Bytes) := do
  let (text, failure) ← readAll fd
  closeOperand fd
  match failure with
  | some e => warnFile operand e
  | none => pure ()
  return linesOf text mark

def pasteSerial (ds : List Bytes) (mark : UInt8) (operands : List Bytes) : Util Unit := do
  for operand in operands do
    match ← openOperand operand with
    | .error e => warnFile operand e
    | .ok fd => put (interleave ds (← linesOfOpen mark operand fd) ++ [mark])

/-- All files side by side; those that are standard input share its lines. -/
def pasteParallel (ds : List Bytes) (mark : UInt8) (operands : List Bytes) : Util Unit := do
  let mut opened : List (Bytes × Nat) := []
  for operand in operands do
    match ← openOperand operand with
    | .error e => fail (because (Quoted.needed operand) e)
    | .ok fd => opened := opened ++ [(operand, fd)]
  let shared := operands.count dash
  let mut standard : Option (List Bytes) := none
  let mut columns : List (List Bytes) := []
  let mut turn := 0
  for (operand, fd) in opened do
    if operand = dash then
      let lines ← match standard with
        | some lines => pure lines
        | none => linesOfOpen mark operand fd
      standard := some lines
      columns := columns ++ [deal lines shared turn]
      turn := turn + 1
    else columns := columns ++ [← linesOfOpen mark operand fd]
  put (joinLines (rows ds ((columns.map (·.length)).foldl max 0) columns) mark)

def paste (args : List Bytes) : Util UInt8 := do
  let a ← arguments pasteTable args
  let ds ← match a.value? "d" with
    | none => pure [[0x09]]
    | some [] => pure [[]]
    | some d =>
      if endsWithBackslash d then
        fail (Bytes.ofString "delimiter list ends with an unescaped backslash: " ++ Quoted.plain d)
      else pure (delimiterList d)
  let operands := if a.operands.isEmpty then [dash] else a.operands
  let mark : UInt8 := if a.has "z" then 0 else Bytes.newline
  if a.has "s" then pasteSerial ds mark operands else pasteParallel ds mark operands
  return (← get).status

/-! ## nl -/

def nlTable : OptionTable :=
  .of "b:d:f:h:i:l:n:ps:v:w:"
    [("body-numbering", .required, "b"), ("line-increment", .required, "i"),
     ("number-format", .required, "n"), ("number-separator", .required, "s"),
     ("starting-line-number", .required, "v"), ("number-width", .required, "w"),
     ("header-numbering", .required, "h"), ("footer-numbering", .required, "f"),
     ("section-delimiter", .required, "d"), ("join-blank-lines", .required, "l"),
     ("no-renumber", .none, "p")]

def numberField (format : Bytes) (width : Nat) (n : Int) : Bytes :=
  let digits := Bytes.ofInt n
  let space := width - digits.length
  if format = Bytes.ofString "ln" then digits ++ Bytes.fill 0x20 space
  else if format = Bytes.ofString "rz" then
    if n < 0 then 0x2d :: Bytes.fill 0x30 space ++ digits.drop 1 else Bytes.fill 0x30 space ++ digits
  else Bytes.fill 0x20 space ++ digits

inductive Numbering where
  | all
  | nonempty
  | none
  | matching (r : Regex)

inductive PagePart where
  | header
  | body
  | footer
  deriving DecidableEq

/-- How `nl` numbers lines. -/
structure NumberStyle where
  numbering : PagePart → Numbering
  /-- The text that, once, twice or three times, starts a part of a page. -/
  delimiter : Bytes
  start : Int
  increment : Int
  width : Nat
  format : Bytes
  separator : Bytes
  /-- Of so many empty lines in a row one gets a number. -/
  joined : Nat
  /-- Pages do not start the numbers anew. -/
  continued : Bool

structure NumberState where
  next : Int
  part : PagePart := .body
  /-- Empty lines without a number just passed. -/
  empty : Nat := 0

/-- The largest line number. -/
def lastNumber : Int := (Nat.pow 2 63 : Int) - 1

namespace NumberStyle

def part? (s : NumberStyle) (line : Bytes) : Option PagePart :=
  let times (n : Nat) : Bytes := (List.replicate n s.delimiter).flatten
  if s.delimiter.isEmpty then none
  else if line = times 3 then some .header
  else if line = times 2 then some .body
  else if line = times 1 then some .footer
  else none

/-- Whether a line gets a number, and how many empty lines without one it follows then. -/
def counts (s : NumberStyle) (st : NumberState) (line : Bytes) : Bool × Nat :=
  match s.numbering st.part with
  | .all =>
    if s.joined ≤ 1 then (true, 0)
    else if !line.isEmpty || st.empty + 1 = s.joined then (true, 0) else (false, st.empty + 1)
  | .nonempty => (!line.isEmpty, st.empty)
  | .none => (false, st.empty)
  | .matching r => ((r.search { text := line.toArray }).isSome, st.empty)

def line (s : NumberStyle) (st : NumberState) (line : Bytes) : Util NumberState := do
  match s.part? line with
  | some part =>
    putLine []
    return { st with part, next := if s.continued then st.next else s.start }
  | none =>
    let (numbered, empty) := s.counts st line
    if numbered then
      if st.next > lastNumber then failString "line number overflow"
      putLine (numberField s.format s.width st.next ++ s.separator ++ line)
      return { st with next := st.next + s.increment, empty }
    else
      putLine (Bytes.fill 0x20 (s.width + s.separator.length) ++ line)
      return { st with empty }

end NumberStyle

/-- The numbering that a letter, or `p` and an expression, stands for. -/
def numberingOf (part : String) (s : Bytes) : Util (Option Numbering) :=
  match s with
  | 0x61 :: _ => return some .all
  | 0x74 :: _ => return some .nonempty
  | 0x6e :: _ => return some .none
  | 0x70 :: text =>
    match Regex.parse false false text with
    | .ok r => return some (.matching r)
    | .error e => failString e.message
  | _ => do
    complain (Bytes.ofString s!"invalid {part} numbering style: " ++ Quoted.plain s)
    return none

def integerOf (s : Bytes) (what : String) (least most : Int) : Util Int :=
  let text := Bytes.ofString s!"invalid {what}: " ++ Quoted.plain s
  match Bytes.toInt? (s.dropWhile Class.isSpace) with
  | none => fail text
  | some n =>
    if least ≤ n && n ≤ most then return n
    else if n > (Nat.pow 2 30 : Int) - 1 || n < -(Nat.pow 2 30 : Int) then fail (because text .EOVERFLOW)
    else fail (because text .ERANGE)

/-- The style that the options ask for; none if a complaint was made. -/
def numberStyleOf (a : Arguments) : Util (Option NumberStyle) := do
  let mut header : Option Numbering := some .none
  let mut body : Option Numbering := some .nonempty
  let mut footer : Option Numbering := some .none
  let mut s : NumberStyle :=
    { numbering := fun _ => .none, delimiter := Bytes.ofString "\\:", start := 1, increment := 1
      width := 6, format := Bytes.ofString "rn", separator := [0x09], joined := 1
      continued := a.has "p" }
  let mut fine := true
  for (key, value) in a.options do
    let text := value.getD []
    match key with
    | "h" => header ← numberingOf "header" text
    | "b" => body ← numberingOf "body" text
    | "f" => footer ← numberingOf "footer" text
    | "v" => s := { s with start := ← integerOf text "starting line number" (-(Nat.pow 2 63 : Int)) lastNumber }
    | "i" => s := { s with increment := ← integerOf text "line number increment" (-(Nat.pow 2 63 : Int)) lastNumber }
    | "l" =>
      s := { s with joined := (← integerOf text "line number of blank lines" 1 lastNumber).toNat }
    | "w" => s := { s with width := (← integerOf text "line number field width" 1 ((Nat.pow 2 31 : Int) - 1)).toNat }
    | "s" => s := { s with separator := text }
    | "n" =>
      if ["ln", "rn", "rz"].any (Bytes.ofString · = text) then s := { s with format := text }
      else
        complain (Bytes.ofString "invalid line numbering format: " ++ Quoted.plain text)
        fine := false
    | "d" => s := { s with delimiter := if text.length = 1 then text ++ [0x3a] else text }
    | _ => pure ()
  match fine, header, body, footer with
  | true, some h, some b, some f =>
    return some { s with numbering := fun | .header => h | .body => b | .footer => f }
  | _, _, _, _ => return none

def nl (args : List Bytes) : Util UInt8 := do
  let a ← arguments nlTable args
  match ← numberStyleOf a with
  | none => hint
  | some style =>
    let mut st : NumberState := { next := style.start }
    for operand in if a.operands.isEmpty then [dash] else a.operands do
      match ← openOperand operand with
      | .error e => warnFile operand e
      | .ok fd =>
        st ← linesOfFile operand fd st style.line
        closeOperand fd
    return (← get).status

end JobShell.Fields
