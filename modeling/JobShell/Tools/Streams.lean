import JobShell.Text.Amount
import JobShell.Text.Regex
import JobShell.Tools.Arguments

/-!
# Utilities that show files

`cat`, `tac`, `head`, `tail`, `wc` and `tee`.
-/

namespace JobShell.Streams

open Util

/-! ## cat -/

structure CatStyle where
  number : Bool := false
  numberNonblank : Bool := false
  squeeze : Bool := false
  ends : Bool := false
  tabs : Bool := false
  visible : Bool := false

/-- Where the output of `cat` stands. -/
structure CatState where
  line : Nat := 0
  /-- The last bytes put out were a newline, or nothing has been put out. -/
  atStart : Bool := true
  /-- Blank lines just put out. -/
  blanks : Nat := 0
  /-- A carriage return that may belong to the end of a line. -/
  heldReturn : Bool := false

namespace CatStyle

def isPlain (s : CatStyle) : Bool :=
  !(s.number || s.numberNonblank || s.squeeze || s.ends || s.tabs || s.visible)

def visibleByte (b : UInt8) : Bytes :=
  let low (b : UInt8) : Bytes :=
    if b < 0x20 then [0x5e, b + 0x40] else if b = 0x7f then [0x5e, 0x3f] else [b]
  if b < 0x80 then low b else [0x4d, 0x2d] ++ low (b - 0x80)

def show_ (s : CatStyle) (b : UInt8) : Bytes :=
  if b = 0x09 then if s.tabs then [0x5e, 0x49] else [b]
  else if s.visible then visibleByte b
  else [b]

def numbered (n : Nat) : Bytes :=
  let digits := Bytes.ofNat n
  Bytes.fill 0x20 (6 - digits.length) ++ digits ++ [0x09]

/-- One byte: the state after it and what is put out for it. -/
def step (s : CatStyle) (st : CatState) (b : UInt8) : CatState × Bytes :=
  let held : Bytes :=
    if st.heldReturn then if b = Bytes.newline then [0x5e, 0x4d] else [0x0d] else []
  let st := { st with heldReturn := false }
  if b = Bytes.newline then
    let blank := st.atStart
    if blank && s.squeeze && st.blanks ≥ 1 then ({ st with blanks := st.blanks + 1 }, held)
    else
      let counts := s.number && !s.numberNonblank || s.numberNonblank && !blank
      let fresh := st.atStart && counts
      let st' := { st with
        line := if fresh then st.line + 1 else st.line
        atStart := true, blanks := if blank then st.blanks + 1 else 0 }
      (st', held ++ (if fresh then numbered (st.line + 1) else []) ++
        (if s.ends then [0x24] else []) ++ [b])
  else
    let fresh := st.atStart && (s.number || s.numberNonblank)
    let hold := b = 0x0d && s.ends && !s.visible
    let st' := { st with
      line := if fresh then st.line + 1 else st.line, atStart := false, blanks := 0, heldReturn := hold }
    (st', held ++ (if fresh then numbered (st.line + 1) else []) ++ if hold then [] else s.show_ b)

def steps (s : CatStyle) (st : CatState) (text : Bytes) : CatState × Bytes :=
  let (st, pieces) := text.foldl (fun (st, pieces) b =>
    let (st, piece) := s.step st b
    (st, piece :: pieces)) (st, ([] : List Bytes))
  (st, pieces.reverse.flatten)

end CatStyle

/-- Whether a file that is to be copied is the file the output goes to. -/
def feedsItself (fd : Nat) : Util Bool := do
  match ← call (.fstat fd), ← call (.fstat 1) with
  | .ok i, .ok o =>
    if i.kind = .file && o.kind = .file && i.ino = o.ino && i.ino ≠ 0 then
      match ← call (.seek fd 0 .current) with
      | .ok n => return n < i.size
      | .error _ => return false
    else return false
  | _, _ => return false

def catFile (style : CatStyle) (operand : Bytes) (fd : Nat) (st : CatState) : Util CatState :=
  iterate st fun st => do
    match ← read fd 131072 with
    | .ok [] => return .inr st
    | .ok text =>
      let (st, out) := if style.isPlain then (st, text) else style.steps st text
      emit out
      if (← get).lost.isSome then close 1
      return .inl st
    | .error e =>
      warnFile operand e
      return .inr st

def catTable : OptionTable :=
  .of "benstuvAET"
    [("number-nonblank", .none, "b"), ("number", .none, "n"), ("squeeze-blank", .none, "s"),
     ("show-nonprinting", .none, "v"), ("show-ends", .none, "E"), ("show-tabs", .none, "T"),
     ("show-all", .none, "A"), ("help", .none, "help"), ("version", .none, "version")]

def cat (args : List Bytes) : Util UInt8 := do
  let a ← arguments catTable args
  let style : CatStyle :=
    { number := a.has "n" || a.has "b", numberNonblank := a.has "b", squeeze := a.has "s"
      ends := a.has "A" || a.has "E" || a.has "e", tabs := a.has "A" || a.has "T" || a.has "t"
      visible := a.has "A" || a.has "e" || a.has "t" || a.has "v" }
  let operands := if a.operands.isEmpty then [dash] else a.operands
  let mut st : CatState := {}
  for operand in operands do
    match ← openOperand operand with
    | .error e => warnFile operand e
    | .ok fd =>
      if ← feedsItself fd then
        warn (Quoted.needed operand ++ Bytes.ofString ": input file is output file")
      else st ← catFile style operand fd st
      closeOperand fd
  if st.heldReturn then put [0x0d]
  return (← get).status

/-! ## tac -/

def tacTable : OptionTable :=
  .of "brs:" [("before", .none, "b"), ("regex", .none, "r"), ("separator", .required, "s")]

abbrev SeparatorSearch := Nat → Option (Nat × Nat)

/-- The last of the positions before `i` from which `ends` gives an end. -/
def lastStart (ends : Nat → Option Nat) : Nat → Option (Nat × Nat)
  | 0 => none
  | i + 1 => match ends i with
    | some j => some (i, j)
    | none => lastStart ends i

def searchLiteral (sep text : Array UInt8) : SeparatorSearch := fun limit =>
  lastStart (fun i =>
    if i + sep.size ≤ limit && (List.range sep.size).all fun k => text[i + k]? = sep[k]?
    then some (i + sep.size) else none) (limit + 1 - sep.size)

def searchRegex (r : Regex) (text : Array UInt8) : SeparatorSearch := fun limit =>
  let subject : Regex.Subject := { text := text.extract 0 limit, multiline := true }
  lastStart (fun i => (Regex.matchAt r subject (fun _ _ => true) i).map (·.stop)) limit

/-- The pieces of a text from the last to the first, cut behind each separator, or in front of it
if `before`; `limit` is where the search goes on and `past` where the next piece ends. -/
def piecesBack (search : SeparatorSearch) (before : Bool) (text : Array UInt8) :
    Nat → (limit past : Nat) → List Bytes
  | 0, _, past => [(text.extract 0 past).toList]
  | n + 1, limit, past =>
    match search limit with
    | none => [(text.extract 0 past).toList]
    | some (i, j) =>
      let cut := if before then i else j
      (text.extract cut past).toList :: piecesBack search before text n i cut

/-- A written expression in which `+` and `?` are operators without a backslash. -/
def withSwappedSigns : Nat → Bytes → Bytes
  | 0, s => s
  | _, [] => []
  | n + 1, b :: rest =>
    match Char.ofNat b.toNat, rest with
    | '+', _ | '?', _ => 0x5c :: b :: withSwappedSigns n rest
    | '\\', c :: rest =>
      if c = 0x2b || c = 0x3f then c :: withSwappedSigns n rest
      else b :: c :: withSwappedSigns n rest
    | '[', _ =>
      match Regex.bracket rest with
      | .ok (_, left) => b :: rest.take (rest.length - left.length) ++ withSwappedSigns n left
      | .error _ => b :: withSwappedSigns n rest
    | _, _ => b :: withSwappedSigns n rest

/-- The search for the separators in a text, by the options of `tac`. -/
def separatorSearch (a : Arguments) : Util (Array UInt8 → SeparatorSearch) := do
  let sep := (a.value? "s").getD [Bytes.newline]
  if !a.has "r" then
    let sep := if sep.isEmpty then [0] else sep
    return searchLiteral sep.toArray
  else if sep.isEmpty then failString "separator cannot be empty"
  else match Regex.parse false false (withSwappedSigns sep.length sep) with
    | .ok r => return searchRegex r
    | .error e => failString e.message

def tac (args : List Bytes) : Util UInt8 := do
  let a ← arguments tacTable args
  let search ← separatorSearch a
  let operands := if a.operands.isEmpty then [dash] else a.operands
  for operand in operands do
    match ← openOperand operand with
    | .error e =>
      warn (because (Bytes.ofString "failed to open " ++ Quoted.always operand ++
        Bytes.ofString " for reading") e)
    | .ok fd =>
      let (text, failure) ← readAll fd
      closeOperand fd
      match failure with
      | some e =>
        -- A directory can be positioned, but not where the end of a file would be.
        let e := if e = .EISDIR then .EINVAL else e
        warn (because (Quoted.needed operand ++ Bytes.ofString ": read error") e)
      | none =>
        if a.options.isEmpty then put (records text).reverse.flatten
        else
          let text := text.toArray
          put (piecesBack (search text) (a.has "b") text text.size text.size text.size).flatten
  return (← get).status

/-! ## head and tail -/

structure Portion where
  count : Nat := 10
  /-- Bytes are counted, not lines. -/
  bytes : Bool := false
  /-- All but the last so many, or from that one on. -/
  rest : Bool := false
  /-- The byte that ends a line. -/
  mark : UInt8 := Bytes.newline

def titleOf (operand : Bytes) : Bytes :=
  if operand = dash then Bytes.ofString "standard input" else operand

def headline (operand : Bytes) (first : Bool) : Bytes :=
  (if first then [] else [Bytes.newline]) ++ Bytes.ofString "==> " ++ titleOf operand ++
    Bytes.ofString " <==\n"

/-- The start of a text up to its `n`th mark, and how many marks are wanted still. -/
def takeLines (mark : UInt8) : Nat → Bytes → Bytes × Nat
  | 0, _ => ([], 0)
  | n, [] => ([], n)
  | n + 1, b :: rest =>
    if b = mark then let (t, m) := takeLines mark n rest; (b :: t, m)
    else let (t, m) := takeLines mark (n + 1) rest; (b :: t, m)

/-- The first `n` bytes, and how many are wanted still. -/
def takeBytes (n : Nat) (text : Bytes) : Bytes × Nat := (text.take n, n - text.length)

def readFailure (operand : Bytes) (e : Errno) : Util Unit :=
  warn (because (Bytes.ofString "error reading " ++ Quoted.always (titleOf operand)) e)

/-- Shows the start of a file; what was read beyond it is given back. -/
def headStart (p : Portion) (operand : Bytes) (fd : Nat) : Util Unit :=
  iterate p.count fun left => do
    if left = 0 then return .inr ()
    match ← read fd (if p.bytes then min left 8192 else 8192) with
    | .ok [] => return .inr ()
    | .ok text =>
      let (part, left) := if p.bytes then takeBytes left text else takeLines p.mark left text
      put part
      if left = 0 then
        giveBack fd (text.drop part.length)
        return .inr ()
      else return .inl left
    | .error e =>
      readFailure operand e
      return .inr ()

/-- What comes before the last `count` units of a text. -/
def allButLast (p : Portion) (text : Bytes) : Bytes :=
  if p.bytes then text.take (text.length - p.count)
  else ((records text p.mark).reverse.drop p.count).reverse.flatten

def headRest (p : Portion) (operand : Bytes) (fd : Nat) : Util Unit := do
  let (text, failure) ← readAll fd
  put (allButLast p text)
  match failure with
  | some e => readFailure operand e
  | none => pure ()

def countOf (what : String) (s : Bytes) : Util Nat :=
  let text := Bytes.ofString s!"invalid number of {what}: " ++ Quoted.plain s
  match Amount.parse s with
  | .ok n => return n
  | .error .tooLarge => fail (because text .EOVERFLOW)
  | .error _ => fail text

/-- The digits and letters of a first argument such as `-5kq`, as the count option and the other
options that they mean; the first letter that means nothing. -/
def expandLetters (digits : Bytes) : (units : Bytes) → (lines : Bool) → (flags : List Bytes) →
    (letters : Bytes) → Except UInt8 (List Bytes)
  | units, lines, flags, [] =>
    .ok (Bytes.ofString (if lines then "-n" else "-c") :: (digits ++ units) :: flags)
  | units, lines, flags, b :: rest =>
    match Char.ofNat b.toNat with
    | 'c' => expandLetters digits [] false flags rest
    | 'b' | 'k' | 'm' => expandLetters digits [b] false flags rest
    | 'l' => expandLetters digits units true flags rest
    | 'q' | 'v' | 'z' => expandLetters digits units lines (flags ++ [[0x2d, b]]) rest
    | _ => .error b

/-- The arguments of `head` with a count in the first one spelled out. -/
def expandHead : List Bytes → Except UInt8 (List Bytes)
  | (0x2d :: d :: more) :: rest =>
    if Class.isDigit d then
      let digits := (d :: more).takeWhile Class.isDigit
      (expandLetters digits [] true [] ((d :: more).drop digits.length)).map (· ++ rest)
    else .ok ((0x2d :: d :: more) :: rest)
  | args => .ok args

/-- The portion asked for; `mark` in front of a count asks for the rest, and a minus sign is no part
of the count. -/
def portion (a : Arguments) (mark : UInt8) : Util Portion := do
  let usual : Portion := { mark := if a.has "z" then 0 else Bytes.newline }
  match a.last? ["n", "c"] with
  | none => return usual
  | some key =>
    let text := (a.value? key).getD []
    let bytes : Bool := key = "c"
    let digits := if text.head? = some 0x2d then text.drop 1 else text
    let count ← countOf (if bytes then "bytes" else "lines") digits
    return { usual with count, bytes, rest := text.head? = some mark }

/-- Goes through the operands of `head` and `tail`, with headlines where they are wanted. -/
def eachPortion (a : Arguments) (body : Bytes → Nat → Util Unit) : Util UInt8 := do
  let operands := if a.operands.isEmpty then [dash] else a.operands
  let titled := match a.last? ["q", "v"] with
    | some "v" => true
    | some _ => false
    | none => operands.length > 1
  let mut first := true
  for operand in operands do
    match ← openOperand operand with
    | .error e =>
      warn (because (Bytes.ofString "cannot open " ++ Quoted.always operand ++
        Bytes.ofString " for reading") e)
    | .ok fd =>
      if titled then put (headline operand first)
      first := false
      body operand fd
      closeOperand fd
  return (← get).status

/-- The digits, which are options only in a first argument. -/
def digitLetters : String := "0123456789"

def strayDigit? (a : Arguments) : Option String :=
  (a.options.find? fun o => o.1.all Char.isDigit).map (·.1)

def headTable : OptionTable :=
  .of ("c:n:qvz" ++ digitLetters)
    [("lines", .required, "n"), ("bytes", .required, "c"), ("quiet", .none, "q"),
     ("silent", .none, "q"), ("verbose", .none, "v"), ("zero-terminated", .none, "z")]

def head (args : List Bytes) : Util UInt8 := do
  let stray (letter : Bytes) : Util Unit :=
    misuse (Bytes.ofString "invalid trailing option -- " ++ letter)
  let args ← match expandHead args with
    | .ok args => pure args
    | .error b => do stray [b]; pure []
  let a ← arguments headTable args
  if let some d := strayDigit? a then stray (Bytes.ofString d)
  let p ← portion a 0x2d
  eachPortion a fun operand fd => if p.rest then headRest p operand fd else headStart p operand fd

/-- The end of a text that `tail` shows. -/
def lastOf (p : Portion) (text : Bytes) : Bytes :=
  match p.bytes, p.rest with
  | true, false => text.drop (text.length - p.count)
  | true, true => text.drop (p.count - 1)
  | false, false => (records text p.mark).reverse.take p.count |>.reverse.flatten
  | false, true => ((records text p.mark).drop (p.count - 1)).flatten

def copyRest (operand : Bytes) (fd : Nat) : Util Unit :=
  iterate () fun _ => do
    match ← read fd 8192 with
    | .ok [] => return .inr ()
    | .ok text => put text; return .inl ()
    | .error e => readFailure operand e; return .inr ()

/-- The count in a first argument of `tail` such as `-5`, `+5c` or `-b`, when no more than one
operand follows. -/
def tailCount? : List Bytes → Option (Portion × Bytes)
  | (sign :: text) :: rest =>
    let single : Bool := match rest with
      | [] => true
      | [second] => second.head? ≠ some 0x2d || second.length < 2 || second = Bytes.ofString "--"
      | [second, _] => second = Bytes.ofString "--"
      | _ => false
    if !single || (sign ≠ 0x2d && sign ≠ 0x2b) then none
    else if sign = 0x2d && (text.isEmpty || text = [0x63]) then none
    else
      let digits := text.takeWhile Class.isDigit
      let usual (unit : Nat) := if digits.isEmpty then 10 * unit else (Bytes.toNat? digits).getD 0 * unit
      let made (count : Nat) (bytes : Bool) : Option (Portion × Bytes) :=
        some ({ count, bytes, rest := sign = 0x2b }, digits)
      match text.drop digits.length with
      | [] => made (usual 1) false
      | [0x6c] => made (usual 1) false
      | [0x63] => made (usual 1) true
      | [0x62] => made (usual 512) true
      | _ => none
  | _ => none

def tailTable : OptionTable :=
  .of ("c:n:fFqs:vz" ++ digitLetters)
    [("lines", .required, "n"), ("bytes", .required, "c"), ("quiet", .none, "q"),
     ("silent", .none, "q"), ("verbose", .none, "v"), ("zero-terminated", .none, "z"),
     ("follow", .optional, "f"), ("max-unchanged-stats", .required, "max"),
     ("pid", .required, "pid"), ("retry", .none, "retry"), ("sleep-interval", .required, "s")]

def tail (args : List Bytes) : Util UInt8 := do
  let short := tailCount? args
  let stray (digit : Bytes) : Util Unit :=
    fail (Bytes.ofString "option used in invalid context -- " ++ digit)
  match short, args with
  | none, (0x2d :: d :: _) :: _ => if Class.isDigit d then stray [d]
  | _, _ => pure ()
  let a ← arguments tailTable (if short.isSome then args.drop 1 else args)
  if let some d := strayDigit? a then stray (Bytes.ofString d)
  let p ← match short with
    | none => portion a 0x2b
    | some (p, digits) =>
      if (Bytes.toNat? digits).getD 0 ≥ Amount.limit then
        fail (because (Bytes.ofString "invalid number: " ++ Quoted.plain (args.head?.getD [])) .ERANGE)
      pure p
  if a.has "retry" && !a.has "f" then
    complain (Bytes.ofString "warning: --retry ignored; --retry is useful only when following")
  eachPortion a fun operand fd => do
    if p.rest && p.count ≤ 1 then copyRest operand fd
    else
      let (text, failure) ← readAll fd 8192
      put (lastOf p text)
      match failure with
      | some e => readFailure operand e
      | none => pure ()

/-! ## wc -/

structure Counts where
  lines : Nat := 0
  words : Nat := 0
  chars : Nat := 0
  bytes : Nat := 0
  longest : Nat := 0

structure CountState where
  counts : Counts := {}
  inWord : Bool := false
  column : Nat := 0

namespace Counts

def add (a b : Counts) : Counts :=
  { lines := a.lines + b.lines, words := a.words + b.words, chars := a.chars + b.chars
    bytes := a.bytes + b.bytes, longest := max a.longest b.longest }

/-- One byte counted. -/
def step (s : CountState) (b : UInt8) : CountState :=
  let c := s.counts
  let space := Class.isSpace b
  let column :=
    if b = 0x0a || b = 0x0d || b = 0x0c then 0
    else if b = 0x09 then (s.column / 8 + 1) * 8
    else if Class.isPrint b then s.column + 1
    else s.column
  { counts :=
      { lines := if b = Bytes.newline then c.lines + 1 else c.lines
        words := if !space && !s.inWord then c.words + 1 else c.words
        chars := c.chars + 1, bytes := c.bytes + 1, longest := max c.longest (max s.column column) }
    inWord := !space, column }

end Counts

def wcTable : OptionTable :=
  .of "clLmw"
    [("bytes", .none, "c"), ("chars", .none, "m"), ("lines", .none, "l"), ("words", .none, "w"),
     ("max-line-length", .none, "L"), ("total", .required, "total"), ("files0-from", .required, "f"),
     ("debug", .none, "debug")]

def countFile (operand : Bytes) (fd : Nat) : Util Counts := do
  let s ← iterate ({} : CountState) fun s => do
    match ← read fd 16384 with
    | .ok [] => return .inr s
    | .ok text => return .inl (text.foldl Counts.step s)
    | .error e => warnFile operand e; return .inr s
  return s.counts

/-- The size of a regular file from where it stands on, when only bytes are to be counted. -/
def sizeLeft? (fd : Nat) : Util (Option Nat) := do
  match ← call (.fstat fd), ← call (.seek fd 0 .current) with
  | .ok i, .ok n => return if i.kind = .file && i.size > 0 then some (i.size - n) else none
  | _, _ => return none

/-- When `wc` shows a total. -/
inductive TotalStyle where
  | auto
  | always
  | only
  | never
  deriving DecidableEq

def TotalStyle.all : List TotalStyle := [auto, always, only, never]

/-- The names in a file that holds them with a zero byte behind each, and whether all of them were
known before counting started. -/
def namesIn (file : Bytes) : Util (List Bytes × Bool) := do
  let fd ← match ← openOperand file with
    | .ok fd => pure fd
    | .error e => fail (because (Bytes.ofString "cannot open " ++ Quoted.always file ++
        Bytes.ofString " for reading") e)
  let known ← match ← call (.fstat fd) with
    | .ok i => pure (decide (i.kind = .file))
    | .error _ => pure false
  let (text, failure) ← readAll fd
  closeOperand fd
  match failure with
  | some e => fail (because (Quoted.needed file ++ Bytes.ofString ": read error") e)
  | none => return (linesOf text 0, known)

/-- The digits a count takes, from the sizes of the files that are counted. -/
def countWidth (operands : List (Option Bytes)) : Util Nat := do
  let mut total := 0
  let mut least := 1
  for operand in operands do
    let info ← match operand with
      | some o => if o = dash then call (.fstat 0) else call (.stat o true)
      | none => call (.fstat 0)
    match info with
    | .ok i => if i.kind = .file then total := total + i.size else least := 7
    | .error _ => pure ()
  return max least (Bytes.ofNat total).length

def wc (args : List Bytes) : Util UInt8 := do
  let a ← arguments wcTable args
  let totals ← match a.value? "total" with
    | none => pure TotalStyle.auto
    | some word => do
      let i ← keyword "--total" [["auto"], ["always"], ["only"], ["never"]] word
      pure ((TotalStyle.all[i]?).getD .auto)
  let wanted := ["l", "w", "m", "c", "L"].filter a.has
  let wanted := if wanted.isEmpty then ["l", "w", "c"] else wanted
  let list := a.value? "f"
  let (operands, known) ← match list, a.operands with
    | some _, extra :: _ =>
      complain (Bytes.ofString "extra operand " ++ Quoted.plain extra)
      report (Bytes.ofString "file operands cannot be combined with --files0-from\n")
      hint
    | some file, [] => do
      let (names, known) ← namesIn file
      pure (names.map some, known)
    | none, [] => pure ([none], true)
    | none, names => pure (names.map some, true)
  let width ← if totals = .only || !known || (operands.length ≤ 1 && wanted.length ≤ 1) then pure 1
    else countWidth operands
  let pad (n : Nat) : Bytes :=
    let digits := Bytes.ofNat n
    Bytes.fill 0x20 (width - digits.length) ++ digits
  let line (c : Counts) (name : Option Bytes) : Bytes :=
    let numbers := [("l", c.lines), ("w", c.words), ("m", c.chars), ("c", c.bytes), ("L", c.longest)]
    let shown := (numbers.filter (wanted.contains ·.1)).map fun n => pad n.2
    Bytes.join [0x20] (shown ++ name.toList)
  let mut total : Counts := {}
  for (operand, i) in operands.zipIdx do
    let name := operand.getD dash
    if list.isSome && name.isEmpty then
      warn (Quoted.needed (list.getD []) ++
        Bytes.ofString s!":{i + 1}: invalid zero-length file name")
    else if list = some dash && name = dash then
      warn (Bytes.ofString "when reading file names from stdin, no file name of " ++
        Quoted.plain name ++ Bytes.ofString " allowed")
    else match ← openOperand name with
      | .error e => warnFile name e
      | .ok fd =>
        let size ← if wanted = ["c"] then sizeLeft? fd else pure none
        let c ← match size with
          | some n => pure { bytes := n }
          | none => countFile name fd
        closeOperand fd
        if totals ≠ .only then putLine (line c operand)
        total := total.add c
  let summary : Bool := match totals with
    | .auto => operands.length > 1
    | .always | .only => true
    | .never => false
  if summary then
    putLine (line total (if totals = .only then none else some (Bytes.ofString "total")))
  return (← get).status

/-! ## tee -/

/-- What `tee` does about output it cannot write. -/
structure TeeStyle where
  /-- A pipe that nobody reads is passed over. -/
  sparesPipes : Bool := false
  /-- The first failure ends it. -/
  ends : Bool := false

def teeTable : OptionTable :=
  .of "aip" [("append", .none, "a"), ("ignore-interrupts", .none, "i"), ("output-error", .optional, "p")]

/-- Writes a text to each of several files; those that can still be written. -/
def TeeStyle.write (s : TeeStyle) (text : Bytes) : List (Bytes × Nat) → Util (List (Bytes × Nat))
  | [] => return []
  | (name, fd) :: rest => do
    match ← writeAll fd text with
    | .ok () => return (name, fd) :: (← s.write text rest)
    | .error e =>
      unless s.sparesPipes && e = .EPIPE do
        warnFile name e
        if s.ends then close 1
      s.write text rest

/-- The style that options ask for, if they ask for one. -/
def teeStyle (a : Arguments) : Util (Option TeeStyle) := do
  match a.options.reverse.find? (·.1 = "p") with
  | none => return none
  | some (_, none) => return some { sparesPipes := true }
  | some (_, some word) =>
    let i ← keyword "--output-error" [["warn"], ["warn-nopipe"], ["exit"], ["exit-nopipe"]] word
    return some { sparesPipes := i % 2 = 1, ends := i ≥ 2 }

def tee (args : List Bytes) : Util UInt8 := do
  let a ← arguments teeTable args
  let style ← teeStyle a
  if a.has "i" then let _ ← call (.dispose Signal.interrupt .ignored)
  if style.isSome then let _ ← call (.dispose Signal.pipe .ignored)
  let s := style.getD {}
  let mut outs := [(Bytes.ofString "standard output", 1)]
  for operand in a.operands do
    match ← call (.open operand (if a.has "a" then .appending else .truncating) 0o666) with
    | .ok fd => outs := outs ++ [(operand, fd)]
    | .error e =>
      warnFile operand e
      if s.ends then close 1
  let failure ← iterate outs fun outs => do
    if outs.isEmpty then return .inr none
    match ← read 0 8192 with
    | .ok [] => return .inr none
    | .ok text => return .inl (← s.write text outs)
    | .error e => return .inr (some e)
  if let some e := failure then warn (because (Bytes.ofString "read error") e)
  return (← get).status

end JobShell.Streams
