import JobShell.Text.Amount
import JobShell.Tools.Arguments
import JobShell.Tools.Order

/-!
# `sort` and `uniq`

`sort` orders or merges the lines of its operands or checks their order; `uniq` treats neighbouring
lines that are the same as one.
-/

namespace JobShell.Sorting

open Util

/-! ## Keys -/

/-- Flags given as letters, and what follows them. -/
def takeFlags (f : Flags) (atEnd : Bool) : Bytes → Flags × Bytes
  | [] => (f, [])
  | b :: rest =>
    match f.add? b atEnd with
    | some f => takeFlags f atEnd rest
    | none => (f, b :: rest)

inductive KeyError where
  | number (place : String) (text : Bytes)
  | zeroField (text : Bytes)
  | zeroChar (text : Bytes)
  | stray (text : Bytes)

def KeyError.message : KeyError → Bytes
  | number place text =>
    Bytes.ofString s!"invalid number {place}: invalid count at start of " ++ Quoted.plain text
  | zeroField text =>
    Bytes.ofString "field number is zero: invalid field specification " ++ Quoted.plain text
  | zeroChar text =>
    Bytes.ofString "character offset is zero: invalid field specification " ++ Quoted.plain text
  | stray text =>
    Bytes.ofString "stray character in field spec: invalid field specification " ++
      Quoted.plain text

/-- A position `F[.C]` with its flags, in front of what follows them; `place` is where it stands. -/
def takePosition (place : String) (f : Flags) (atEnd : Bool) (s : Bytes) :
    Except KeyError (Nat × Option Nat × Flags × Bytes) := do
  let count (place : String) (s : Bytes) : Except KeyError (Nat × Bytes) :=
    let digits := s.takeWhile Class.isDigit
    match Bytes.toNat? digits with
    | some n => .ok (n, s.drop digits.length)
    | none => .error (.number place s)
  let (field, rest) ← count place s
  let (char, rest) ← match rest with
    | 0x2e :: more => do
      let (c, rest) ← count "after '.'" more
      pure (some c, rest)
    | _ => pure (none, rest)
  let (f, rest) := takeFlags f atEnd rest
  return (field, char, f, rest)

/-- Reads a key; the flag says that it has flags of its own. -/
def parseKey (s : Bytes) : Except KeyError (Key × Bool) := do
  let (field, char, flags, rest) ← takePosition "at field start" {} false s
  if field = 0 then .error (.zeroField s)
  else if char = some 0 then .error (.zeroChar s)
  else
    let k : Key := { field := field - 1, char := char.getD 1 - 1, flags }
    match rest with
    | [] => return (k, decide (flags ≠ {}))
    | 0x2c :: more =>
      let (field, char, flags, rest) ← takePosition "after ','" flags true more
      if field = 0 then .error (.zeroField s)
      else if !rest.isEmpty then .error (.stray s)
      else return ({ k with flags, until_ := some (field - 1, char.getD 0) }, decide (flags ≠ {}))
    | _ => .error (.stray s)

/-! ## sort -/

def sortTable : OptionTable :=
  .of "bdfghik:mMno:rRsS:t:T:uVy::zcC"
    [("ignore-leading-blanks", .none, "b"), ("check", .optional, "c"),
     ("compress-program", .required, "compress"), ("debug", .none, "debug"),
     ("dictionary-order", .none, "d"), ("ignore-case", .none, "f"),
     ("files0-from", .required, "files0"), ("general-numeric-sort", .none, "g"),
     ("ignore-nonprinting", .none, "i"), ("key", .required, "k"), ("merge", .none, "m"),
     ("month-sort", .none, "M"), ("numeric-sort", .none, "n"), ("human-numeric-sort", .none, "h"),
     ("version-sort", .none, "V"), ("random-sort", .none, "R"),
     ("random-source", .required, "source"), ("sort", .required, "sort"), ("output", .required, "o"),
     ("reverse", .none, "r"), ("stable", .none, "s"), ("batch-size", .required, "batch"),
     ("buffer-size", .required, "S"), ("field-separator", .required, "t"),
     ("temporary-directory", .required, "T"), ("unique", .none, "u"),
     ("zero-terminated", .none, "z"), ("parallel", .required, "parallel")]

/-- The words that `--sort` takes, with the flags they stand for. -/
def sortWords : List (String × Char) :=
  [("general-numeric", 'g'), ("human-numeric", 'h'), ("month", 'M'), ("numeric", 'n'),
   ("random", 'R'), ("version", 'V')]

def incompatible {α : Type} (letters : String) : Util α :=
  failString ("options '-" ++ letters ++ "' are incompatible") 2

/-- The lines of an operand; a file that cannot be read ends the sort. -/
def linesOfOperand (mark : UInt8) (operand : Bytes) : Util (List Bytes) := do
  match ← openOperand operand with
  | .error e => fail (because (Bytes.ofString "open failed: " ++ Quoted.needed operand) e) 2
  | .ok fd =>
    let (text, failure) ← readAll fd
    closeOperand fd
    match failure with
    | some e => fail (because (Bytes.ofString "read failed: " ++ Quoted.needed operand) e) 2
    | none => return linesOf text mark

/-- The first line that is not in order, with its number. -/
def firstDisorder (o : Order) : Nat → Bytes → List Bytes → Option (Nat × Bytes)
  | _, _, [] => none
  | n, a, b :: rest =>
    let r := o.compare a b
    if r = .gt || (o.unique && r = .eq) then some (n, b) else firstDisorder o (n + 1) b rest

/-- Lines without those that equal the last one kept. -/
def dropEqual (same : Bytes → Bytes → Bool) (lines : List Bytes) : List Bytes :=
  (lines.foldl (fun kept line => match kept with
    | a :: _ => if same a line then kept else line :: kept
    | [] => [line]) []).reverse

def mergeTwo (o : Order) : Nat → List Bytes → List Bytes → List Bytes
  | 0, a, b => a ++ b
  | _, [], b => b
  | _, a, [] => a
  | n + 1, x :: a, y :: b =>
    if o.compare x y = .gt then y :: mergeTwo o n (x :: a) b else x :: mergeTwo o n a (y :: b)

def mergeAll (o : Order) (lists : List (List Bytes)) : List Bytes :=
  lists.foldl (fun a b => mergeTwo o (a.length + b.length) a b) []

def flagsOf (a : Arguments) : Util Flags := do
  let mut flags : Flags := {}
  for (key, value) in a.options do
    let letter ← match value with
      | some word =>
        if key = "sort" then do
          let i ← keyword "--sort" (sortWords.map ([·.1])) word
          pure ((sortWords[i]?).map (·.2))
        else pure none
      | none => pure key.toList.head?
    match letter with
    | none => pure ()
    | some c =>
      flags := (flags.add? c.toNat.toUInt8 false).getD flags
      if c = 'b' then flags := { flags with blanksEnd := true }
  return flags

/-- The byte that separates fields, if one is given. -/
def separatorOf (a : Arguments) : Util (Option UInt8) := do
  let mut found : Option UInt8 := none
  for text in a.values "t" do
    let c ← match text with
      | [c] => pure c
      | [0x5c, 0x30] => pure 0
      | [] => failString "empty tab" 2
      | s => fail (Bytes.ofString "multi-character tab " ++ Quoted.plain s) 2
    if found.any (· ≠ c) then failString "incompatible tabs" 2
    found := some c
  return found

def orderOf (a : Arguments) : Util Order := do
  let flags ← flagsOf a
  let separator ← separatorOf a
  let mut given : List (Key × Bool) := []
  for text in a.values "k" do
    match parseKey text with
    | .ok key => given := given ++ [key]
    | .error e => fail e.message 2
  let keys := given.map fun (k, own) => if own then k else { k with flags }
  let compared := if keys.isEmpty then [flags] else keys.map (·.flags)
  match compared.find? (·.conflict) with
  | some f => incompatible f.letters
  | none => return { keys, separator, flags, stable := a.has "s", unique := a.has "u" }

/-- Whether and how the order is only checked: some for a check, with whether it tells where. -/
def checkOf (a : Arguments) : Util (Option Bool) := do
  let mut found : Option Bool := none
  for (key, value) in a.options do
    if key = "c" || key = "C" then
      let tells ← match value with
        | none => pure (decide (key = "c"))
        | some word => do
          let i ← keyword "--check" [["quiet", "silent"], ["diagnose-first"]] word
          pure (decide (i = 1))
      if found.any (· ≠ tells) then incompatible "cC"
      found := some tells
  return found

def namesIn (file : Bytes) : Util (List Bytes) := do
  let names ← linesOfOperand 0 file
  if names.isEmpty then fail (Bytes.ofString "no input from " ++ Quoted.plain file) 2
  for (name, i) in names.zipIdx do
    if name.isEmpty then
      fail (Quoted.needed file ++ Bytes.ofString s!":{i + 1}: invalid zero-length file name") 2
    if file = dash && name = dash then
      fail (Bytes.ofString "when reading file names from stdin, no file name of " ++
        Quoted.plain name ++ Bytes.ofString " allowed") 2
  return names

/-- Sizes and counts that change nothing but must be right. -/
def checkSettings (a : Arguments) : Util Unit := do
  for s in a.values "S" do
    let number := if s.getLast? = some 0x25 then s.dropLast else s
    if (Amount.parse? number).isNone then
      fail (Bytes.ofString "invalid -S argument " ++ Quoted.plain s) 2
  for s in a.values "batch" do
    match Amount.parse s [] with
    | .ok n => if n < 2 then
        complain (Bytes.ofString "invalid --batch-size argument " ++ Quoted.plain s)
        failString "minimum --batch-size argument is '2'" 2
    | .error _ => fail (Bytes.ofString "invalid --batch-size argument " ++ Quoted.plain s) 2
  for s in a.values "parallel" do
    match Amount.parse s [] with
    | .ok 0 => failString "number in parallel must be nonzero" 2
    | .error .notNumber | .error .badUnit =>
      fail (Bytes.ofString "invalid --parallel argument " ++ Quoted.plain s) 2
    | _ => pure ()

def checkOrder (o : Order) (mark : UInt8) (operand : Bytes) (tells : Bool) : Util UInt8 := do
  match ← linesOfOperand mark operand with
  | [] => return 0
  | first :: rest =>
    match firstDisorder o 2 first rest with
    | none => return 0
    | some (n, line) =>
      if tells then
        complain (Quoted.needed operand ++ Bytes.ofString s!":{n}: disorder: " ++ line)
      return 1

/-- The file for the output, which is emptied only when the lines are known. -/
def openOutput (file : Bytes) : Util Nat := do
  match ← call (.open file { write := true, create := true } 0o666) with
  | .error e => fail (because (Bytes.ofString "open failed: " ++ Quoted.needed file) e) 2
  | .ok fd => return fd

def sort (args : List Bytes) : Util UInt8 := do
  let a ← arguments sortTable args 2
  let check ← checkOf a
  checkSettings a
  let order ← orderOf a
  let mark : UInt8 := if a.has "z" then 0 else Bytes.newline
  let operands ← match a.value? "files0", a.operands with
    | some _, extra :: _ =>
      complain (Bytes.ofString "extra operand " ++ Quoted.plain extra)
      report (Bytes.ofString "file operands cannot be combined with --files0-from\n")
      hint 2
    | some file, [] => namesIn file
    | none, [] => pure [dash]
    | none, names => pure names
  match check with
  | some tells =>
    let letter := if tells then "c" else "C"
    match operands with
    | _ :: second :: _ =>
      fail (Bytes.ofString "extra operand " ++ Quoted.always second ++
        Bytes.ofString s!" not allowed with -{letter}") 2
    | _ => pure ()
    if (a.value? "o").isSome then incompatible (letter ++ "o")
    checkOrder order mark (operands.head?.getD dash) tells
  | none =>
    for operand in operands do
      if operand ≠ dash then
        match ← call (.access operand 4) with
        | .ok () => pure ()
        | .error e => fail (because (Bytes.ofString "cannot read: " ++ Quoted.needed operand) e) 2
    match (a.values "o").eraseDups with
    | _ :: _ :: _ => failString "multiple output files specified" 2
    | _ => pure ()
    let output ← match a.value? "o" with
      | none => pure none
      | some file => do pure (some (← openOutput file))
    let lists ← operands.mapM (linesOfOperand mark)
    let sorted := if a.has "m" then mergeAll order lists
      else lists.flatten.mergeSort fun x y => order.compare x y != .gt
    let sorted := if order.unique then dropEqual (fun x y => order.compare x y = .eq) sorted else sorted
    match output with
    | none => put (joinLines sorted mark)
    | some fd =>
      let _ ← call (.truncate fd 0)
      let _ ← writeAll fd (joinLines sorted mark)
    -- Two complaints tell of a failed write.
    flush
    match (← get).lost with
    | some e =>
      complain (because (Bytes.ofString "fflush failed: 'standard output'") e)
      complain (Bytes.ofString "write error")
      exit 2
    | none => return 0

/-! ## uniq -/

def uniqTable : OptionTable :=
  .of "cdDf:is:uw:z0123456789"
    [("count", .none, "c"), ("repeated", .none, "d"), ("all-repeated", .optional, "D"),
     ("group", .optional, "group"), ("skip-fields", .required, "f"), ("ignore-case", .none, "i"),
     ("skip-chars", .required, "s"), ("unique", .none, "u"), ("check-chars", .required, "w"),
     ("zero-terminated", .none, "z")]

/-- The text behind `n` fields at the front, each blanks and then others; no text has more fields
than bytes. -/
def skipFields (n : Nat) (s : Bytes) : Bytes :=
  (min n s.length).repeat (fun s => (s.dropWhile Class.isBlank).dropWhile (!Class.isBlank ·)) s

def runs (same : Bytes → Bytes → Bool) (lines : List Bytes) : List (List Bytes) :=
  let groups := lines.foldl (fun groups line => match groups with
    | (first, more) :: rest => if same first line then (first, line :: more) :: rest
      else (line, []) :: groups
    | [] => [(line, [])]) ([] : List (Bytes × List Bytes))
  groups.reverse.map fun (first, more) => first :: more.reverse

structure GroupStyle where
  /-- Groups of one line are shown. -/
  singles : Bool := true
  /-- One line of the larger groups is shown. -/
  repeats : Bool := true
  /-- All lines of the larger groups but the last are shown too. -/
  later : Bool := false
  count : Bool := false
  /-- All lines are shown. -/
  every : Bool := false
  /-- An empty line stands in front of each group, between groups, or at the end. -/
  inFront : Bool := false
  between : Bool := false
  behind : Bool := false

def GroupStyle.line (s : GroupStyle) (size : Nat) (line : Bytes) : Bytes :=
  if s.count then
    let n := Bytes.ofNat size
    Bytes.fill 0x20 (7 - n.length) ++ n ++ 0x20 :: line
  else line

def GroupStyle.select (s : GroupStyle) (group : List Bytes) : List Bytes :=
  if s.every then group
  else match group with
    | [] => []
    | [line] => if s.singles then [s.line 1 line] else []
    | line :: more =>
      if s.later then (line :: more).dropLast ++ if s.repeats then more.getLast?.toList else []
      else if s.repeats then [s.line group.length line] else []

/-- The groups with the empty lines between them; those that show nothing count as none if only
larger groups are set apart. -/
def GroupStyle.layOut (s : GroupStyle) (groups : List (List Bytes)) : List Bytes :=
  let counted := if s.every then groups else groups.filter (·.length > 1)
  if s.inFront || s.between || s.behind then
    let shown := (counted.map s.select).zipIdx.flatMap fun (lines, i) =>
      if s.inFront || (s.between && i > 0) then [] :: lines else lines
    if s.behind && !counted.isEmpty then shown ++ [[]] else shown
  else groups.flatMap s.select

def styleOf (a : Arguments) : Util GroupStyle := do
  let mut s : GroupStyle := { count := a.has "c" }
  let mut grouping := false
  for (key, value) in a.options do
    match key with
    | "d" => s := { s with singles := false }
    | "u" => s := { s with repeats := false }
    | "D" =>
      s := { s with singles := false, later := true }
      match value with
      | none => pure ()
      | some word =>
        let i ← keyword "--all-repeated" [["none"], ["prepend"], ["separate"]] word
        s := { s with inFront := i = 1, between := i = 2 }
    | "group" =>
      grouping := true
      let i ← match value with
        | none => pure 2
        | some word => keyword "--group" [["prepend"], ["append"], ["separate"], ["both"]] word
      s := { s with every := true, inFront := i = 0 || i = 3, between := i = 1 || i = 2
                    behind := i = 1 || i = 3 }
    | _ => pure ()
  if grouping && ["c", "d", "D", "u"].any a.has then
    misuseString "--group is mutually exclusive with -c/-d/-D/-u"
  if s.count && s.later then
    misuseString "printing all duplicated lines and repeat counts is meaningless"
  return s

/-- The number of an option, at most as large as any line is long. -/
def numberOf (a : Arguments) (key what : String) : Util (Option Nat) :=
  match a.value? key with
  | none => return none
  | some s => match Amount.parse s [] with
    | .ok n => return some n
    | .error .tooLarge => return some Amount.limit
    | .error _ => fail (s ++ Bytes.ofString s!": invalid number of {what}")

def uniq (args : List Bytes) : Util UInt8 := do
  let a ← arguments uniqTable args
  -- A number behind `+` counts bytes, one behind `-` counts fields.
  let isSkip (s : Bytes) : Bool := s.head? = some 0x2b && (Bytes.toNat? (s.drop 1)).isSome
  let skips := a.operands.filter isSkip
  let digits := (a.options.filter (·.1.all Char.isDigit)).map (·.1)
  let fields := ((← numberOf a "f" "fields to skip").or (String.join digits).toNat?).getD 0
  let chars := ((← numberOf a "s" "bytes to skip").or
    (skips.getLast?.bind fun s => Bytes.toNat? (s.drop 1))).getD 0
  let width ← numberOf a "w" "bytes to compare"
  let mark : UInt8 := if a.has "z" then 0 else Bytes.newline
  let (input, output) ← match a.operands.filter (!isSkip ·) with
    | [] => pure (dash, none)
    | [i] => pure (i, none)
    | [i, o] => pure (i, if o = dash then none else some o)
    | _ :: _ :: third :: _ => extraOperand third
  let style ← styleOf a
  let part (s : Bytes) : Bytes :=
    let s := (skipFields fields s).drop chars
    let s := match width with
      | some w => s.take w
      | none => s
    if a.has "i" then s.map Class.toLower else s
  match ← openOperand input with
  | .error e => fail (because (Quoted.needed input) e)
  | .ok fd =>
    let target ← match output with
      | none => pure none
      | some o => match ← call (.open o .truncating 0o666) with
        | .error e => fail (because (Quoted.needed o) e)
        | .ok fd => pure (some fd)
    let (text, failure) ← readAll fd
    if let some e := failure then
      fail (because (Bytes.ofString "error reading " ++ Quoted.always input) e)
    let text := joinLines (style.layOut (runs (fun x y => part x = part y) (linesOf text mark))) mark
    match target with
    | none => put text
    | some fd =>
      let _ ← writeAll fd text
    return 0

end JobShell.Sorting
