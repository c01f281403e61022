import JobShell.Text.Amount
import JobShell.Text.Pattern
import JobShell.Text.Regex
import JobShell.Tools.Arguments

/-!
# `grep`

Lines that hold a match of one of several patterns are selected, or those that hold none.
-/

namespace JobShell.Selection

open Util

structure Style where
  patterns : List Regex
  fold : Bool := false
  invert : Bool := false
  word : Bool := false
  line : Bool := false
  count : Bool := false
  /-- Only the names of files with, or without, selected lines. -/
  names : Option Bool := none
  quiet : Bool := false
  most : Option Nat := none
  only : Bool := false
  number : Bool := false
  offset : Bool := false
  named : Bool := false
  /-- Lines of context before and after. -/
  before : Nat := 0
  after : Nat := 0
  /-- The line between groups of lines, when context was asked for. -/
  separator : Option Bytes := none
  /-- The byte that ends a line. -/
  mark : UInt8 := Bytes.newline
  /-- Numbers are as wide as two digits, and lines start behind a tab. -/
  aligned : Bool := false
  /-- Names, numbers, separators and matches are coloured. -/
  colored : Bool := false
  /-- The name of standard input. -/
  standard : Bytes := Bytes.ofString "(standard input)"
  /-- Files that are no text are searched as text, or passed over. -/
  text : Bool := false
  skipBinary : Bool := false
  silent : Bool := false
  nul : Bool := false

/-- Whether a match from `i` to `j` is one that counts. -/
def Style.accepts (st : Style) (s : Regex.Subject) (i j : Nat) : Bool :=
  if st.line then i = 0 && j = s.text.size
  else if st.word then !s.isWordBefore i && !s.isWordAt j
  else true

/-- The first match from position `i` on: of those that start first, the longest. -/
def Style.find (st : Style) (s : Regex.Subject) (i : Nat) : Option Regex.Found :=
  st.patterns.foldl (fun best r =>
    match best, r.search s i (st.accepts s) with
    | some a, some b => if b.start < a.start || (b.start = a.start && b.stop > a.stop) then some b else some a
    | none, b => b
    | a, none => a) none

/-- All matches from position `i` on that are not empty, at most `n`. -/
def Style.findAll (st : Style) (s : Regex.Subject) : Nat → Nat → List Regex.Found
  | 0, _ => []
  | n + 1, i =>
    match st.find s i with
    | none => []
    | some f =>
      if f.stop > f.start then f :: findAll st s n f.stop
      else if f.stop < s.text.size then findAll st s n (f.stop + 1) else []

structure State where
  line : Nat := 0
  offset : Nat := 0
  selected : Nat := 0
  /-- Lines kept for the context in front of a selected line. -/
  kept : List (Nat × Nat × Bytes) := []
  /-- Lines of context still to be shown. -/
  trailing : Nat := 0
  /-- The number of the line shown last. -/
  shown : Option Nat := none
  /-- Lines have been shown, of this file or of one before. -/
  used : Bool := false
  binary : Bool := false

def Style.paint (st : Style) (color : String) (text : Bytes) : Bytes :=
  if !st.colored || text.isEmpty then text
  else Bytes.ofString ("\x1b[" ++ color ++ "m\x1b[K") ++ text ++ Bytes.ofString "\x1b[m\x1b[K"

def Style.label (st : Style) (operand : Bytes) : Bytes := if operand = dash then st.standard else operand

def Style.nameFront (st : Style) (name : Bytes) (mark : UInt8) : Bytes :=
  if !st.named then []
  else st.paint "35" (st.label name) ++ if st.nul then [0] else st.paint "36" [mark]

def Style.numberFront (st : Style) (n : Nat) (mark : UInt8) : Bytes :=
  let digits := Bytes.ofNat n
  let digits := if st.aligned then Bytes.fill 0x20 (2 - digits.length) ++ digits else digits
  st.paint "32" digits ++ st.paint "36" [mark]

def Style.front (st : Style) (name : Bytes) (mark : UInt8) (line offset : Nat) (text : Bytes) : Bytes :=
  st.nameFront name mark ++ (if st.number then st.numberFront line mark else []) ++
    (if st.offset then st.numberFront offset mark else []) ++
    if st.aligned && (st.named || st.number || st.offset) && !text.isEmpty then [0x09] else []

def Style.highlight (st : Style) (text : Bytes) : Bytes :=
  let subject : Regex.Subject := { text := text.toArray, fold := st.fold }
  let (out, done) := (st.findAll subject (text.length + 1) 0).foldl (fun (out, done) f =>
    (out ++ (text.take f.start).drop done ++ st.paint "01;31" ((text.take f.stop).drop f.start), f.stop))
    (([] : Bytes), 0)
  out ++ text.drop done

/-- Puts out the line between groups when lines have been left out since the last one shown. -/
def Style.separate (st : Style) (s : State) (line : Nat) : Util Unit := do
  match st.separator with
  | some separator =>
    if s.used && s.shown.all (· + 1 < line) then
      put (st.paint "36" separator ++ [Bytes.newline])
  | none => pure ()

def Style.showLine (st : Style) (name : Bytes) (selected : Bool) (s : State) (line offset : Nat)
    (text : Bytes) : Util State := do
  st.separate s line
  let shown := if st.colored && selected != st.invert then st.highlight text else text
  put (st.front name (if selected then 0x3a else 0x2d) line offset text ++ shown ++ [st.mark])
  return { s with shown := some line, used := true }

def Style.showSelected (st : Style) (name : Bytes) (s : State) (text : Bytes) : Util State := do
  let mut s := s
  if st.only then
    if !st.invert then
      let subject : Regex.Subject := { text := text.toArray, fold := st.fold }
      st.separate s s.line
      s := { s with shown := some s.line, used := true }
      for f in st.findAll subject (text.length + 1) 0 do
        let part := (text.take f.stop).drop f.start
        put (st.front name 0x3a s.line (s.offset + f.start) part ++ st.paint "01;31" part ++ [st.mark])
    return s
  for (line, offset, old) in s.kept.reverse do
    s ← st.showLine name false s line offset old
  s ← st.showLine name true s s.line s.offset text
  return { s with kept := [], trailing := st.after }

def Style.showTrailing (st : Style) (name : Bytes) (s : State) (text : Bytes) : Util State := do
  let s ← st.showLine name false s s.line s.offset text
  return { s with offset := s.offset + text.length + 1, trailing := s.trailing - 1 }

/-- One line. When enough lines have been selected, only the context behind the last one follows. -/
def Style.step (st : Style) (name : Bytes) (listing : Bool) (s : State) (text : Bytes) :
    Util (Flow State) := do
  let s := { s with line := s.line + 1 }
  if st.most.any (· ≤ s.selected) then
    let s ← st.showTrailing name s text
    return if s.trailing = 0 then .stop s else .next s
  let subject : Regex.Subject := { text := text.toArray, fold := st.fold }
  let hit := (st.find subject 0).isSome != st.invert
  let next (s : State) : State := { s with offset := s.offset + text.length + 1 }
  if hit then
    let s := { s with selected := s.selected + 1 }
    if st.quiet || st.names.isSome then return .stop s
    let s ← if listing && !s.binary then st.showSelected name s text else pure s
    if s.binary && listing then return .stop s
    let s := next s
    if st.most.any (· ≤ s.selected) && (s.trailing = 0 || !listing || st.only) then return .stop s
    return .next s
  else if s.trailing > 0 && listing && !st.only then return .next (← st.showTrailing name s text)
  else
    let kept := ((s.line, s.offset, text) :: s.kept).take st.before
    return .next (next { s with kept })

/-- Searches one file; whether a line was selected, and whether lines have been shown. -/
def Style.search (st : Style) (name : Bytes) (fd : Nat) (used : Bool) : Util (Bool × Bool) := do
  let listing := !(st.count || st.quiet || st.names.isSome)
  if st.most = some 0 then return (false, used)
  let (s, ending) ← iterate (([] : Bytes), ({ used } : State)) fun (partialLine, s) => do
    match ← read fd 32768 with
    | .error e => return .inr (s, .failed e)
    | .ok [] =>
      if partialLine.isEmpty then return .inr (s, LineEnd.finished)
      else match ← st.step name listing s partialLine with
        | .next s => return .inr (s, .finished)
        | .stop s => return .inr (s, .stopped [])
    | .ok piece =>
      let s := if !st.text && st.mark ≠ 0 && 0 ∈ piece then { s with binary := true } else s
      if s.binary && st.skipBinary then return .inr (s, .finished)
      let (lines, last) := splitLines piece st.mark
      match lines with
      | [] => return .inl (partialLine ++ last, s)
      | line :: rest =>
        match ← overLines (fun s line _ => st.step name listing s line) s
            ((partialLine ++ line) :: rest) with
        | (s, none) => return .inl (last, s)
        | (s, some left) => return .inr (s, .stopped (joinLines left st.mark ++ last))
  match ending with
  | .failed e => if st.silent then setStatus 2 else warnFile name e 2
  | .stopped ahead =>
    if fd = 0 then
      if st.quiet || st.names.isSome then let _ ← call (.seek 0 0 .finish)
      else giveBack 0 ahead
  | .finished => pure ()
  if st.count then putLine (st.nameFront name 0x3a ++ Bytes.ofNat s.selected)
  if let some with_ := st.names then
    if (s.selected > 0) = with_ then
      put (st.paint "35" (st.label name) ++ [if st.nul then 0 else Bytes.newline])
  if s.binary && listing && s.selected > 0 && !st.skipBinary then
    complain (st.label name ++ Bytes.ofString ": binary file matches")
  return (s.selected > 0, s.used)

/-! ## Arguments -/

def table : OptionTable :=
  .of "0123456789A:B:C:D:EFGHILPTUVX:abcd:e:f:hiLlm:noqRrsuvwxyZz"
    [("extended-regexp", .none, "E"), ("fixed-strings", .none, "F"), ("basic-regexp", .none, "G"),
     ("perl-regexp", .none, "P"), ("regexp", .required, "e"), ("file", .required, "f"),
     ("ignore-case", .none, "i"), ("no-ignore-case", .none, "noi"), ("word-regexp", .none, "w"),
     ("line-regexp", .none, "x"), ("null-data", .none, "z"), ("no-messages", .none, "s"),
     ("invert-match", .none, "v"), ("max-count", .required, "m"), ("byte-offset", .none, "b"),
     ("line-number", .none, "n"), ("line-buffered", .none, "lb"), ("with-filename", .none, "H"),
     ("no-filename", .none, "h"), ("label", .required, "label"), ("only-matching", .none, "o"),
     ("quiet", .none, "q"), ("silent", .none, "q"), ("binary-files", .required, "bf"),
     ("text", .none, "a"), ("directories", .required, "d"), ("recursive", .none, "r"),
     ("dereference-recursive", .none, "R"), ("include", .required, "include"),
     ("exclude", .required, "exclude"), ("files-without-match", .none, "L"),
     ("files-with-matches", .none, "l"), ("count", .none, "c"), ("initial-tab", .none, "T"),
     ("null", .none, "Z"), ("before-context", .required, "B"), ("after-context", .required, "A"),
     ("context", .required, "C"), ("color", .optional, "color"), ("colour", .optional, "color"),
     ("group-separator", .required, "separator"), ("no-group-separator", .none, "noseparator"),
     ("exclude-dir", .required, "exclude-dir"), ("exclude-from", .required, "exclude-from"),
     ("devices", .required, "D"), ("binary", .none, "U"), ("unix-byte-offsets", .none, "u")]

def usage {α : Type} (code : UInt8 := 2) : Util α := do
  let name := (← get).name
  report (Bytes.ofString "Usage: " ++ name ++ Bytes.ofString " [OPTION]... PATTERNS [FILE]...\n" ++
    Bytes.ofString "Try '" ++ name ++ Bytes.ofString " --help' for more information.\n")
  close code

inductive Syntax where
  | basic
  | extended
  | fixed
  /-- As the extended form, with more escapes. -/
  | rich
  deriving DecidableEq

/-- The way patterns are written that the options ask for; there can be only one. -/
def syntaxOf (a : Arguments) : Util Syntax := do
  match ((a.options.map (·.1)).filter ["E", "F", "G", "P"].contains).eraseDups with
  | [] => return .basic
  | ["E"] => return .extended
  | ["F"] => return .fixed
  | ["G"] => return .basic
  | ["P"] => return .rich
  | _ => failString "conflicting matchers specified" 2

def simplify : Bytes → Bytes
  | 0x5c :: 0x64 :: rest => Bytes.ofString "[0-9]" ++ simplify rest
  | 0x5c :: 0x44 :: rest => Bytes.ofString "[^0-9]" ++ simplify rest
  | 0x5c :: c :: rest => 0x5c :: c :: simplify rest
  | 0x28 :: 0x3f :: 0x3a :: rest => 0x28 :: simplify rest
  | b :: rest => b :: simplify rest
  | [] => []

def patternOf (form : Syntax) (s : Bytes) : Util Regex :=
  let parse (extended : Bool) (s : Bytes) : Util Regex := match Regex.parse extended true s with
    | .ok r => return r
    | .error e => failString e.message 2
  match form with
  | .fixed => return Regex.literal s
  | .basic => parse false s
  | .rich => parse true (simplify s)
  | .extended => do
    let r ← parse true s
    for repetition in Regex.looseRepetitions s do
      complain (Bytes.ofString s!"warning: {repetition} at start of expression")
    return r

def patternsOf (a : Arguments) : Util (List Regex × List Bytes) := do
  let mut sources := a.values "e"
  for file in a.values "f" do
    match ← openOperand file with
    | .error e => fail (because (Quoted.needed file) e) 2
    | .ok fd =>
      let (text, _) ← readAll fd
      sources := sources ++ linesOf text
  let (given, operands) ← match a.has "e" || a.has "f", a.operands with
    | true, os => pure (sources, os)
    | false, p :: os => pure ([p], os)
    | false, [] => usage
  let form ← syntaxOf a
  let patterns ← (given.flatMap (Bytes.split (· == Bytes.newline))).mapM (patternOf form)
  return (patterns, operands)

/-- The number of an option: negative ones and ones that are too large are no limit. -/
def contextOf (a : Arguments) (key : String) : Util (Option Nat) :=
  match a.value? key with
  | none => return none
  | some s => match Amount.parse s [] with
    | .ok n => return some n
    | .error .tooLarge => return some Amount.limit
    | .error _ => fail (s ++ Bytes.ofString ": invalid context length argument") 2

def mostOf (a : Arguments) : Util (Option Nat) :=
  match a.value? "m" with
  | none => return none
  | some s =>
    let negative := s.head? = some 0x2d
    match Amount.parse (if negative then s.drop 1 else s) [] with
    | .ok n => return if negative then none else some n
    | .error .tooLarge => return none
    | .error _ => failString "invalid max count" 2

inductive DirectoryUse where
  | read
  | recurse
  | skip
  deriving DecidableEq

def directoryUseOf (a : Arguments) : Util DirectoryUse := do
  let words := [["read"], ["recurse"], ["skip"]]
  match a.options.reverse.find? fun o => ["d", "r", "R"].contains o.1 with
  | some ("d", some word) =>
    match Arguments.groupOf? words word with
    | .ok 1 => return .recurse
    | .ok 2 => return .skip
    | .ok _ => return .read
    | .error what =>
      complain (Bytes.ofString s!"{what} argument " ++ Quoted.plain word ++
        Bytes.ofString " for '--directories'")
      report (Bytes.ofString "Valid arguments are:\n  - 'read'\n  - 'recurse'\n  - 'skip'\n")
      usage 1
  | some _ => return .recurse
  | none => return .read

/-- What the options ask for, when `several` operands are named. -/
def styleOf (a : Arguments) (patterns : List Regex) (several : Bool) : Util Style := do
  let digits := (a.options.map (·.1)).filter fun k => k.all Char.isDigit
  let context := (← contextOf a "C").or (String.join digits).toNat?
  let before := (← contextOf a "B").or context
  let after := (← contextOf a "A").or context
  let binary := a.value? "bf"
  let isBinary (word : String) : Bool := binary = some (Bytes.ofString word)
  if binary.isSome && !(["text", "without-match", "binary"].any isBinary) then
    failString "unknown binary-files type" 2
  let colored := a.value? "color"
  return {
    patterns, fold := a.last? ["i", "y", "noi"] != some "noi" && (a.has "i" || a.has "y")
    invert := a.has "v", word := a.has "w", line := a.has "x", count := a.has "c", quiet := a.has "q"
    most := ← mostOf a, only := a.has "o", names := (a.last? ["l", "L"]).map (· = "l")
    number := a.has "n", offset := a.has "b"
    named := match a.last? ["H", "h"] with
      | some k => k = "H"
      | none => several
    before := before.getD 0, after := after.getD 0
    separator := if (before.or after).isNone || a.has "noseparator" then none
      else some ((a.value? "separator").getD (Bytes.ofString "--"))
    mark := if a.has "z" then 0 else Bytes.newline, aligned := a.has "T"
    colored := ["always", "yes", "force"].any fun w => colored = some (Bytes.ofString w)
    standard := (a.value? "label").getD (Bytes.ofString "(standard input)")
    text := a.has "a" || isBinary "text", skipBinary := a.has "I" || isBinary "without-match"
    silent := a.has "s", nul := a.has "Z" }

/-! ## Files -/

/-- Whether a file is the one standard output goes to. -/
def isOutput (fd : Nat) : Util Bool := do
  match ← call (.fstat fd), ← call (.fstat 1) with
  | .ok a, .ok b => return a.kind = .file && a.ino = b.ino
  | _, _ => return false

def behindSlashes : Bytes → List Bytes
  | [] => []
  | b :: rest => if b = Bytes.slash then rest :: behindSlashes rest else behindSlashes rest

/-- Whether a name, or its last parts, match a pattern. -/
def matchesName (pattern name : Bytes) : Bool :=
  (name :: behindSlashes name).any (Pattern.isMatch (Letter.ofBytes pattern false))

/-- Whether the options leave out a file. -/
def leavesOut (a : Arguments) (name : Bytes) : Bool :=
  let included := a.values "include"
  (a.values "exclude").any (matchesName · name) ||
    (!included.isEmpty && !included.any (matchesName · name))

/-- Whether the options leave out a directory. -/
def leavesOutDirectory (a : Arguments) (name : Bytes) : Bool :=
  (a.values "exclude-dir").any (matchesName · name)

/-- The files below a directory, in the order they are met, at most `n` levels deep. -/
def below (a : Arguments) (path : Bytes) : Nat → Util (List Bytes)
  | 0 => return []
  | n + 1 => do
    match ← call (.list path) with
    | .error e => warnFile path e 2; return []
    | .ok names =>
      let mut out : List Bytes := []
      for name in names do
        let full := Path.append path name
        match ← call (.stat full false) with
        | .ok info =>
          if info.kind = .directory then
            if !leavesOutDirectory a name then out := out ++ (← below a full n)
          else if info.kind = .file then
            if !leavesOut a full then out := out ++ [full]
        | .error _ => pure ()
      return out

/-- Searches a file that is no directory to go into; whether a line was selected, and whether lines
have been shown. -/
def searchFile (style : Style) (file : Bytes) (used : Bool) : Util (Bool × Bool) := do
  match ← openOperand file with
  | .error e =>
    if style.silent then setStatus 2 else warnFile file e 2
    return (false, used)
  | .ok fd =>
    let shows := !(style.count || style.quiet || style.names.isSome) && style.most.all (1 < ·)
    let result ←
      if shows && (← isOutput fd) then do
        complain (style.label file ++ Bytes.ofString ": input file is also the output")
        setStatus 2
        pure (false, used)
      else style.search file fd used
    closeOperand fd
    return result

def grep (args : List Bytes) : Util UInt8 := do
  let a ← match Arguments.read table args with
    | .ok a => pure a
    | .error text =>
      complain text
      usage
  if a.has "u" then
    complain (Bytes.ofString "warning: --unix-byte-offsets (-u) is obsolete")
  let use_ ← directoryUseOf a
  let (patterns, named) ← patternsOf a
  let operands := if !named.isEmpty then named
    else if use_ = .recurse then [Bytes.ofString "."] else [dash]
  let style ← styleOf a patterns (operands.length > 1)
  let mut found := false
  let mut used := false
  for operand in operands do
    let isDirectory ← if operand = dash then pure false else
      match ← call (.stat operand true) with
      | .ok info => pure (info.kind == .directory)
      | .error _ => pure false
    let inside := isDirectory && use_ = .recurse
    let files ← if inside then do
        if leavesOutDirectory a operand then pure []
        else
          let files ← below a operand 100
          pure (if named.isEmpty then files.map fun f => (Bytes.after? (Bytes.ofString "./") f).getD f
            else files)
      else if isDirectory && use_ = .skip then pure []
      else if leavesOut a operand then pure []
      else pure [operand]
    let style := if inside && (a.last? ["H", "h"]).isNone then { style with named := true } else style
    for file in files do
      if !(style.quiet && found) then
        let (hit, shown) ← searchFile style file used
        found := found || hit
        used := shown
  if style.quiet && found then return 0
  let status := (← get).status
  return if status ≠ 0 then status else if found then 0 else 1

/-- `grep` with an option in front, under its own name. -/
def grepWith (option : String) (args : List Bytes) : Util UInt8 := do
  modify ({ · with name := Bytes.ofString "grep" })
  grep (Bytes.ofString option :: args)

end JobShell.Selection
