import JobShell.Tools.Arguments
import JobShell.Tools.Edit.Script
import JobShell.Text.Utf8

/-!
# Running editing scripts

`sed` reads lines into its pattern space, runs the script on it and prints it. The state holds the
pattern space, the hold space, the input that has been read ahead, and which ranges are open.
-/

namespace JobShell.Edit

open Util

/-- A line, or what has been made of one; whether it ends with its mark. -/
structure Space where
  text : Bytes := []
  complete : Bool := true

inductive Target where
  /-- The output of the editor: standard output, or the file that is edited. -/
  | main
  /-- Standard output, asked for by name. -/
  | standard
  | descriptor (fd : Nat)
  deriving DecidableEq

inductive Queued where
  | text (t : Bytes)
  | file (name : Bytes)

structure State where
  script : Array Command
  quiet : Bool
  /-- The byte that ends lines. -/
  mark : UInt8 := Bytes.newline
  /-- Columns of a line that `l` puts out. -/
  width : Nat := 70
  /-- Each file is edited by itself. -/
  separate : Bool := false
  inPlace : Option Bytes := none
  /-- The number told with complaints about the script as a whole. -/
  expressions : Nat := 0
  /-- Operands not opened yet. -/
  operands : List Bytes
  current : Option (Bytes × Nat) := none
  /-- Lines read and not used, and a last one that is not complete. -/
  ahead : List Bytes := []
  tail : Bytes := []
  pattern : Space := {}
  held : Space := {}
  number : Nat := 0
  /-- Whether a range is open, and the line it ends on when that is known. -/
  ranges : Table Nat (Option Nat) := []
  /-- Ranges from line 0 that have been opened. -/
  begun : List Nat := []
  /-- Whether a substitution has replaced something since the line was read. -/
  replaced : Bool := false
  last : Option Regex := none
  queue : List Queued := []
  /-- Files written to: descriptors by name. -/
  files : Table Bytes Nat := []
  /-- Files that lines are taken from: descriptors by name, and what has been read ahead. -/
  sources : Table Bytes (Option Nat × Bytes) := []
  /-- The output of an edited file. -/
  edited : Bytes := []
  /-- Where the last line lacks its mark. -/
  unended : List Target := []

abbrev Run (α : Type) : Type := StateT State (StateT Desk Prog) α

def util {α : Type} (u : Util α) : Run α := StateT.lift u

def repeat_ {σ α : Type} (s : σ) (body : σ → Run (σ ⊕ α)) : Run α := fun st =>
  Util.iterate (s, st) fun (s, st) => do
    match ← body s st with
    | (.inl s, st) => return .inl (s, st)
    | (.inr a, st) => return .inr (a, st)

def output (target : Target) (text : Bytes) : Run Unit := do
  let st ← get
  let text := if target ∈ st.unended then st.mark :: text else text
  set { st with unended := st.unended.filter (· ≠ target) }
  match target with
  | .descriptor fd =>
    let _ ← util (writeAll fd text)
  | _ =>
    if target = .main && st.inPlace.isSome && st.current.isSome then
      modify fun st => { st with edited := st.edited ++ text }
    else util (put text)

/-- Writes a line, without its mark if the input lacked it. -/
def outputLine (target : Target) (line : Space) : Run Unit := do
  let mark := (← get).mark
  output target (if line.complete then line.text ++ [mark] else line.text)
  unless line.complete do modify fun st => { st with unended := target :: st.unended }

def outputOwn (text : Bytes) : Run Unit := outputLine .main { text }

/-- Ends the editing of a file: its output takes its place. -/
def finishFile : Run Unit := do
  let st ← get
  match st.current with
  | none => pure ()
  | some (name, fd) =>
    util (closeOperand fd)
    match st.inPlace with
    | none => pure ()
    | some suffix =>
      let mode ← util (call (.stat name true))
      if !suffix.isEmpty then
        let backup := if 0x2a ∈ suffix then Bytes.replace [0x2a] (Path.baseName name) suffix else name ++ suffix
        let _ ← util (call (.rename name backup))
      let temporary := name ++ Bytes.ofString ".sedtemporary"
      match ← util (call (.open temporary .truncating 0o600)) with
      | .ok out =>
        let _ ← util (writeAll out st.edited)
        let _ ← util (call (.close out))
        let _ ← util (call (.rename temporary name))
        if let .ok info := mode then
          let _ ← util (call (.chmod name info.mode))
      | .error e => util (warn (because (Bytes.ofString "couldn't open temporary file " ++ temporary) e) 4)
      -- The next file starts afresh.
      modify fun st => { st with edited := [], unended := st.unended.filter (· ≠ .main) }
    modify ({ · with current := none })

/-- Opens a file; `-` is standard input except where files are edited in place. -/
def openInput (name : Bytes) : Run (Except Errno Nat) := do
  if (← get).inPlace.isSome then util (call (.open name .reading 0)) else util (openOperand name)

/-- Opens the next operand; whether there was one. -/
def openNext : Run Bool := do
  finishFile
  match (← get).operands with
  | [] => return false
  | name :: rest =>
    modify fun st => { st with operands := rest }
    if (← get).inPlace.isSome then
      match ← util (call (.stat name true)) with
      | .ok info =>
        if info.kind ≠ .file then
          util (warn (Bytes.ofString "couldn't edit " ++ name ++ Bytes.ofString ": not a regular file") 4)
          return true
      | .error _ => pure ()
    match ← openInput name with
    | .error e =>
      util (warn (because (Bytes.ofString "can't read " ++ name) e) 2)
      return true
    | .ok fd =>
      modify fun st => { st with current := some (name, fd), number := if st.separate then 0 else st.number }
      return true

/-- Reads on, into the lines read ahead; whether there is more to come. `across` allows the next
file. -/
def fill (across : Bool) : Run Bool := do
  match (← get).current with
  | none => if across then openNext else return false
  | some (name, fd) =>
    match ← util (Util.read fd 4096) with
    | .error e =>
      let name := if name = dash then Bytes.ofString "stdin" else name
      util (fail (because (Bytes.ofString "read error on " ++ name) e) 4)
    | .ok [] =>
      let st ← get
      if !st.tail.isEmpty then return false
      if across then openNext else return false
    | .ok piece =>
      let (lines, last) := splitLines piece (← get).mark
      modify fun st => match lines with
        | [] => { st with tail := st.tail ++ last }
        | line :: more => { st with ahead := st.ahead ++ ((st.tail ++ line) :: more), tail := last }
      return true

def ready (across : Bool) : Run Unit := repeat_ () fun _ => do
  if !(← get).ahead.isEmpty then return .inr ()
  else if ← fill across then return .inl () else return .inr ()

def readLine : Run (Option Space) := do
  ready true
  let st ← get
  match st.ahead with
  | line :: rest =>
    set { st with ahead := rest, number := st.number + 1 }
    return some { text := line }
  | [] =>
    if st.tail.isEmpty then return none
    else
      set { st with tail := [], number := st.number + 1 }
      return some { text := st.tail, complete := false }

def atLast : Run Bool := do
  let st ← get
  ready (!st.separate)
  let st ← get
  return st.ahead.isEmpty && st.tail.isEmpty

def meant (r : Option Regex) : Run Regex := do
  match r.or (← get).last with
  | some r =>
    modify fun st => { st with last := some r }
    return r
  | none =>
    let n := (← get).expressions
    util (failString s!"-e expression #{n}, char 0: no previous regular expression")

def subject (fold multiline : Bool) : Run Regex.Subject := do
  let st ← get
  return {
    text := st.pattern.text.toArray
    fold
    multiline := multiline && st.mark = Bytes.newline }

def matches_ (a : Address) : Run Bool := do
  match a with
  | .line n => return (← get).number = n
  | .last => atLast
  | .match_ r fold multiline =>
    let r ← meant r
    return (r.search (← subject fold multiline)).isSome
  | .step first step =>
    let n := (← get).number
    return n ≥ first && (n - first) % step = 0

/-- Whether a command is for the current line; opens and closes its range. -/
def selects (i : Nat) (s : Selector) : Run Bool := do
  match s.first, s.finish with
  | none, _ => return true
  | some a, none => matches_ a
  | some a, some finish =>
    let st ← get
    let open_ (ends : Option Nat) : Run Unit :=
      modify fun st => { st with ranges := Table.set st.ranges i ends }
    let close : Run Unit := modify fun st => { st with ranges := Table.erase st.ranges i }
    if s.fromZero && st.number ≤ 1 && i ∉ st.begun then
      modify fun st => { st with begun := i :: st.begun }
      open_ none
    match Table.get? (← get).ranges i with
    | some (some n) =>
      if st.number ≥ n then close
      return st.number ≤ n
    | some none =>
      match finish with
      | .address b =>
        if ← matches_ b then close
        return true
      | _ => return true
    | none =>
      if !(← matches_ a) then return false
      match finish with
      | .address (.line n) => if n > st.number then open_ (some n)
      | .address _ => open_ none
      | .more n => if n > 0 then open_ (some (st.number + n))
      | .multiple n =>
        if n > 0 && st.number % n ≠ 0 then open_ (some ((st.number / n + 1) * n))
      return true

def Recasing.apply (r : Recasing) (t : Bytes) : Bytes :=
  let letter (c : Option LetterCase) (b : UInt8) : UInt8 :=
    match c with
    | some .lower => Class.toLower b
    | some .upper => Class.toUpper b
    | none => b
  match t with
  | [] => []
  | b :: rest => letter (r.first.or r.all) b :: rest.map (letter r.all)

/-- The text that replaces a match. A change of the first letter that an empty group has no use for
goes to the next piece, unless that has one of its own. -/
def expand (ps : List Piece) (text : Array UInt8) (f : Regex.Found) : Bytes :=
  let span (a b : Nat) : Bytes := (text.extract a b).toList
  let matched : Nat → Bytes
    | 0 => span f.start f.stop
    | n => ((f.groups.get? n).map fun (a, b) => span a b).getD []
  let (out, _) := ps.foldl (fun (out, pending) p =>
    let recasing := { p.recasing with first := p.recasing.first.or pending }
    let front := recasing.apply p.text
    let recasing := if p.text.isEmpty then recasing else { recasing with first := none }
    match p.group with
    | none => (front :: out, none)
    | some n =>
      let t := matched n
      let pending := if t.isEmpty && p.recasing.first.isSome then recasing.first else none
      (recasing.apply t :: front :: out, pending))
    (([] : List Bytes), (none : Option LetterCase))
  out.reverse.flatten

/-- The text after substitution from position `i` on, backwards, and whether anything was replaced.
`before` is the end of the match before, `count` its number; `n` bounds the matches. -/
def substituteFrom (s : Substitution) (r : Regex) (subject : Regex.Subject) :
    Nat → Nat → Nat → Option Nat → List Bytes → List Bytes × Bool
  | 0, i, _, _, out => ((subject.text.extract i subject.text.size).toList :: out, false)
  | n + 1, i, count, before, out =>
    let rest (i : Nat) (out : List Bytes) := (subject.text.extract i subject.text.size).toList :: out
    let span (a b : Nat) : Bytes := (subject.text.extract a b).toList
    if i > subject.text.size then (out, false)
    else match r.search subject i with
    | none => (rest i out, false)
    | some f =>
      let out := span i f.start :: out
      if f.start = f.stop && before = some f.start then
        -- An empty match where the match before has ended does not count.
        substituteFrom s r subject n (f.start + 1) count none (span f.start (f.start + 1) :: out)
      else
        let count := count + 1
        let hit := count ≥ s.number.getD 1
        let out := (if hit then expand s.replacement subject.text f else span f.start f.stop) :: out
        if hit && !s.global then (rest f.stop out, true)
        else
          let (out, more) :=
            if f.start = f.stop then
              substituteFrom s r subject n (f.stop + 1) count none (span f.stop (f.stop + 1) :: out)
            else substituteFrom s r subject n f.stop count (some f.stop) out
          (out, hit || more)

def targetOf (name : Bytes) : Run Target := do
  if name = Bytes.ofString "/dev/stdout" then return .standard
  if name = Bytes.ofString "/dev/stderr" then return .descriptor 2
  return .descriptor ((Table.get? (← get).files name).getD 2)

def enqueue (item : Queued) : Run Unit := modify fun st => { st with queue := st.queue ++ [item] }

def flushQueue : Run Unit := do
  for item in (← get).queue do
    match item with
    | .text t => output .main t
    | .file name =>
      match ← util (openOperand (if name = Bytes.ofString "/dev/stdin" then dash else name)) with
      | .ok fd =>
        let (t, _) ← util (readAll fd)
        util (closeOperand fd)
        output .main t
      | .error _ => output .main []
  modify ({ · with queue := [] })

/-- Queues the next line of a file, with its mark if it has one. -/
def enqueueLine (name : Bytes) : Run Unit := do
  let (fd, ahead) ← match Table.get? (← get).sources name with
    | some source => pure source
    | none => do
      match ← util (openOperand (if name = Bytes.ofString "/dev/stdin" then dash else name)) with
      | .ok fd => pure (some fd, [])
      | .error _ => pure (none, [])
  let mark := (← get).mark
  let all ← match fd with
    | none => pure []
    | some fd => repeat_ ahead fun ahead => do
      if mark ∈ ahead then return .inr ahead
      match ← util (Util.read fd 4096) with
      | .ok [] => return .inr ahead
      | .error _ => return .inr ahead
      | .ok piece => return .inl (ahead ++ piece)
  let (line, rest) := Bytes.cut mark all
  modify fun st => { st with sources := Table.set st.sources name (fd, rest.getD []) }
  unless all.isEmpty do enqueue (.text (if rest.isSome then line ++ [mark] else line))

def printPattern : Run Unit := do outputLine .main (← get).pattern

def firstLine : Run Space := do
  let st ← get
  match Bytes.cut st.mark st.pattern.text with
  | (line, some _) => return { text := line }
  | (_, none) => return st.pattern

def endCycle : Run Unit := do
  unless (← get).quiet do printPattern
  flushQueue

/-- The pattern space in the form of `l`: escapes, lines folded at `width`, `$` at the end. -/
def listing (width : Nat) (t : Bytes) : Bytes :=
  let piece (b : UInt8) : Bytes :=
    if b = 0x5c then [0x5c, 0x5c]
    else match Quoted.controlLetter? b with
      | some c => [0x5c, c]
      | none => if Quoted.isPrintable b then [b] else 0x5c :: Quoted.octal b
  let (out, _) := t.foldl (fun (out, column) b =>
    let p := piece b
    if width > 0 && column + p.length > width - 1 then (p :: [0x5c, 0x0a] :: out, p.length)
    else (p :: out, column + p.length)) (([] : List Bytes), 0)
  out.reverse.flatten ++ [0x24]

inductive After where
  | go (i : Nat)
  /-- The cycle is over. -/
  | cycle
  /-- The cycle is over and nothing is printed. -/
  | drop
  /-- The next cycle keeps the pattern space. -/
  | again
  | quit (code : UInt8)
  | quitSilently (code : UInt8)

/-- The position of a label; the end of the script for the empty one. -/
def position (script : Array Command) (l : Bytes) : Nat :=
  if l.isEmpty then script.size else (script.findIdx? (·.isLabel l)).getD script.size

def Space.append (s : Space) (mark : UInt8) (t : Space) : Space :=
  { t with text := s.text ++ mark :: t.text }

/-- Carries out the command at position `i`. -/
def act (i : Nat) (c : Command) : Run After := do
  let st ← get
  let script := st.script
  let go : Run After := return .go (i + 1)
  match c.action with
  | .comment | .blockEnd | .block _ | .label _ => go
  | .line => outputOwn (Bytes.ofNat st.number); go
  | .append t => enqueue (.text t); go
  | .insert t => output .main t; go
  | .change t =>
    if c.selector.finish.isNone || c.selector.negated || (Table.get? st.ranges i).isNone then output .main t
    return .drop
  | .delete => return .drop
  | .deleteFirst =>
    match Bytes.cut st.mark st.pattern.text with
    | (_, some rest) =>
      set { st with pattern := { st.pattern with text := rest } }
      return .again
    | (_, none) => return .drop
  | .getHold => set { st with pattern := st.held }; go
  | .appendHold => set { st with pattern := st.pattern.append st.mark st.held }; go
  | .hold => set { st with held := st.pattern }; go
  | .holdAppend => set { st with held := st.held.append st.mark st.pattern }; go
  | .exchange => set { st with held := st.pattern, pattern := st.held }; go
  | .list width => outputOwn (listing (width.getD st.width) st.pattern.text); go
  | .next =>
    if ← atLast then
      -- Without a next line the pattern space is still printed.
      return .quit 0
    endCycle
    match ← readLine with
    | some l =>
      modify ({ · with pattern := l })
      go
    | none => return .quitSilently 0
  | .nextAppend =>
    flushQueue
    if ← atLast then return .quit 0
    match ← readLine with
    | some l =>
      modify fun st => { st with pattern := st.pattern.append st.mark l }
      go
    | none => return .quit 0
  | .print => printPattern; go
  | .printFirst => outputLine .main (← firstLine); go
  | .quit code => return .quit code
  | .quitSilently code => return .quitSilently code
  | .readFile name => enqueue (.file name); go
  | .readLine name => enqueueLine name; go
  | .substitute s =>
    let r ← meant s.regex
    let (out, replaced) :=
      substituteFrom s r (← subject s.fold s.multiline) (2 * st.pattern.text.length + 4) 0 0 none []
    if replaced then
      modify fun st => { st with
        pattern := { st.pattern with text := out.reverse.flatten }, replaced := true }
      if s.print then printPattern
      if let some name := s.file then outputLine (← targetOf name) (← get).pattern
    go
  | .branch l => return .go (position script l)
  | .branchIf l =>
    if st.replaced then
      set { st with replaced := false }
      return .go (position script l)
    else go
  | .branchUnless l =>
    if st.replaced then
      set { st with replaced := false }
      go
    else return .go (position script l)
  | .writeFile name => outputLine (← targetOf name) st.pattern; go
  | .writeFirst name => outputLine (← targetOf name) (← firstLine); go
  | .transliterate table =>
    let text := st.pattern.text.map fun b => (Table.get? table b).getD b
    set { st with pattern := { st.pattern with text } }
    go
  | .zap => set { st with pattern := { st.pattern with text := [] } }; go
  | .fileName => outputOwn ((st.current.map (·.1)).getD dash); go

/-- Runs the script from position `i` on. -/
def runFrom : Run After := repeat_ 0 fun i => do
  match (← get).script[i]? with
  | none => return .inr .cycle
  | some c =>
    let hit := (← selects i c.selector) != c.selector.negated
    if hit then
      match ← act i c with
      | .go j => return .inl j
      | r => return .inr r
    else match c.action with
      | .block past => return .inl past
      | _ => return .inl (i + 1)

/-- Cycles until the input ends or the script says so; the exit code. -/
def cycles : Run UInt8 := repeat_ false fun keep => do
  let more ← if keep then pure true else
    match ← readLine with
    | some l =>
      modify ({ · with pattern := l, replaced := false })
      pure true
    | none => pure false
  if !more then return .inr 0
  match ← runFrom with
  | .go _ | .cycle => endCycle; return .inl false
  | .drop => flushQueue; return .inl false
  | .again => flushQueue; return .inl true
  | .quit code =>
    endCycle
    return .inr code
  | .quitSilently code => return .inr code

def table : OptionTable :=
  .of "bsnrzuEe:f:l:i::V:hs"
    [("regexp-extended", .none, "E"), ("debug", .none, "debug"), ("in-place", .optional, "i"),
     ("expression", .required, "e"), ("file", .required, "f"), ("line-length", .required, "l"),
     ("null-data", .none, "z"), ("zero-terminated", .none, "z"), ("quiet", .none, "n"),
     ("posix", .none, "posix"), ("silent", .none, "n"), ("sandbox", .none, "sandbox"),
     ("separate", .none, "s"), ("unbuffered", .none, "u"), ("follow-symlinks", .none, "follow")]

def usage (name : String) : String := "\n".intercalate
  [s!"Usage: {name} [OPTION]... \x7bscript-only-if-no-other-script\x7d [input-file]...", "",
   "  -n, --quiet, --silent",
   "                 suppress automatic printing of pattern space",
   "      --debug",
   "                 annotate program execution",
   "  -e script, --expression=script",
   "                 add the script to the commands to be executed",
   "  -f script-file, --file=script-file",
   "                 add the contents of script-file to the commands to be executed",
   "  --follow-symlinks",
   "                 follow symlinks when processing in place",
   "  -i[SUFFIX], --in-place[=SUFFIX]",
   "                 edit files in place (makes backup if SUFFIX supplied)",
   "  -l N, --line-length=N",
   "                 specify the desired line-wrap length for the \x60l' command",
   "  --posix",
   "                 disable all GNU extensions.",
   "  -E, -r, --regexp-extended",
   "                 use extended regular expressions in the script",
   "                 (for portability use POSIX -E).",
   "  -s, --separate",
   "                 consider files as separate rather than as a single",
   "                 continuous long stream.",
   "      --sandbox",
   "                 operate in sandbox mode (disable e/r/w commands).",
   "  -u, --unbuffered",
   "                 load minimal amounts of data from the input files and flush",
   "                 the output buffers more often",
   "  -z, --null-data",
   "                 separate lines by NUL characters",
   "      --help     display this help and exit",
   "      --version  output version information and exit", "",
   "If no -e, --expression, -f, or --file option is given, then the first",
   "non-option argument is taken as the sed script to interpret.  All",
   "remaining arguments are names of input files; if no input files are",
   "specified, then the standard input is read.", ""]

def showUsage {α : Type} : Util α := do
  let name := (← get).name
  report (Bytes.ofString (usage (String.ofList (Utf8.decodeLossy name))))
  close 1

def failScript {α : Type} (e : ScriptError) : Util α :=
  let front : Bytes := match e.place with
    | none => []
    | some { source := .expression n, position } =>
      Bytes.ofString s!"-e expression #{n}, char {position}: "
    | some { source := .file name, position } =>
      Bytes.ofString "file " ++ name ++ Bytes.ofString s!" line {position}: "
  fail (front ++ e.message) e.code

/-- The parts of the script that options give, `n` of them expressions so far. -/
def scriptParts : Nat → List (String × Option Bytes) → Util (List Part)
  | _, [] => return []
  | n, (key, value) :: rest => do
    let value := value.getD []
    if key = "e" then
      return { source := .expression (n + 1), text := value } :: (← scriptParts (n + 1) rest)
    else if key = "f" then
      match ← openOperand value with
      | .error e => fail (because (Bytes.ofString "couldn't open file " ++ value) e) 4
      | .ok fd =>
        let (text, _) ← readAll fd
        closeOperand fd
        return { source := .file value, text } :: (← scriptParts n rest)
    else scriptParts n rest

def openWritten (script : List Command) : Util (Table Bytes Nat) :=
  (script.filterMap Command.written?).foldlM (fun files name => do
    if name = Bytes.ofString "/dev/stdout" || name = Bytes.ofString "/dev/stderr"
        || (Table.get? files name).isSome then return files
    match ← call (.open name .truncating 0o666) with
    | .ok fd => return Table.set files name fd
    | .error e => fail (because (Bytes.ofString "couldn't open file " ++ name) e) 4) []

/-- Columns for `l` as an option gives them; what is not a number is no limit. -/
def widthOf (value : Bytes) : Nat := (Bytes.toNat? (value.takeWhile Class.isDigit)).getD 0

def sed (args : List Bytes) : Util UInt8 := do
  let a ← match Arguments.read table args with
    | .ok a => pure a
    | .error text =>
      complain text
      showUsage
  let given ← scriptParts 0 a.options
  let (parts, operands) ← match given, a.operands with
    | [], [] => showUsage
    | [], script :: rest => pure ([{ source := .expression 1, text := script }], rest)
    | parts, operands => pure (parts, operands)
  let script ← match parse (a.has "E" || a.has "r") (a.has "sandbox") parts with
    | .ok script => pure script
    | .error e => failScript e
  let files ← openWritten script
  let inPlace := (a.options.find? (·.1 = "i")).map fun o => o.2.getD []
  if inPlace.isSome && operands.isEmpty then failString "no input files" 4
  let state : State :=
    { script := script.toArray
      quiet := a.has "n" || asksQuiet parts
      files
      mark := if a.has "z" then 0 else Bytes.newline
      width := ((a.value? "l").map widthOf).getD 70
      separate := a.has "s" || inPlace.isSome
      inPlace
      expressions := parts.countP fun p => match p.source with
        | .expression _ => true
        | .file _ => false
      operands := if operands.isEmpty then [dash] else operands }
  let (code, st) ← cycles state
  -- What was read and not used goes back, and a file that is being edited ends here.
  match st.inPlace, st.current with
  | some _, _ =>
    let _ ← finishFile st
  | none, some (_, 0) => giveBack 0 (joinLines st.ahead st.mark ++ st.tail)
  | none, _ => pure ()
  let status := (← get).status
  return if code ≠ 0 then code else status

end JobShell.Edit
