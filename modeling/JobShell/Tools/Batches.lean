import JobShell.Text.Class
import JobShell.Tools.Arguments

/-!
# Commands made from input

`xargs` reads items and runs a command with them, some at a time. `Items.read` cuts the input into
items, `batches` groups them, and `runBatches` runs the commands in turn.
-/

namespace JobShell.Batches

open Util

/-! ## Items -/

/-- An item, and the number of the line it ends on. -/
structure Item where
  text : Bytes
  line : Nat

/-- The reader of items: quotes, backslashes and blanks. -/
structure Items where
  /-- Only newlines end items. -/
  byLine : Bool
  /-- An item that ends the input. -/
  final : Option Bytes := none
  quote : Option UInt8 := none
  escaped : Bool := false
  /-- The item that is being read, backwards. -/
  open_ : Option Bytes := none
  line : Nat := 0
  /-- Items read, backwards. -/
  done : List Item := []
  ended : Bool := false
  /-- A quote that was open at the end of a line. -/
  unmatched : Option UInt8 := none

namespace Items

def finish (r : Items) : Items :=
  match r.open_ with
  | none => r
  | some t =>
    let text := t.reverse
    if r.final = some text then { r with open_ := none, ended := true }
    else { r with open_ := none, done := { text, line := r.line } :: r.done }

def push (r : Items) (b : UInt8) : Items := { r with open_ := some (b :: r.open_.getD []) }

/-- Reads one byte. A newline ends a line only behind an item, so a line that is empty does not count
and one that ends with a blank goes on in the next one. -/
def step (r : Items) (b : UInt8) : Items :=
  if r.ended || r.unmatched.isSome then r
  else if r.escaped then { r.push b with escaped := false }
  else match r.quote with
    | some q =>
      if b = q then { r with quote := none, open_ := some (r.open_.getD []) }
      else if b = Bytes.newline then { r with unmatched := some q }
      else r.push b
    | none =>
      if b = Bytes.newline then
        if r.open_.isSome then { r.finish with line := r.line + 1 } else r
      else if Class.isSpace b && (!r.byLine || r.open_.isNone) then r.finish
      else if b = 0x27 || b = 0x22 then { r with quote := some b }
      else if b = 0x5c then { r with escaped := true }
      else r.push b

def read (byLine : Bool) (final : Option Bytes) (text : Bytes) : List Item × Option UInt8 :=
  let r := text.foldl step { byLine, final }
  match r.unmatched.or r.quote with
  | none => (r.finish.done.reverse, none)
  | some q => (r.done.reverse, some q)

end Items

/-- Items that a byte ends; nothing else means anything. -/
def separated (mark : UInt8) (text : Bytes) : List Item :=
  let pieces := Bytes.split (· = mark) text
  let pieces := if pieces.getLast? = some [] then pieces.dropLast else pieces
  pieces.zipIdx.map fun (text, line) => { text, line }

/-! ## Batches -/

inductive Measure where
  | unlimited
  | items (n : Nat)
  | lines (n : Nat)

abbrev Batch := List Bytes

inductive Grouping where
  | finished
  /-- The input cannot be read on, for this reason; what is there is used up. -/
  | broken (reason : String)
  /-- A command got fewer items than it has to have. -/
  | tooMany

/-- Whether one more item may go into a batch with `count` items that started on line `first`. -/
def Measure.admits (m : Measure) (count first : Nat) (item : Item) : Bool :=
  match m with
  | .unlimited => true
  | .items n => count < n
  | .lines n => item.line < first + n

/-- Groups items, which are followed by `finish`. `room` is what the items of a command may take, each
with a byte behind it; `strict` forbids to close a batch for lack of room. `open_` is the batch that
is being filled, backwards. -/
def group (m : Measure) (room : Option Nat) (strict : Bool) (finish : Grouping) (open_ : List Item) :
    List Item → List Batch × Grouping
  | [] => (if open_.isEmpty then [] else [close open_], finish)
  | item :: rest =>
    let used := open_.foldl (fun n item => n + item.text.length + 1) 0
    let needs := item.text.length + 1
    let first := (open_.getLast?.map (·.line)).getD item.line
    if room.any (· < needs) then 
      (if open_.isEmpty then [] else [close open_], .broken "argument line too long")
    else if !m.admits open_.length first item then
      let (more, e) := group m room strict finish [item] rest
      (close open_ :: more, e)
    else if room.any (· < used + needs) then
      if strict then ([], .tooMany)
      else
        let (more, e) := group m room strict finish [item] rest
        (close open_ :: more, e)
    else group m room strict finish (item :: open_) rest
where
  close (items : List Item) : Batch := (items.map (·.text)).reverse

/-! ## Options -/

structure Style where
  measure : Measure := .unlimited
  /-- The text that an item takes the place of. -/
  replace : Option Bytes := none
  mark : Option UInt8 := none
  final : Option Bytes := none
  room : Option Nat := none
  strict : Bool := false
  file : Option Bytes := none
  evenIfEmpty : Bool := true
  traced : Bool := false
  asking : Bool := false

def table : OptionTable :=
  .of "+0a:d:E:e::I:i::L:l::n:oprP:s:tx"
    [("arg-file", .required, "a"), ("delimiter", .required, "d"), ("eof", .optional, "e"),
     ("exit", .none, "x"), ("interactive", .none, "p"), ("max-args", .required, "n"),
     ("max-chars", .required, "s"), ("max-lines", .optional, "l"), ("max-procs", .required, "P"),
     ("no-run-if-empty", .none, "r"), ("null", .none, "0"), ("open-tty", .none, "o"),
     ("replace", .optional, "i"), ("verbose", .none, "t")] false

/-- The number that an option gives; `least` is the smallest. -/
def number (option : String) (least : Nat) (value : Bytes) : Util Nat := do
  match Bytes.toInt? value with
  | some n =>
    if n < Int.ofNat least then
      misuseString s!"value {n} for -{option} option should be >= {least}"
    else return n.toNat
  | none =>
    misuse (Bytes.ofString "invalid number \"" ++ value ++ Bytes.ofString ("\" for -" ++ option ++ " option"))

/-- Warns that an option takes the effect of an earlier one away. -/
def overrides (earlier later ignored : String) : Util Unit :=
  complain (Bytes.ofString
    s!"warning: options {earlier} and {later} are mutually exclusive, ignoring previous {ignored} value")

def markOf (value : Bytes) : Util UInt8 := do
  let named : Option UInt8 := match value with
    | [b] => some b
    | [0x5c, c] =>
      match Char.ofNat c.toNat with
      | 'a' => some 0x07
      | 'b' => some 0x08
      | 'f' => some 0x0c
      | 'n' => some 0x0a
      | 'r' => some 0x0d
      | 't' => some 0x09
      | 'v' => some 0x0b
      | '0' => some 0
      | '\\' => some 0x5c
      | _ => none
    | 0x5c :: 0x78 :: digits => some ((Class.hexFront digits.length 0 digits).1).toUInt8
    | 0x5c :: digits => some ((Class.octalFront digits.length 0 digits).1).toUInt8
    | _ => none
  match named with
  | some b => return b
  | none => fail (Bytes.ofString "Invalid input delimiter specification " ++ value ++ Bytes.ofString
      ": the delimiter must be either a single character or an escape sequence starting with \\.")

def withReplace (s : Style) (pattern : Bytes) : Util Style := do
  match s.measure with
  | .items _ => overrides "--max-args" "--replace/-I/-i" "--max-args"
  | .lines _ => overrides "--max-lines" "--replace/-I/-i" "--max-lines"
  | .unlimited => pure ()
  return { s with replace := some pattern, measure := .unlimited }

def withLines (s : Style) (n : Nat) : Util Style := do
  if let .items _ := s.measure then overrides "--max-args" "-L" "--max-args"
  if s.replace.isSome then overrides "--replace" "-L" "--replace"
  return { s with measure := .lines n, replace := none }

def withItems (s : Style) (n : Nat) : Util Style := do
  if let .lines _ := s.measure then overrides "--max-lines" "--max-args/-n" "--max-lines"
  if s.replace.isSome then
    if n = 1 then return s
    overrides "--replace" "--max-args/-n" "--replace"
  return { s with measure := .items n, replace := none }

def applyOption (s : Style) (key : String) (value : Option Bytes) : Util Style := do
  let word := value.getD []
  match key with
  | "0" => return { s with mark := some 0 }
  | "a" => return { s with file := some word }
  | "d" => return { s with mark := some (← markOf word) }
  | "E" | "e" => return { s with final := if word.isEmpty then none else some word }
  | "I" => withReplace s word
  | "i" => withReplace s (value.getD (Bytes.ofString "\x7b\x7d"))
  | "L" => withLines s (← number "L" 1 word)
  | "l" => withLines s (← match value with | none => pure 1 | some w => number "l" 1 w)
  | "n" => withItems s (← number "n" 1 word)
  | "P" =>
    let _ ← number "P" 0 word
    return s
  | "p" => return { s with asking := true, traced := true }
  | "r" => return { s with evenIfEmpty := false }
  | "s" => return { s with room := some (← number "s" 1 word) }
  | "t" => return { s with traced := true }
  | "x" => return { s with strict := true }
  | _ => return s

/-! ## Running -/

/-- Runs a program and waits for it; how it ended, and the error if there was no process for it. Its
standard input is empty unless it is left alone. -/
def runAndWait (leaveInput : Bool) (words : List Bytes) : Util (Except Errno Ending) := do
  let d ← get
  flush
  let child : Prog UInt8 := do
    unless leaveInput do
      let _ ← Prog.call (.close 0)
      let _ ← Prog.call (.open (Bytes.ofString "/dev/null") .reading 0)
    match words with
    | [] => return 0
    | name :: _ =>
      let e ← Search.run (Environment.get? d.env "PATH") name words d.env
      let text := d.name ++ Bytes.ofString ": " ++ because name e ++ [Bytes.newline]
      let _ ← Prog.call (.write 2 text)
      return if e = .ENOENT then 127 else 126
  match ← StateT.lift (Prog.fork child) with
  | .error e => return .error e
  | .ok pid =>
    iterate () fun _ => do
      match ← call (.wait (some pid) true) with
      | .ok (some (_, ending)) => return .inr (.ok ending)
      | .ok none => return .inl ()
      | .error .EINTR => return .inl ()
      | .error e => return .inr (.error e)

/-- Runs commands in turn; the exit code they leave. -/
def runBatches (s : Style) (code : UInt8) : List Batch → Util UInt8
  | [] => return code
  | words :: rest => do
    let shown := Bytes.join [0x20] (words.map Quoted.asWord)
    if s.asking then
      report shown
      failString "failed to open /dev/tty for reading: No such device or address"
    if s.traced then report (shown ++ [Bytes.newline])
    let name := words.head?.getD []
    match ← runAndWait s.file.isSome words with
    | .ok (.exited 0) => runBatches s code rest
    | .ok (.exited 255) =>
      complain (name ++ Bytes.ofString ": exited with status 255; aborting")
      close 124
    | .ok (.exited 126) => close 126
    | .ok (.exited 127) => close 127
    | .ok (.exited _) => runBatches s 123 rest
    | .ok (.killed n) =>
      complain (name ++ Bytes.ofString s!": terminated by signal {n}")
      close 125
    | .error e => fail (because (Bytes.ofString "cannot fork") e)

def itemsOf (s : Style) : Util (List Item × Grouping) := do
  let input ← match s.file with
    | none => pure 0
    | some file =>
      match ← openOperand file with
      | .ok fd => pure fd
      | .error e => fail (because (Bytes.ofString "Cannot open input file " ++ Quoted.always file) e)
  let (text, _) ← readAll input
  closeOperand input
  match s.mark with
  | some mark => return (separated mark text, .finished)
  | none =>
    let (items, unmatched) := Items.read s.replace.isSome s.final text
    let finish : Grouping := match unmatched with
      | none => .finished
      | some q =>
        let kind := if q = 0x27 then "single" else "double"
        .broken s!"unmatched {kind} quote; by default quotes are special to xargs unless you use the -0 option"
    return (items, finish)

/-- Runs the commands that items make, which are followed by `finish`. -/
def runAll (s : Style) (commands : List Batch) (finish : Grouping) : Util UInt8 := do
  match finish with
  | .finished => runBatches s 0 commands
  | .tooMany => failString "argument list too long"
  | .broken reason =>
    let code ← runBatches s 0 commands.dropLast
    complain (Bytes.ofString reason)
    let _ ← runBatches s code (commands.drop (commands.length - 1))
    return 1

def xargs (args : List Bytes) : Util UInt8 := do
  let a ← arguments table args
  let s ← a.options.foldlM (fun s (key, value) => applyOption s key value) ({} : Style)
  let command := if a.operands.isEmpty then [Bytes.ofString "echo"] else a.operands
  let (items, finish) ← itemsOf s
  match s.replace with
  | some pattern =>
    runAll s (items.map fun i => command.map fun word => Bytes.replace pattern i.text word) finish
  | none =>
    let taken := command.foldl (fun n word => n + word.length + 1) 0
    if s.room.any (· < taken + 1) then
      failString "cannot fit single argument within argument list size limit"
    match items, finish with
    | [], .finished => if s.evenIfEmpty then runBatches s 0 [command] else return 0
    | items, finish =>
      let (batches, finish) := group s.measure (s.room.map (· - taken)) s.strict finish [] items
      runAll s (batches.map (command ++ ·)) finish

end JobShell.Batches
