import JobShell.Text.Version
import JobShell.Tools.Edit.Command
import JobShell.Tools.Edit.Delimited

/-!
# Reading editing scripts

A script comes in parts, one for each option that gives a piece of it. `parse` reads them in turn;
blocks and the texts of `a`, `i` and `c` may go on from one part to the next. An error is told with
the place the reader has come to.
-/

namespace JobShell.Edit

inductive Source where
  | expression (number : Nat)
  | file (name : Bytes)

structure Part where
  source : Source
  text : Bytes

/-- A place in a script: in an expression the bytes read, in a file the line. -/
structure Place where
  source : Source
  position : Nat

structure ScriptError where
  message : Bytes
  place : Option Place
  code : UInt8 := 1

structure Reader where
  /-- The part that is being read. -/
  part : Part
  rest : Bytes
  later : List Part
  extended : Bool
  /-- Commands that reach other files are refused. -/
  sandbox : Bool
  /-- Where the open blocks start, the innermost first. -/
  blocks : List Place := []

abbrev Read (α : Type) : Type := StateT Reader (Except ScriptError) α

namespace Reader

def place (r : Reader) : Place :=
  let read := r.part.text.length - r.rest.length
  match r.part.source with
  | .expression _ => { source := r.part.source, position := read }
  | .file _ => { source := r.part.source, position := (r.part.text.take read).count Bytes.newline + 1 }

end Reader

namespace Read

def failBytes {α : Type} (message : Bytes) : Read α := do
  throw { message, place := some (← get).place }

def fail {α : Type} (message : String) : Read α := failBytes (Bytes.ofString message)

def peek : Read (Option UInt8) := return (← get).rest.head?

def skip (n : Nat := 1) : Read Unit := modify fun r => { r with rest := r.rest.drop n }

def next? : Read (Option UInt8) := do
  let b ← peek
  skip
  return b

/-- The bytes at the front that satisfy `p`. -/
def while_ (p : UInt8 → Bool) : Read Bytes := do
  let r ← get
  let t := r.rest.takeWhile p
  set { r with rest := r.rest.drop t.length }
  return t

def blanks : Read Unit := do let _ ← while_ fun b => Class.isSpace b && b ≠ Bytes.newline

def number? : Read (Option Nat) := do return Bytes.toNat? (← while_ Class.isDigit)

/-- A number; no digits are zero. -/
def number : Read Nat := return (← number?).getD 0

/-- Goes on to the next part of the script, if there is one. -/
def nextPart : Read Bool := do
  let r ← get
  match r.later with
  | [] => return false
  | part :: later =>
    set { r with part, rest := part.text, later }
    return true

end Read

open Read

def takeDelimited (delimiter : UInt8) (kind : TextKind) (message : String) : Read Bytes := do
  match delimited delimiter kind (← get).rest with
  | .found t rest =>
    modify ({ · with rest })
    return t
  | .newline rest =>
    modify ({ · with rest })
    fail message
  | .missing =>
    modify ({ · with rest := [] })
    fail message

/-- A regular expression; the empty one is the one used last and takes no flags. -/
def regexOf (text : Bytes) (flagged : Bool) : Read (Option Regex) := do
  if text.isEmpty then
    if flagged then fail "cannot specify modifiers on empty regexp"
    return none
  match Regex.parse (← get).extended false (resolve .expression text) with
  | .ok r => return some r
  | .error .bareClass =>
    throw { message := Bytes.ofString Regex.ParseError.bareClass.message, place := none, code := 4 }
  | .error e => fail e.message

/-- Flags behind the expression of an address: no difference between cases, and lines in the text.
At most `n` bytes. -/
def addressFlags : Nat → Bool → Bool → Read (Bool × Bool)
  | 0, f, m => return (f, m)
  | n + 1, f, m => do
    blanks
    match ← peek with
    | some 0x49 => skip; addressFlags n true m
    | some 0x4d => skip; addressFlags n f true
    | _ => return (f, m)

def address? : Read (Option Address) := do
  match ← peek with
  | none => return none
  | some b =>
    if Class.isDigit b then
      let n ← number
      blanks
      if (← peek) = some 0x7e then
        skip
        blanks
        let step ← number
        return some (if step = 0 then .line n else .step n step)
      return some (.line n)
    else if b = 0x24 then
      skip
      return some .last
    else if b = 0x2f || b = 0x5c then
      skip
      let delimiter ← if b = 0x5c then do pure ((← next?).getD 0x0a) else pure b
      let text ← takeDelimited delimiter .expression "unterminated address regex"
      let (f, m) ← addressFlags (← get).rest.length false false
      return some (.match_ (← regexOf text (f || m)) f m)
    else return none

/-- The end of a range: an address, or `+` or `~` with a number. -/
def rangeEnd? : Read (Option RangeEnd) := do
  let counted (make : Nat → RangeEnd) : Read (Option RangeEnd) := do
    skip
    blanks
    return some (make (← number))
  match ← peek with
  | some 0x2b => counted .more
  | some 0x7e => counted .multiple
  | _ => return (← address?).map .address

def failPast {α : Type} (message : String) : Read α := do
  skip
  fail message

def selector : Read Selector := do
  let b ← peek
  if b = some 0x2b || b = some 0x7e then
    let _ ← rangeEnd?
    fail "invalid usage of +N or ~N as first address"
  let first ← address?
  blanks
  let mut s : Selector := { first }
  if first.isSome && (← peek) = some 0x2c then
    skip
    blanks
    match ← rangeEnd? with
    | none => failPast "unexpected \x60,'"
    | some finish => s := { s with finish := some finish }
    blanks
  match s.first, s.finish with
  | some (.line 0), some (.address (.match_ ..)) => s := { s with fromZero := true }
  | some (.line 0), _ => failPast "invalid usage of line address 0"
  | _, _ => pure ()
  if (← peek) = some 0x21 then
    skip
    blanks
    if (← peek) = some 0x21 then failPast "multiple \x60!'s"
    s := { s with negated := true }
  return s

/-- The end of a command: a newline, `;`, or what closes a block or starts a comment. -/
def endOfCommand : Read Unit := do
  blanks
  match ← peek with
  | none => pure ()
  | some 0x0a => skip
  | some 0x3b => skip
  | some 0x7d => pure ()
  | some 0x23 => pure ()
  | _ => failPast "extra characters after command"

/-- A text up to a newline without a backslash, collected backwards in `out`, and what follows it;
`none` if the part ends behind a backslash. -/
def textFrom (out : Bytes) : Bytes → Bytes × Option Bytes
  | [] => (out.reverse, some [])
  | [0x5c] => (out.reverse, none)
  | 0x5c :: c :: rest => textFrom (c :: 0x5c :: out) rest
  | b :: rest => if b = 0x0a then (out.reverse, some rest) else textFrom (b :: out) rest

/-- The lines of a text, from at most `n` parts. -/
def textLines : Nat → Read Bytes
  | 0 => return []
  | n + 1 => do
    let (t, rest) := textFrom [] (← get).rest
    modify ({ · with rest := rest.getD [] })
    let line := t ++ [Bytes.newline]
    if rest.isNone && (← nextPart) then return line ++ (← textLines n) else return line

/-- The text of `a`, `i` and `c`. -/
def text : Read Bytes := do
  blanks
  if (← peek).isNone then fail "expected \\ after \x60a', \x60c' or \x60i'"
  let opened := (← peek) = some 0x5c
  if opened then
    skip
    if (← peek) = some 0x0a then skip
    else if (← peek).isNone then
      if !(← nextPart) then return []
  let t ← textLines ((← get).later.length + 1)
  return unescaped (resolve .plain t)

def fileName : Read Bytes := do
  if (← get).sandbox then fail "e/r/w commands disabled in sandbox mode"
  blanks
  let name ← while_ (· ≠ 0x0a)
  if name.isEmpty then fail "missing filename in r/R/w/W commands"
  skip
  return name

def labelName : Read Bytes := do
  blanks
  while_ fun b => !Class.isSpace b && b ≠ 0x3b && b ≠ 0x7d

/-- The pieces of a replacement. `plain` is the text since the last piece, backwards, `now` the case
of the piece it belongs to and `next` that of the pieces behind it. -/
def pieces (plain : Bytes) (now next : Recasing) : Bytes → List Piece
  | [] => [{ text := plain.reverse, group := none, recasing := now }]
  | 0x5c :: c :: rest =>
    let piece (group : Option Nat) : Piece := { text := plain.reverse, group, recasing := now }
    let always (r : Recasing) : List Piece := piece none :: pieces [] r r rest
    match Char.ofNat c.toNat with
    | 'L' => always { all := some .lower }
    | 'U' => always { all := some .upper }
    | 'E' => always {}
    | 'l' => piece none :: pieces [] { next with first := some .lower } next rest
    | 'u' => piece none :: pieces [] { next with first := some .upper } next rest
    | _ =>
      if Class.isDigit c then piece (some (c.toNat - 0x30)) :: pieces [] next next rest
      else { piece none with text := (c :: plain).reverse } :: pieces [] next next rest
  | b :: rest =>
    if b = 0x26 then
      { text := plain.reverse, group := some 0, recasing := now } :: pieces [] next next rest
    else pieces (b :: plain) now next rest

def groupsOf : Regex → Nat
  | .cat r s | .alt r s => max (groupsOf r) (groupsOf s)
  | .times r _ _ => groupsOf r
  | .group n r => max n (groupsOf r)
  | _ => 0

/-- Flags of a substitution, at most `n`. -/
def substitutionFlags : Nat → Substitution → Read Substitution
  | 0, s => return s
  | n + 1, s => do
    blanks
    match ← peek with
    | none => return s
    | some b =>
      match Char.ofNat b.toNat with
      | '#' => return s
      | '\x7d' => return s
      | '\n' => skip; return s
      | ';' => skip; return s
      | 'i' => skip; substitutionFlags n { s with fold := true }
      | 'I' => skip; substitutionFlags n { s with fold := true }
      | 'm' => skip; substitutionFlags n { s with multiline := true }
      | 'M' => skip; substitutionFlags n { s with multiline := true }
      | 'g' =>
        skip
        if s.global then fail "multiple \x60g' options to \x60s' command"
        substitutionFlags n { s with global := true }
      | 'p' =>
        skip
        if s.print then fail "multiple \x60p' options to \x60s' command"
        substitutionFlags n { s with print := true }
      | 'w' =>
        skip
        return { s with file := some (← fileName) }
      | _ =>
        if !Class.isDigit b then failPast "unknown option to \x60s'"
        if s.number.isSome then failPast "multiple number options to \x60s' command"
        let k ← number
        if k = 0 then fail "number option to \x60s' command may not be zero"
        substitutionFlags n { s with number := some k }

def substitution : Read Action := do
  let unterminated := "unterminated \x60s' command"
  match ← next? with
  | none => fail unterminated
  | some d =>
    let pattern ← takeDelimited d .expression unterminated
    let new ← takeDelimited d .replacement unterminated
    let replacement := pieces [] {} {} (resolve .replacement new)
    let s ← substitutionFlags ((← get).rest.length + 1) { replacement }
    let regex ← regexOf pattern (s.fold || s.multiline)
    let most := (replacement.filterMap (·.group)).foldl max 0
    if regex.any (groupsOf · < most) then fail s!"invalid reference \\{most} on \x60s' command's RHS"
    return .substitute { s with regex }

def transliteration : Read Action := do
  let unterminated := "unterminated \x60y' command"
  match ← next? with
  | none => fail unterminated
  | some d =>
    let side : Read Bytes := do
      let t := resolve .plain (← takeDelimited d .plain unterminated)
      return Bytes.replace [0x5c, 0x5c] [0x5c] t
    let a ← side
    let b ← side
    if a.length ≠ b.length then fail "strings for \x60y' command are different lengths"
    endOfCommand
    return .transliterate (a.zip b)

def action (s : Selector) (c : UInt8) : Read Action := do
  let plain (a : Action) : Read Action := do
    endOfCommand
    return a
  let code : Read UInt8 := do
    if s.finish.isSome then fail "command only uses one address"
    blanks
    return (← number).toUInt8
  match Char.ofNat c.toNat with
  | '#' =>
    if s.first.isSome then fail "comments don't accept any addresses"
    let _ ← while_ (· ≠ 0x0a)
    return .comment
  | '\x7b' =>
    modify fun r => { r with blocks := { r.place with position := match r.part.source with
      | .expression _ => 0
      | .file _ => r.place.position } :: r.blocks }
    return .block 0
  | '\x7d' =>
    match (← get).blocks with
    | [] => fail "unexpected \x60\x7d'"
    | _ :: blocks =>
      if s.first.isSome then fail "\x7d doesn't want any addresses"
      modify ({ · with blocks })
      plain .blockEnd
  | '=' => plain .line
  | 'a' => return .append (← text)
  | 'i' => return .insert (← text)
  | 'c' => return .change (← text)
  | 'd' => plain .delete
  | 'D' => plain .deleteFirst
  | 'g' => plain .getHold
  | 'G' => plain .appendHold
  | 'h' => plain .hold
  | 'H' => plain .holdAppend
  | 'x' => plain .exchange
  | 'l' =>
    blanks
    plain (.list (← number?))
  | 'n' => plain .next
  | 'N' => plain .nextAppend
  | 'p' => plain .print
  | 'P' => plain .printFirst
  | 'q' => plain (.quit (← code))
  | 'Q' => plain (.quitSilently (← code))
  | 'r' => return .readFile (← fileName)
  | 'R' => return .readLine (← fileName)
  | 's' => substitution
  | 'b' => return .branch (← labelName)
  | 't' => return .branchIf (← labelName)
  | 'T' => return .branchUnless (← labelName)
  | ':' =>
    if s.first.isSome then fail ": doesn't want any addresses"
    let name ← labelName
    if name.isEmpty then fail "\":\" lacks a label"
    return .label name
  | 'w' => return .writeFile (← fileName)
  | 'W' => return .writeFirst (← fileName)
  | 'y' => transliteration
  | 'z' => plain .zap
  | 'F' => plain .fileName
  | 'v' =>
    let version ← labelName
    if Version.compare version (Bytes.ofString "4.9") = .gt then fail "expected newer version of sed"
    plain .comment
  | _ => failBytes (Bytes.ofString "unknown command: \x60" ++ [c, 0x27])

/-- The commands of a script, at most `n`. -/
def commands : Nat → Read (List Command)
  | 0 => return []
  | n + 1 => do
    let _ ← while_ fun b => Class.isSpace b || b = 0x3b
    if (← peek).isNone then
      if ← nextPart then commands n
      else match (← get).blocks with
        | [] => return []
        | place :: _ => throw { message := Bytes.ofString "unmatched \x60\x7b'", place := some place }
    else
      let s ← selector
      match ← next? with
      | none => fail "missing command"
      | some c =>
        let act ← action s c
        return { selector := s, action := act } :: (← commands n)

/-- The position behind the end of the block that starts a list, `depth` blocks deep. -/
def pastBlock : Nat → Nat → List Command → Nat
  | i, _, [] => i
  | i, depth, c :: rest =>
    match c.action with
    | .block _ => pastBlock (i + 1) (depth + 1) rest
    | .blockEnd => if depth ≤ 1 then i + 1 else pastBlock (i + 1) (depth - 1) rest
    | _ => pastBlock (i + 1) depth rest

def withJumps : Nat → List Command → List Command
  | _, [] => []
  | i, c :: rest =>
    let c := match c.action with
      | .block _ => { c with action := .block (pastBlock (i + 1) 1 rest) }
      | _ => c
    c :: withJumps (i + 1) rest

/-- The complaint about a jump to a label that is not there. -/
def lostJump? (script : List Command) : Option ScriptError :=
  (script.filterMap Command.jump?).findSome? fun l =>
    if l.isEmpty || script.any (·.isLabel l) then none
    else some {
      message := Bytes.ofString "can't find label for jump to \x60" ++ l ++ [0x27]
      place := none
      code := 4 }

def parse (extended sandbox : Bool) (parts : List Part) : Except ScriptError (List Command) := do
  match parts with
  | [] => return []
  | part :: later =>
    let size := parts.foldl (fun n part => n + part.text.length + 1) 0
    let (cs, _) ← (commands (size + 1)).run { part, rest := part.text, later, extended, sandbox }
    match lostJump? cs with
    | some e => throw e
    | none => return withJumps 0 cs

/-- Whether a script asks for no output of its own accord: its first part starts with `#n`. -/
def asksQuiet (parts : List Part) : Bool :=
  (parts.head?.map (·.text)).any (Bytes.startsWith · (Bytes.ofString "#n"))

end JobShell.Edit
