import JobShell.Scripting.Command

/-!
# The text commands are read from

`Source` is what is left of the text with the state of reading it, `Read` a reader. A command may
need more text than has arrived: then reading stops with `Refusal.more` and starts again when there
is more. A backslash before a newline joins two lines, except between single quotes.
-/

namespace JobShell.Scripting

/-- A token; a keyword is a word that stands where it counts as one. -/
inductive Token where
  | eof
  | newline
  | semicolon
  | background
  | andIf
  | orIf
  | pipe
  | openParen
  | closeParen
  | endCase
  /-- A redirection: what is known of it before its target is read. -/
  | redirection (make : Word → Redir)
  /-- The start of a text in the following lines; whether tabs are taken off their fronts. -/
  | hereText (fd : Nat) (tabs : Bool)
  | word (w : Word)
  | keyword (s : String)

inductive Refusal where
  /-- The text may go on. -/
  | more
  | wrong (line : Nat) (text : String)

structure HereText where
  id : Nat
  /-- The line that ends it. -/
  mark : Bytes
  /-- Whether the mark was quoted, so that nothing in the text is expanded. -/
  raw : Bool
  tabs : Bool

/-- An alias whose text is being read. -/
structure ActiveAlias where
  name : Bytes
  /-- Number of bytes left when its text has been read. -/
  left : Nat
  /-- Its text ends with a blank, so that the next word may be an alias, too. -/
  carriesOn : Bool

structure Source where
  rest : Bytes
  line : Nat := 1
  /-- Nothing can follow. -/
  closed : Bool := false
  /-- A token that has been put back. -/
  back : Option Token := none
  /-- Texts announced and not read yet. -/
  announced : List HereText := []
  /-- Texts read, by their numbers. -/
  texts : List (Nat × Word) := []
  nextText : Nat := 0
  aliases : List (Bytes × Bytes) := []
  active : List ActiveAlias := []
  /-- A word is read in which nothing is expanded. -/
  literal : Bool := false

abbrev Read (α : Type) : Type := StateT Source (Except Refusal) α

namespace Read

def fail {α : Type} (text : String) : Read α := do throw (.wrong (← get).line text)

def joinLines (line : Nat) : Bytes → Nat × Bytes
  | 0x5c :: 0x0a :: rest => joinLines (line + 1) rest
  | s => (line, s)

def raw : Read (Option UInt8) := do
  let s ← get
  match s.rest with
  | [] => if s.closed then return none else throw .more
  | b :: rest =>
    set { s with rest, line := if b = Bytes.newline then s.line + 1 else s.line }
    return some b

/-- The next byte, not taken, when lines have been joined. -/
def peek : Read (Option UInt8) := do
  let s ← get
  let (line, rest) := joinLines s.line s.rest
  set { s with line, rest }
  match rest with
  | [] => if s.closed then return none else throw .more
  | [0x5c] => if s.closed then return some 0x5c else throw .more
  | b :: _ => return some b

/-- Takes the next byte if it is `b`. -/
def accept (b : UInt8) : Read Bool := do
  if (← peek) = some b then
    let _ ← raw
    return true
  else return false

/-- The bytes at the front that satisfy `p`, at most `n`. -/
def takeWhile (p : UInt8 → Bool) : Nat → Read Bytes
  | 0 => return []
  | n + 1 => do
    match ← peek with
    | some b =>
      if p b then
        let _ ← raw
        return b :: (← takeWhile p n)
      else return []
    | none => return []

def horizon : Nat := Nat.pow 2 60

/-- The bytes as they stand up to the next one that is `stop`, which is taken, behind the bytes
`done`, which are backwards. -/
def untilByte (stop : UInt8) (failure : String) : Nat → Bytes → Read Bytes
  | 0, _ => fail failure
  | n + 1, done => do
    match ← raw with
    | none => fail failure
    | some b => if b = stop then return done.reverse else untilByte stop failure n (b :: done)

end Read

end JobShell.Scripting
