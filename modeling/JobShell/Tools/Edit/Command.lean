import JobShell.Text.Regex

/-!
# Commands of the stream editor

A script is a flat list of commands. A block is left by a jump over it, and branches go to positions
in the list.
-/

namespace JobShell.Edit

inductive Address where
  | line (n : Nat)
  | last
  /-- `none` stands for the expression used last. -/
  | match_ (r : Option Regex) (fold multiline : Bool)
  | step (first step : Nat)

inductive RangeEnd where
  | address (a : Address)
  | more (n : Nat)
  | multiple (n : Nat)

structure Selector where
  first : Option Address := none
  finish : Option RangeEnd := none
  /-- The range may end on the line it starts on. -/
  fromZero : Bool := false
  negated : Bool := false

inductive LetterCase where
  | lower
  | upper
  deriving DecidableEq

/-- A change of case: of all letters, and of the first one. -/
structure Recasing where
  all : Option LetterCase := none
  first : Option LetterCase := none

/-- A piece of a replacement: a text and then what a group has matched, both in the case asked for.
Group 0 is the whole match. -/
structure Piece where
  text : Bytes
  group : Option Nat
  recasing : Recasing

structure Substitution where
  /-- `none` stands for the expression used last. -/
  regex : Option Regex := none
  replacement : List Piece
  global : Bool := false
  print : Bool := false
  /-- The first match to replace. -/
  number : Option Nat := none
  fold : Bool := false
  multiline : Bool := false
  file : Option Bytes := none

inductive Action where
  | comment
  /-- The start of a block; what is not selected goes on at `past`. -/
  | block (past : Nat)
  | blockEnd
  | line
  | append (text : Bytes)
  | insert (text : Bytes)
  | change (text : Bytes)
  | delete
  | deleteFirst
  | getHold
  | appendHold
  | hold
  | holdAppend
  | exchange
  | list (width : Option Nat)
  | next
  | nextAppend
  | print
  | printFirst
  | quit (code : UInt8)
  | quitSilently (code : UInt8)
  | readFile (name : Bytes)
  | readLine (name : Bytes)
  | substitute (s : Substitution)
  | branch (label : Bytes)
  | branchIf (label : Bytes)
  | branchUnless (label : Bytes)
  | label (name : Bytes)
  | writeFile (name : Bytes)
  | writeFirst (name : Bytes)
  | transliterate (table : List (UInt8 × UInt8))
  | zap
  | fileName

structure Command where
  selector : Selector
  action : Action

def Command.written? (c : Command) : Option Bytes :=
  match c.action with
  | .writeFile name | .writeFirst name => some name
  | .substitute s => s.file
  | _ => none

/-- The label a command jumps to; the empty one is the end of the script. -/
def Command.jump? (c : Command) : Option Bytes :=
  match c.action with
  | .branch l | .branchIf l | .branchUnless l => some l
  | _ => none

/-- Whether a command is a label of this name. -/
def Command.isLabel (c : Command) (name : Bytes) : Bool :=
  match c.action with
  | .label n => n = name
  | _ => false

end JobShell.Edit
