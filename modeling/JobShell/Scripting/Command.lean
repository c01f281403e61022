import JobShell.Text.Class

/-!
# The command language

What a text in the command language says: words made of parts, redirections, and commands. Which
parts of a word were quoted is kept, since quoted text is neither split nor matched.
-/

namespace JobShell.Scripting

/-- What is done with the value of a parameter. `colon` says that an empty value counts as none. -/
inductive ParamOp where
  | plain
  | length
  | default (colon : Bool)
  | assign (colon : Bool)
  | require (colon : Bool)
  | alternative (colon : Bool)
  /-- Takes off what a pattern matches: at which end, and the longest or the shortest match. -/
  | trim (suffix longest : Bool)
  | bad
  deriving DecidableEq, Repr

inductive FileMode where
  | read
  | write
  /-- As `write`, even where files are not to be overwritten. -/
  | clobber
  | append
  | readWrite
  deriving DecidableEq, Repr

mutual

inductive Part where
  | text (s : Bytes) (quoted : Bool)
  | param (name : Bytes) (op : ParamOp) (word : List Part) (quoted : Bool)
  /-- The output of a command. -/
  | output (c : Cmd) (quoted : Bool)
  | arithmetic (w : List Part) (quoted : Bool)

inductive Redir where
  | file (fd : Nat) (mode : FileMode) (target : List Part)
  /-- A copy of the descriptor whose number the word gives; `-` closes. -/
  | copy (fd : Nat) (target : List Part)
  /-- The text with this number among those that stood in the lines after the command. -/
  | here (fd doc : Nat)

inductive Cmd where
  | simple (line : Nat) (assigns : List (Bytes × List Part)) (words : List (List Part))
      (redirs : List Redir)
  | pipeline (stages : List Cmd) (background : Bool)
  | not (c : Cmd)
  | and (a b : Cmd)
  | or (a b : Cmd)
  | seq (a b : Cmd)
  | background (line : Nat) (c : Cmd) (redirs : List Redir)
  | subshell (line : Nat) (c : Cmd) (redirs : List Redir)
  | redirected (line : Nat) (c : Cmd) (redirs : List Redir)
  | cond (test yes no : Cmd)
  | loop (negated : Bool) (test body : Cmd)
  | each (line : Nat) (name : Bytes) (words : List (List Part)) (body : Cmd)
  | choice (line : Nat) (subject : List Part) (branches : List (List (List Part) × Cmd))
  | define (name : Bytes) (line : Nat) (body : Cmd)
  | nothing

end

instance : Inhabited Cmd := ⟨.nothing⟩

abbrev Word := List Part

namespace Name

def isStart (b : UInt8) : Bool := Class.isAlpha b || b = 0x5f

def isByte (b : UInt8) : Bool := isStart b || Class.isDigit b

/-- Whether a text is a name. -/
def isName : Bytes → Bool
  | [] => false
  | b :: rest => isStart b && rest.all isByte

/-- The name before `=` and what follows, if a text starts like an assignment. -/
def assignment? (s : Bytes) : Option (Bytes × Bytes) :=
  let name := s.takeWhile isByte
  match s.drop name.length with
  | 0x3d :: value => if isName name then some (name, value) else none
  | _ => none

end Name

namespace Word

def plain? : Word → Option Bytes
  | [.text s false] => some s
  | _ => none

/-- Adds text behind the parts read so far, which stand in reverse. -/
def addText (s : Bytes) (quoted : Bool) (parts : Word) : Word :=
  match parts with
  | .text t q :: rest => if q = quoted then .text (t ++ s) q :: rest else .text s quoted :: parts
  | _ => .text s quoted :: parts

/-- The name and the value, if a word is an assignment. -/
def assignment? : Word → Option (Bytes × Word)
  | .text s false :: rest => (Name.assignment? s).map fun (name, value) =>
      (name, if value.isEmpty then rest else .text value false :: rest)
  | _ => none

def literal (w : Word) : Bytes :=
  w.flatMap fun
    | .text s _ => s
    | _ => []

end Word

end JobShell.Scripting
