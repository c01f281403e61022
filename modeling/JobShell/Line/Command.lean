import JobShell.Text.Blank
import JobShell.Text.Utf8
import JobShell.Line.Job

/-!
# Commands

A line is decoded, cut into words and classified: a built-in command of the interpreter, nothing to
do, or the words of a job. `Request.ofLine` puts the three together with `Job.ofWords`.
-/

namespace JobShell

/-- A command the interpreter carries out itself. -/
inductive Builtin where
  | exit
  | status
  /-- Change to the directory named, or to the home directory. -/
  | cd (target : Option String)
  deriving DecidableEq, Repr

inductive Command where
  | noop
  | builtin (b : Builtin)
  | execute (words : List String)
  deriving DecidableEq, Repr

/-- The words of a line: maximal runs of characters that are not blank. -/
def tokenize (line : String) : List String := (words line.toList).map String.ofList

/-- The built-in command that words ask for. `exit` and `status` take no argument. -/
def Builtin.ofWords? : List String → Option Builtin
  | ["exit"] => some .exit
  | ["status"] => some .status
  | "cd" :: rest => some (.cd rest.head?)
  | _ => none

/-- A word that starts a comment line. -/
def startsComment (word : String) : Bool := word.toList.head? = some '#'

/-- No word, or a comment in the first word, is nothing to do. -/
def Command.ofWords : List String → Command
  | [] => .noop
  | w :: rest =>
    if startsComment w then .noop
    else match Builtin.ofWords? (w :: rest) with
      | some b => .builtin b
      | none => .execute (w :: rest)

/-- Why a line is refused before anything is done for it. -/
inductive LineError where
  | malformed (e : MalformedJob)
  | notUtf8
  deriving DecidableEq, Repr

def LineError.message : LineError → String
  | malformed .emptyCommand => "empty command"
  | malformed .emptyStage => "empty command in pipeline"
  | notUtf8 => "input line is not valid UTF-8"

/-- A line that has been read completely. -/
inductive Request where
  | noop
  | builtin (b : Builtin)
  | launch (job : Job)
  deriving DecidableEq, Repr

/-- Decodes a line; ill-formed bytes are refused, never replaced. -/
def decodeLine (line : Bytes) : Except LineError String :=
  match Utf8.decodeString line with
  | some s => .ok s
  | none => .error .notUtf8

/-- What a decoded line asks for, its job read. -/
def Request.ofText (line : String) : Except LineError Request :=
  match Command.ofWords (tokenize line) with
  | .noop => .ok .noop
  | .builtin b => .ok (.builtin b)
  | .execute words =>
    match Job.ofWords words with
    | .ok job => .ok (.launch job)
    | .error e => .error (.malformed e)

def Request.ofLine (line : Bytes) : Except LineError Request := do
  Request.ofText (← decodeLine line)

end JobShell
