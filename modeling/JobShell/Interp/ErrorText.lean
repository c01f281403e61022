import JobShell.Line.Command
import JobShell.System.Errno

/-!
# Failures and their texts

`LaunchFailure` is what goes wrong in a process forked for a job, which prints it and ends;
`Failure` is what goes wrong in the interpreter, which prints it unless it is a failed change of
directory.
-/

namespace JobShell

/-- A failed input or output operation: a system error, or a failure with a text of its own. -/
inductive IoFailure where
  | system (e : Errno)
  | other (text : String)
  deriving DecidableEq, Repr

def IoFailure.message : IoFailure → String
  | system e => e.description
  | other text => text

def IoFailure.nulInName : IoFailure := .other "file name contained an unexpected NUL byte"

inductive LaunchFailure where
  | system (e : Errno)
  | io (f : IoFailure)
  | nulInArgument
  | emptyCommand
  deriving DecidableEq, Repr

def LaunchFailure.message : LaunchFailure → String
  | system e => e.description
  | io f => f.message
  | nulInArgument => "argument contains a nul byte"
  | emptyCommand => "empty command"

inductive Failure where
  | changeDirectory (path : String) (e : Errno)
  | line (e : LineError)
  | launch (e : Errno)
  | output (f : IoFailure)
  deriving DecidableEq, Repr

def Failure.message : Failure → String
  | changeDirectory path e => s!"cannot change directory to {path}: {e.description}"
  | line e => e.message
  | launch e => e.description
  | output f => s!"cannot write output: {f.message}"

/-- A failed change of directory is only a result. -/
def Failure.isReported : Failure → Bool
  | changeDirectory _ _ => false
  | _ => true

def reportLine (message : String) : String := s!"error: {message}\n"

/-- An argument for a program, which may not hold a NUL. -/
def checkedArgument (s : Bytes) : Except LaunchFailure Bytes :=
  if 0 ∈ s then .error .nulInArgument else .ok s

end JobShell
