import JobShell.Interp.ErrorText
import JobShell.System.Search

/-!
# The processes of a job

The leader of a job makes its group, undoes the interpreter's signal settings and opens the
redirection. It then forks a process for each stage but the last, ties each to the next by a pipe,
and becomes the last stage itself. Whatever fails in one of these processes is reported on its
standard error and ends that process alone, with exit code 1.
-/

namespace JobShell

/-- A piece of program that may fail before it executes anything. -/
abbrev Launch (α : Type) : Type := ExceptT LaunchFailure Prog α

namespace Launch

/-- A call whose error is the failure. -/
def attempt {α : Type} (p : Prog (Except Errno α)) : Launch α := ExceptT.mk do
  return (← p).mapError .system

/-- A call whose result does not matter. -/
def regardless {α : Type} (p : Prog α) : Launch Unit := ExceptT.mk do
  let _ ← p
  return .ok ()

/-- Permission bits of a file made by a redirection, before the mask. -/
def newFileBits : Nat := 0o666

def openMode : Redirect.Kind → OpenMode
  | .input => .reading
  | .truncate => .truncating
  | .append => .appending

/-- The file to be opened; its name may not hold a NUL. -/
def targetName (r : Redirect) : Except LaunchFailure Bytes :=
  let name := Bytes.ofString r.target
  if 0 ∈ name then .error (.io .nulInName) else .ok name

def redirect (r : Redirect) : Launch Unit := do
  let name ← ExceptT.mk (pure (targetName r))
  let fd ← attempt (.call (.open name (openMode r.kind) newFileBits))
  attempt (.call (.dup2 fd r.kind.descriptor))
  regardless (.call (.close fd))

/-- Executes the program of a stage; returns only the failure. -/
def execute (env : List Bytes) (stage : Stage) : Launch Empty := do
  let args ← ExceptT.mk (pure (stage.mapM fun a => checkedArgument (Bytes.ofString a)))
  match args with
  | [] => throw .emptyCommand
  | name :: _ => throw (.system (← ExceptT.lift (Search.run (Environment.get? env "PATH") name args env)))

/-- Reports the failure of a process, which then ends. The one call stands for those that write the
parts of the line, each repeated after a short count or an interruption: a report is short, and a short
text is taken whole. Nobody looks at how it goes. -/
def report (p : Launch Empty) : Prog UInt8 := do
  match ← p.run with
  | .error e =>
    let _ ← Prog.call (.write 2 (Bytes.ofString (reportLine e.message)))
    return 1
  | .ok never => nomatch never

/-- A stage that feeds the next one: its standard output is the pipe. -/
def upstream (env : List Bytes) (stage : Stage) (read write : Nat) : Prog UInt8 := report do
  regardless (.call (.close read))
  attempt (.call (.dup2 write 1))
  regardless (.call (.close write))
  execute env stage

/-- Starts a stage behind a pipe and makes the pipe the standard input of what follows. -/
def feed (env : List Bytes) (stage : Stage) : Launch Unit := do
  let (read, write) ← attempt (.call .pipe)
  let _ ← attempt (Prog.fork (upstream env stage read write))
  attempt (.call (.dup2 read 0))
  regardless (.call (.close read))
  regardless (.call (.close write))

def stages (env : List Bytes) : List Stage → Launch Empty
  | [] => throw .emptyCommand
  | [last] => execute env last
  | stage :: rest => do
    feed env stage
    stages env rest

def pipeline (env : List Bytes) (p : Pipeline) : Launch Empty := do
  match p.redirect with
  | some r => redirect r
  | none => pure ()
  stages env p.stages

def resetSignals : Prog Unit := do
  let _ ← Prog.call (.dispose Signal.interrupt .default)
  let _ ← Prog.call (.dispose Signal.child .default)
  let _ ← Prog.call (.dispose Signal.pipe .default)
  Prog.call (.unblock Signal.child)

def leader (env : List Bytes) (p : Pipeline) : Prog UInt8 := do
  let _ ← Prog.call (.setGroup 0 0)
  resetSignals
  report (pipeline env p)

end Launch

end JobShell
