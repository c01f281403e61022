import JobShell.Interp.Machine
import JobShell.Interp.Options

/-!
# The read loop

The interpreter reads its standard input in pieces and evaluates it line by line. An interactive one
prints its prompt before each line and a newline at the end of the input. The end of the input, a
failed read and a line that asks for it end the loop with exit code 0. A failure that cannot be
reported ends it with exit code 101, unless standard error is closed.

`LoopState` is what the loop remembers. `LoopState.need` says what it does next: a step of its own, a
call of the system together with the state after each answer, or a line to evaluate.
-/

namespace JobShell

/-- What the loop does while no line is being evaluated. -/
inductive LoopStage where
  | prompting
  | reading
  /-- The input has ended within a line, which is the last one. -/
  | completing
  | evaluating
  /-- The input has ended. -/
  | closing
  | leaving (code : UInt8)
  /-- The interpreter has ended. -/
  | over
  deriving DecidableEq, Repr

structure LoopState where
  config : Config
  /-- What has been read and belongs to later lines. -/
  ahead : Bytes := []
  /-- The start of the line that is being read. -/
  line : Bytes := []
  stage : LoopStage := .prompting

inductive LoopNeed where
  /-- A step that needs nothing. -/
  | step (next : LoopState)
  /-- A text is printed; whether that succeeds does not matter. -/
  | print (text : Bytes) (next : LoopState)
  /-- A text is written to standard error. -/
  | report (text : Bytes) (next : Except Errno Nat → LoopState)
  /-- More of the input is read. -/
  | read (next : Except Errno Bytes → LoopState)
  | evaluate (line : Bytes) (next : LoopState)
  /-- The interpreter ends. -/
  | leave (code : UInt8) (next : LoopState)
  | nothing

namespace LoopState

/-- The exit code when a failure cannot be reported. -/
def crash : UInt8 := 101

def received (s : LoopState) : Except Errno Bytes → LoopState
  | .ok [] => { s with stage := if s.line.isEmpty then .closing else .completing }
  | .ok text => { s with ahead := text }
  | .error _ => { s with stage := .leaving 0 }

/-- The state after an attempt to report a failure; nobody expects a report on a descriptor that is
closed. The one call stands for those that write the parts of the line, each repeated after a short
count or an interruption: a report is short, and a short text is taken whole. -/
def reported (s : LoopState) : Except Errno Nat → LoopState
  | .ok _ | .error .EBADF => { s with stage := .prompting }
  | .error _ => { s with stage := .leaving crash }

/-- Reads on: a line is complete at its newline. -/
def readNeed (s : LoopState) : LoopNeed :=
  if s.ahead.isEmpty then .read s.received
  else match Bytes.cut Bytes.newline s.ahead with
    | (text, none) => .step { s with ahead := [], line := s.line ++ text }
    | (text, some rest) =>
      .evaluate (s.line ++ text) { s with ahead := rest, line := [], stage := .evaluating }

def concludeNeed (s : LoopState) : LineResult → LoopNeed
  | .next => .step { s with stage := .prompting }
  | .exit => .step { s with stage := .leaving 0 }
  | .failed f =>
    if f.isReported then .report (Bytes.ofString (reportLine f.message)) s.reported
    else .step { s with stage := .prompting }

/-- A text for whoever sits at the terminal, if there is one. -/
def tell (s : LoopState) (text : Bytes) (next : LoopState) : LoopNeed :=
  if s.config.interactive then .print text next else .step next

def need (s : LoopState) (result : LineResult) : LoopNeed :=
  match s.stage with
  | .prompting =>
    s.tell (Bytes.ofString (s.config.prompt ++ " ")) { s with stage := .reading }
  | .reading => s.readNeed
  | .completing => .evaluate s.line { s with line := [], stage := .evaluating }
  | .evaluating => s.concludeNeed result
  | .closing => s.tell [Bytes.newline] { s with stage := .leaving 0 }
  | .leaving code => .leave code { s with stage := .over }
  | .over => .nothing

end LoopState

structure ReadLoop extends LoopState where
  machine : Machine

namespace ReadLoop

/-- Number of bytes asked for in a read. -/
def pieceSize : Nat := 8192

def after (l : ReadLoop) (world : World) (s : LoopState) : ReadLoop :=
  { toLoopState := s, machine := { l.machine with world } }

/-- The loop after an attempt to print a text behind what is kept. -/
def printed (l : ReadLoop) (text : Bytes) (world : World) (s : LoopState) (r : Except Errno Unit) :
    ReadLoop :=
  { toLoopState := s
    machine := l.machine.after world (l.machine.shell.told text r) }

/-- One step of the loop while the interpreter rests; whether it got on. What standard output still
keeps when the interpreter leaves is written then. -/
def act (l : ReadLoop) (p : Process) (result : LineResult) : ReadLoop × Bool :=
  match l.need result with
  | .step s => ({ l with toLoopState := s }, true)
  | .print text s =>
    match l.machine.world.write p 1 (l.machine.shell.kept ++ text) with
    | .done world r => (l.printed text world s (r.map fun _ => ()), true)
    | _ => (l, false)
  | .report text next =>
    match l.machine.world.write p 2 text with
    | .done world r => (l.after world (next r), true)
    | _ => (l, false)
  | .read next =>
    match l.machine.world.read p 0 pieceSize with
    | .done world r => (l.after world (next r), true)
    | _ => (l, false)
  | .evaluate line s => ({ toLoopState := s, machine := l.machine.begin line }, true)
  | .leave code s =>
    match l.machine.flush p with
    | some world => (l.after (world.finish l.machine.pid (.exited code)) s, true)
    | none => (l, false)
  | .nothing => (l, false)

def step (l : ReadLoop) : ReadLoop × Bool :=
  match l.machine.step with
  | (m, .moved) => ({ l with machine := m }, true)
  | (m, .blocked) => ({ l with machine := m }, false)
  | (m, .gone) => ({ l with machine := m }, false)
  | (m, .resting r) =>
    match m.process? with
    | some p => { l with machine := m }.act p r
    | none => ({ l with machine := m }, false)

def steps : Nat → ReadLoop → ReadLoop × Bool
  | 0, l => (l, true)
  | n + 1, l =>
    match l.step with
    | (l, true) => if l.machine.yields then (l, true) else steps n l
    | (l, false) => (l, false)

/-- Turns of the interpreter and of the other processes until the interpreter has ended or nothing
can happen any more, at most `n`. -/
def run : Nat → ReadLoop → ReadLoop
  | 0, l => l
  | n + 1, l =>
    let (l, moved) := steps Machine.turn l
    if l.machine.process?.isNone then l
    else match l.machine.world.next? with
      | some world => run n { l with machine.world := world }
      | none => if moved then run n l else l

end ReadLoop

end JobShell
