import JobShell.Interp.Launch
import JobShell.Interp.Shell
import JobShell.System.Schedule

/-!
# The interpreter among the processes

`Machine` is a world in which one process is the interpreter. Its children and its signals are those
the system has for that process; everything else it remembers is the `Shell`. `Machine.step` makes
one atomic step of the interpreter, `Machine.round` gives the interpreter and every other process a
turn.
-/

namespace JobShell

structure Machine where
  world : World
  shell : Shell
  /-- The process number of the interpreter. -/
  pid : Pid
  /-- The environment handed to programs. -/
  env : List Bytes
  /-- The leader of the latest job. -/
  leader : Option Pid := none

inductive Progress where
  /-- It can go on. -/
  | moved
  /-- It waits for a child or for its output to be taken. -/
  | blocked
  /-- It has no line to carry out; the result of the last one. -/
  | resting (result : LineResult)
  /-- The process has ended. -/
  | gone
  deriving DecidableEq, Repr

namespace Machine

def process? (m : Machine) : Option Process := m.world.process? m.pid

/-- The interpreter with the children and the signals that the system has for it. -/
def current (m : Machine) (p : Process) : Shell :=
  { m.shell with children := p.children, signals := p.signals }

/-- The machine after a step of the interpreter that leaves it as `s`. -/
def keep (m : Machine) (s : Shell) : Machine :=
  { m with
    shell := s
    world := m.world.modifyProcess m.pid fun p =>
      { p with children := s.children, signals := s.signals } }

/-- The machine after an action of the system, with the interpreter as `s` after it. The system
itself records new children. -/
def after (m : Machine) (world : World) (s : Shell) : Machine := { m with world, shell := s }

/-- The interpreter takes a signal: its handler starts, or the system does what the signal does to a
process that does not handle it. -/
def takeSignal? (m : Machine) (p : Process) : Option Machine :=
  let s := m.current p
  match s.deliver? with
  | some s => some (m.keep s)
  | none =>
    (s.signals.next? (s.handlers.map Handler.signal)).map fun n =>
      { m with world := m.world.takeSignal p n }

/-- Carries out what the interpreter needs next. What it writes is short, so that a count it is
answered is that of the whole text. -/
def act (m : Machine) (p : Process) : Machine × Progress :=
  match (m.current p).need with
  | .step s => (m.keep s, .moved)
  | .fork pipeline next =>
    let (pid, world) := m.world.fork p (Launch.leader m.env pipeline).run
    ({ m.after world (next pid) with leader := some pid }, .moved)
  | .group pid s => (m.after (m.world.setGroup p pid pid).1 s, .moved)
  | .write text next =>
    match m.world.write p 1 text with
    | .done world r => (m.after world (next (r.map fun _ => ())), .moved)
    | .wait _ => (m, .blocked)
    | .become world => (m.after world m.shell, .moved)
  | .changeDirectory path next =>
    if 0 ∈ path then (m.after m.world (next (.error .EINVAL)), .moved)
    else
      let (world, r) := m.world.chdir p path
      (m.after world (next r), .moved)
  | .send pid n s => (m.after (m.world.kill p pid n).1 s, .moved)
  | .leave => ({ m with world := m.world.finish m.pid (.exited 0) }, .gone)
  | .blocked => (m, .blocked)
  | .rest r => (m, .resting r)

/-- The world when standard output has written what it keeps, whether or not it could; `none` if that
has to wait. -/
def flush (m : Machine) (p : Process) : Option World :=
  if m.shell.kept.isEmpty then some m.world
  else match m.world.write p 1 m.shell.kept with
  | .done world _ => some world
  | _ => none

/-- One atomic step of the interpreter; a signal that can be taken comes first. -/
def step (m : Machine) : Machine × Progress :=
  match m.process? with
  | none => (m, .gone)
  | some p =>
    if p.stopped then (m, .blocked)
    else match m.takeSignal? p with
      | some m => (m, if m.process?.isSome then .moved else .gone)
      | none => m.act p

/-- The wait for the foreground job is over. A turn ends here: the interpreter has slept, and others
may go on before it clears its tracker. -/
def yields (m : Machine) : Bool :=
  match m.shell.phase, m.shell.handlers with
  | .collected _, [] => true
  | _, _ => false

def steps : Nat → Machine → Machine × Progress
  | 0, m => (m, .moved)
  | n + 1, m =>
    match m.step with
    | (m, .moved) => if m.yields then (m, .moved) else steps n m
    | r => r

/-- Number of steps the interpreter makes in its turn. -/
def turn : Nat := 1000

def begin (m : Machine) (line : Bytes) : Machine := { m with shell := m.shell.begin line }

/-- Turns of the interpreter and of the other processes, until the interpreter rests or has ended
and `done` holds, or nothing can happen any more; at most `n` turns. -/
def runUntil (done : World → Bool) : Nat → Machine → Machine × Progress
  | 0, m => (m, .blocked)
  | n + 1, m =>
    let (m, progress) := steps turn m
    let ended := match progress with
      | .resting _ => done m.world
      | .gone => done m.world
      | _ => false
    if ended then (m, progress)
    else match m.world.next?, progress with
      | some world, _ => runUntil done n { m with world }
      | none, .moved => runUntil done n m
      | none, _ => (m, progress)

def groupEnded (group : Pid) (w : World) : Bool := !w.hasGroup group

end Machine

end JobShell
