import JobShell.Interp.Launch
import JobShell.Proofs.Wiring.Holders
import JobShell.Proofs.Wiring.Moves

/-!
# A job while its processes are tied together

The processes of a job take turns in any order. A process that has executed its program is not given
turns any more: what it does from then on is its own business.

* `Wiring`: the system, with a record of what has been made for the job.
* `Wiring.run`: turns by a schedule.
* `Wiring.Connected`: a stage has executed its program with the descriptors it should have.
* `Wiring.Closed`: each pipe of the job has the one writer and the one reader it should have.
-/

namespace JobShell

/-- What a program finds at a descriptor that is executed by a process that has not changed it. -/
def Process.passes (p : Process) (fd : Nat) : Option Nat :=
  if fd ∈ p.closing then none else Table.get? p.descriptors fd

/-- A job while its processes are tied together. -/
structure Wiring where
  world : World
  leader : Pid
  made : Plumbing := {}
  /-- The processes that have executed a program. -/
  executed : List Pid := []

namespace Wiring

/-- The leader has just been forked. -/
def start (w : World) (leader : Pid) : Wiring := { world := w, leader }

/-- The processes of the job. -/
def members (j : Wiring) : List Pid := j.leader :: j.made.started

/-- The same job after a call of one of its processes, `ex` if it has executed a program. -/
def moved (j : Wiring) (pid : Pid) (w : World) (m : Plumbing) (ex : Bool) : Wiring :=
  { j with world := w, made := m, executed := if ex then pid :: j.executed else j.executed }

/-- One step of a process of the job. -/
def step (j : Wiring) (pid : Pid) : Wiring :=
  let w := j.world.takeSignals World.signalCount pid
  match w.process? pid with
  | none => { j with world := w }
  | some p =>
    if p.stopped then { j with world := w }
    else j.moved pid (w.advance p).1 (j.made.after w p) (w.executes p)

/-- What happens to the system is a step of that process. -/
theorem world_step (j : Wiring) (pid : Pid) : (j.step pid).world = (j.world.step pid).1 := by
  unfold step World.step
  dsimp only
  cases (j.world.takeSignals World.signalCount pid).process? pid with
  | none => rfl
  | some p =>
    dsimp only
    split <;> rfl

/-- A process is given a turn if it is one of the job and has not executed its program. -/
def turn (j : Wiring) (pid : Pid) : Wiring :=
  if pid ∈ j.members ∧ pid ∉ j.executed then j.step pid else j

/-- Processes are given turns in this order. -/
def run (j : Wiring) (schedule : List Pid) : Wiring := schedule.foldl turn j

/-- The process of a stage, if it has been started. The leader becomes the last. -/
def stage? (j : Wiring) (pl : Pipeline) (k : Nat) : Option Pid :=
  if k + 1 = pl.stages.length then some j.leader else j.made.started[k]?

/-- What stage `k` is to read from, with leader `p` at the start. -/
def input (j : Wiring) (pl : Pipeline) (p : Process) : Nat → Option Nat
  | 0 => match pl.redirect with
    | some { kind := .input, .. } => j.made.opened.map Opened.file
    | _ => p.passes 0
  | k + 1 => j.made.pipes[k]?.map PipeEnds.read

/-- What stage `k` is to write to. -/
def output (j : Wiring) (pl : Pipeline) (p : Process) (k : Nat) : Option Nat :=
  if k + 1 = pl.stages.length then
    match pl.redirect with
    | none | some { kind := .input, .. } => p.passes 1
    | _ => j.made.opened.map Opened.file
  else j.made.pipes[k]?.map PipeEnds.write

/-- Stage `k` has executed its program with the descriptors it should have: `p` is the leader at its
start, and `w` the system then. -/
structure Connected (j : Wiring) (w : World) (p : Process) (pl : Pipeline) (k : Nat) (pid : Pid) :
    Prop where
  input : j.world.descriptor? pid 0 = j.input pl p k
  output : j.world.descriptor? pid 1 = j.output pl p k
  /-- The other descriptors are the interpreter's. -/
  others : ∀ fd, 2 ≤ fd → j.world.descriptor? pid fd = p.passes fd
  /-- The pipe before it and the pipe after it have been made. -/
  before : ∀ i, k = i + 1 → i < j.made.pipes.length
  after : k + 1 < pl.stages.length → k < j.made.pipes.length
  /-- It holds the read end of the pipe before it and the write end of the pipe after it, and no
  other end of a pipe of the job. -/
  reads : ∀ i e, j.made.pipes[i]? = some e → ∀ fd,
    j.world.Holds pid fd (.readEnd e.number) ↔ fd = 0 ∧ k = i + 1
  writes : ∀ i e, j.made.pipes[i]? = some e → ∀ fd,
    j.world.Holds pid fd (.writeEnd e.number) ↔ fd = 1 ∧ k = i
  /-- The redirection has been opened, and only the stage it is for holds it, at the stream it is
  for. -/
  redirect : ∀ r, pl.redirect = some r → ∃ file,
    j.made.opened = some { path := Bytes.ofString r.target, mode := Launch.openMode r.kind, file } ∧
    ∀ fd, j.world.descriptor? pid fd = some file ↔
      fd = r.kind.descriptor ∧ if r.kind = .input then k = 0 else k + 1 = pl.stages.length

/-- The pipes of a job all of whose stages have been executed. -/
structure Closed (j : Wiring) (w : World) (pl : Pipeline) : Prop where
  /-- There is a pipe between any two stages, and it is new. -/
  length : j.made.pipes.length + 1 = pl.stages.length
  distinct : (j.made.pipes.map PipeEnds.number).Nodup
  fresh : ∀ e ∈ j.made.pipes, w.nextPipe ≤ e.number
  /-- In the whole system, only stage `i` holds the write end of pipe `i`, once. -/
  writer : ∀ i e, j.made.pipes[i]? = some e → ∀ pid fd,
    j.world.Holds pid fd (.writeEnd e.number) ↔ j.stage? pl i = some pid ∧ fd = 1
  /-- Only the next stage holds its read end. -/
  reader : ∀ i e, j.made.pipes[i]? = some e → ∀ pid fd,
    j.world.Holds pid fd (.readEnd e.number) ↔ j.stage? pl (i + 1) = some pid ∧ fd = 0
  /-- Once stage `i` has ended, the next reads to the end of the file. -/
  ends : ∀ i e, j.made.pipes[i]? = some e → ∀ pid, j.stage? pl i = some pid → ∀ r,
    j.world.hasWriter e.number = true ∧ (j.world.finish pid r).hasWriter e.number = false
  /-- Once the next stage has ended, stage `i` is sent SIGPIPE. -/
  breaks : ∀ i e, j.made.pipes[i]? = some e → ∀ pid, j.stage? pl (i + 1) = some pid → ∀ r,
    j.world.hasReader e.number = true ∧ (j.world.finish pid r).hasReader e.number = false

/-- What is kept by a turn is kept by a run. -/
theorem run_induction {P : Wiring → Prop} (hstep : ∀ j pid, P j → P (j.turn pid)) {j : Wiring}
    (h : P j) (schedule : List Pid) : P (j.run schedule) := by
  induction schedule generalizing j with
  | nil => exact h
  | cons pid rest ih => exact ih (hstep j pid h)

/-- What happens to the system in a run is that some of the turns are steps of it. -/
theorem world_run (j : Wiring) (schedule : List Pid) :
    ∃ steps : List Pid, steps.Sublist schedule ∧
      (j.run schedule).world = steps.foldl (fun w pid => (w.step pid).1) j.world := by
  induction schedule generalizing j with
  | nil => exact ⟨[], .slnil, rfl⟩
  | cons pid rest ih =>
    obtain ⟨steps, hsub, hworld⟩ := ih (j.turn pid)
    change (j.run (pid :: rest)).world = _ at hworld
    unfold turn at hworld
    split at hworld
    · refine ⟨pid :: steps, hsub.cons_cons pid, ?_⟩
      rw [hworld, world_step]
      rfl
    · exact ⟨steps, hsub.cons pid, hworld⟩

end Wiring

end JobShell
