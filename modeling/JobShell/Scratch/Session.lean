import JobShell.Scratch.Scene

/-!
# Sessions

A session gives lines to one interpreter, one after another, and reports after each what came of it:
its result, what was written, and what the interpreter remembers. Between lines a session may wait
for all background jobs, reap, or make a file.
-/

namespace JobShell

inductive SessionStep where
  /-- A line, with a limit on descriptors while it is evaluated. -/
  | line (text : Bytes) (limit : Option Nat)
  /-- Waits until all background jobs have ended, without collecting them. -/
  | settle
  | reap
  /-- Makes an empty file. -/
  | touch (path : Bytes)
  deriving Repr

inductive StepResult where
  | line (r : LineResult)
  | settled
  | reaped (n : Nat)
  | touched

structure StepReport where
  result : StepResult
  stdout : Bytes
  stderr : Bytes
  status : String
  background : Nat
  foreground : Option Pid
  cwd : Option Bytes

structure Session where
  scene : Scene
  /-- Leaders of the background jobs started so far. -/
  jobs : List Pid := []
  /-- Bytes of the captured output that have been reported. -/
  reportedOut : Nat := 0
  reportedErr : Nat := 0
  /-- Output left over for the next report. -/
  deferredOut : Bytes := []
  deferredErr : Bytes := []

namespace Session

variable (s : Session)

def machine : Machine := s.scene.machine

/-- Lets the interpreter and the other processes run until it rests and `done` holds. -/
def run (done : World → Bool) : Session × Progress :=
  let (m, progress) := s.machine.runUntil done Scene.horizon
  ({ s with scene.machine := m }, progress)

def limit (n : Nat) : Session :=
  { s with scene.machine.world := s.machine.world.modifyProcess s.machine.pid ({ · with limit := n }) }

/-- Number of descriptors a process may use when nothing else is said. -/
def usualLimit : Nat := 1024

/-- `content` without its first line that is `line`. -/
def dropLine (line content : Bytes) : Bytes :=
  Bytes.join [Bytes.newline] ((Bytes.split (· == Bytes.newline) content).erase line)

def newOutput (i : Ino) (reported : Nat) (deferred : Bytes) : Bytes :=
  deferred ++ (Scene.contentOf s.machine.world i).drop reported

/-- The report after a step, and the session with all output reported or, behind the number of a
background job, deferred. -/
def report (result : StepResult) (announced : Option Bytes) : StepReport × Session :=
  let w := s.machine.world
  let out := s.newOutput s.scene.stdout s.reportedOut s.deferredOut
  let err := s.newOutput s.scene.stderr s.reportedErr s.deferredErr
  let s := { s with
    reportedOut := (Scene.contentOf w s.scene.stdout).length
    reportedErr := (Scene.contentOf w s.scene.stderr).length }
  let tracker := s.machine.shell.tracker
  let cwd := s.machine.process?.bind fun p => (w.getcwd p).toOption
  let of (stdout stderr : Bytes) : StepReport :=
    { result, stdout, stderr, status := s.machine.shell.lastStatus.text
      background := tracker.background, foreground := tracker.foreground, cwd }
  match announced with
  | some number =>
    let shown := (Bytes.split (· == Bytes.newline) out).contains number
    (of (if shown then Bytes.ofString "<pid>\n" else []) [],
      { s with deferredOut := if shown then dropLine number out else out, deferredErr := err })
  | none => (of out err, { s with deferredOut := [], deferredErr := [] })

/-- Evaluates a line; the number of the job when it starts one in the background. -/
def line (text : Bytes) (limit : Option Nat) : LineResult × Option Bytes × Session :=
  let s := { s with scene.machine := { s.machine.begin text with leader := none } }
  let (s, progress) := (s.limit (limit.getD usualLimit)).run fun _ => true
  let s := s.limit usualLimit
  let result := match progress with
    | .resting r => r
    | _ => .exit
  let background := match Request.ofLine text with
    | .ok (.launch job) => job.background
    | _ => false
  match s.machine.leader with
  | none => (result, none, s)
  | some leader =>
    if background then (result, some (Bytes.ofInt leader), { s with jobs := leader :: s.jobs })
    else (result, none, (s.run (Machine.groupEnded leader)).1)

def reap : Nat × Session :=
  match s.machine.process? with
  | none => (0, s)
  | some p =>
    let (n, tracker, children) := Reap.run s.machine.shell.tracker p.children
    (n, { s with scene.machine := (s.machine.keep
      { s.machine.current p with tracker, children }) })

def touch (path : Bytes) : Session :=
  match s.machine.process? with
  | none => s
  | some p =>
    let w := s.machine.world
    match w.open_ { p with directory := .inode s.scene.root } path .truncating 0o666 with
    | (w, .ok fd) =>
      let w := match w.process? p.pid with
        | some q => (w.close q fd).1.modifyProcess p.pid ({ · with directory := p.directory })
        | none => w
      { s with scene.machine.world := w }
    | (_, .error _) => s

/-- Waits until all background jobs have ended. -/
def settle : Session :=
  let jobs := s.jobs
  (s.run fun w => jobs.all fun leader => Machine.groupEnded leader w).1

def step : SessionStep → StepReport × Session
  | .line text limit =>
    let (result, announced, s) := s.line (Scratch.fill text) limit
    s.report (.line result) announced
  | .settle => s.settle.report .settled none
  | .reap =>
    let (n, s) := s.reap
    s.report (.reaped n) none
  | .touch path => (s.touch path).report .touched none

def steps (s : Session) : List SessionStep → List StepReport × Session
  | [] => ([], s)
  | step :: rest =>
    let (report, s) := s.step step
    match report.result with
    | .line .exit => ([report], s)
    | _ =>
      let (reports, s) := steps s rest
      (report :: reports, s)

/-- A whole session: its reports, and what it leaves in the scratch directory when its jobs have
ended. -/
def play (programs : Table String Installed) (setup : Setup) (handlers : Bool)
    (given : List SessionStep) : List StepReport × List Scratch.Remnant :=
  let scene := Scene.of programs setup .file handlers
  let (reports, s) := steps { scene } given
  (reports, Scratch.changes setup.items s.settle.machine.world.tree scene.root)

end Session

end JobShell
