import JobShell.Interp.ErrorText
import JobShell.Interp.SignalControl
import JobShell.Interp.Tracker
import JobShell.Interp.Wait

/-!
# The evaluation of lines

`Shell` is the interpreter: what it remembers, its children and signals, the point it has reached in
a line, and the signal handlers that are running on top of it. It moves in atomic steps. `Shell.need`
says what the next step is: a step of its own, or an action of the system together with the state
after each answer. `Shell.deliver?` puts a handler on top when a handled signal can be taken; while
a handler runs, the line below it stands still and the signal it handles is held back.

A job is launched in this order: SIGCHLD is held back, the leader is forked and moved to a group of
its own, the job is noted in the tracker, SIGCHLD is let through, and then a foreground job is waited
for, taken off the tracker and followed by one pass over ended children, while the number of a
background job is printed.

Standard output is buffered: `Output.left` is what it keeps after an attempt to write.
-/

namespace JobShell

inductive LineResult where
  /-- The next line may follow. -/
  | next
  /-- The interpreter has been asked to end. -/
  | exit
  | failed (f : Failure)
  deriving DecidableEq, Repr

inductive Phase where
  /-- Between lines. -/
  | idle
  /-- A job is to be launched. -/
  | launching (job : Job)
  /-- SIGCHLD is held back. -/
  | guarded (job : Job)
  /-- The leader has been forked. -/
  | forked (job : Job) (leader : Pid)
  /-- The leader has been moved to a group of its own. -/
  | grouped (job : Job) (leader : Pid)
  /-- The job has been noted in the tracker. -/
  | noted (job : Job) (leader : Pid)
  /-- SIGCHLD is let through; the number of the background job is to be printed. -/
  | announcing (leader : Pid)
  /-- SIGCHLD is let through; the foreground job is waited for. -/
  | waiting (leader : Pid)
  /-- The wait is over; the tracker still has the job. -/
  | collected (result : Except Errno Status)
  /-- The tracker has no foreground job. -/
  | cleared (result : Except Errno Status)
  /-- The pass over ended children that follows a foreground job. -/
  | reaping (pass : Reap) (result : Except Errno Status)
  /-- The directory is to be changed. -/
  | changing (target : Bytes)
  /-- The last status is to be printed. -/
  | printing
  | finished (result : LineResult)

/-- The result of a line that ends with an attempt to print. Nobody expects output on a descriptor
that is closed. -/
def LineResult.ofWrite : Except Errno Unit → LineResult
  | .ok () => .next
  | .error e => if e = .EBADF then .next else .failed (.output (.system e))

/-! ## Standard output -/

namespace Output

/-- Number of bytes that standard output keeps at most. -/
def capacity : Nat := 1024

/-- Whether a text joins what is kept before anything is written: a newline alone if something is
kept, any other text if what is kept does not end a line. -/
def joins (kept text : Bytes) : Bool :=
  kept.length + text.length ≤ capacity &&
    if text = [Bytes.newline] then !kept.isEmpty else kept.getLast? ≠ some Bytes.newline

/-- What is kept after an attempt to write `kept` and `text` behind it. What could not be written
comes out in front of the next text that can be; a text that had not joined it is lost. -/
def left (kept text : Bytes) : Except Errno Unit → Bytes
  | .ok () => []
  | .error e => if e = .EBADF then [] else if joins kept text then kept ++ text else kept

end Output

inductive Handler where
  /-- SIGINT: a newline is to be written. -/
  | newline
  /-- SIGINT: the newline has been written. -/
  | interrupting
  /-- SIGINT: it is sent on to the foreground job. -/
  | forwarding (leader : Pid)
  /-- SIGINT without a foreground job: the interpreter ends. -/
  | leaving
  /-- SIGCHLD: the foreground job is to be looked at. -/
  | noticing
  /-- SIGCHLD without a foreground job: a pass over ended children. -/
  | reaping (pass : Reap)
  deriving DecidableEq, Repr

def Handler.signal : Handler → Nat
  | newline | interrupting | forwarding _ | leaving => Signal.interrupt
  | noticing | reaping _ => Signal.child

structure Shell where
  /-- The directory that `cd` without an argument goes to. -/
  home : Option Bytes := none
  tracker : Tracker := {}
  lastStatus : Status := default
  phase : Phase := .idle
  /-- Running handlers, the latest first. -/
  handlers : List Handler := []
  children : Children := []
  signals : Signals := Signals.initial
  /-- What standard output has been given and could not write. -/
  kept : Bytes := []

inductive Need where
  /-- A step that needs nothing. -/
  | step (next : Shell)
  /-- A fork; the answer is the number of the new process, which leads the pipeline. -/
  | fork (pipeline : Pipeline) (next : Pid → Shell)
  /-- A process is moved to a group of its own; whether that succeeds does not matter. -/
  | group (pid : Pid) (next : Shell)
  /-- A text is written to descriptor 1. -/
  | write (text : Bytes) (next : Except Errno Unit → Shell)
  | changeDirectory (path : Bytes) (next : Except Errno Unit → Shell)
  /-- A signal is sent; whether that succeeds does not matter. -/
  | send (pid : Pid) (signal : Nat) (next : Shell)
  /-- The interpreter ends at once with exit code 0. -/
  | leave
  /-- Nothing can be done until a child has ended. -/
  | blocked
  /-- There is no line to carry out. -/
  | rest (result : LineResult)

namespace Shell

def destination (s : Shell) : Option String → Option Bytes
  | some path => some (Bytes.ofString path)
  | none => s.home

def phaseOf (s : Shell) : Except LineError Request → Phase
  | .error e => .finished (.failed (.line e))
  | .ok .noop => .finished .next
  | .ok (.builtin .exit) => .finished .exit
  | .ok (.builtin .status) => .printing
  | .ok (.builtin (.cd target)) =>
    match s.destination target with
    | some path => .changing path
    | none => .finished .next
  | .ok (.launch job) => .launching job

def begin (s : Shell) (line : Bytes) : Shell := { s with phase := s.phaseOf (Request.ofLine line) }

def note (s : Shell) (job : Job) (leader : Pid) : Tracker :=
  if job.background then s.tracker.addBackground else s.tracker.setForeground leader

def concluded (s : Shell) (result : Except Errno Status) : Shell :=
  match result with
  | .ok status => { s with lastStatus := status, phase := .finished .next }
  | .error e => { s with phase := .finished (.failed (.launch e)) }

/-- An answer to the wait for the foreground job: the wait is over, or it is asked again. -/
def heard (s : Shell) (answer : WaitAnswer) : Shell :=
  match answer.verdict? with
  | some result => { s with phase := .collected result }
  | none => s

/-- The state after an attempt to print a line behind what is kept. -/
def written (s : Shell) (line : Bytes) (r : Except Errno Unit) : Shell :=
  { s with kept := Output.left s.kept line r, phase := .finished (.ofWrite r) }

/-- The state after an attempt to print a text between lines. -/
def told (s : Shell) (text : Bytes) (r : Except Errno Unit) : Shell :=
  { s with kept := Output.left s.kept text r }

def changed (s : Shell) (target : Bytes) : Except Errno Unit → Shell
  | .ok () => { s with phase := .finished .next }
  | .error e =>
    let path := String.ofList (Utf8.decodeLossy target)
    { s with phase := .finished (.failed (.changeDirectory path e)) }

/-- What the handler of SIGINT writes. In a process that is forked with it there is no foreground job,
so the process ends then. -/
def farewell : Bytes := [Bytes.newline]

def lineOf (text : String) : Bytes := Bytes.ofString text ++ [Bytes.newline]

/-- A line is printed. Standard output writes what it keeps and then the line, in two calls if the
line does not join the rest, and repeats a call that is interrupted; here all of it is one call. -/
def print (s : Shell) (line : Bytes) : Need := .write (s.kept ++ line) (s.written line)

def lineNeed (s : Shell) : Need :=
  match s.phase with
  | .idle => .rest .next
  | .finished r => .rest r
  | .launching job =>
    .step { s with signals := s.signals.block Signal.child, phase := .guarded job }
  | .guarded job =>
    .fork job.pipeline fun pid =>
      { s with children := s.children.add pid, phase := .forked job pid }
  | .forked job pid => .group pid { s with phase := .grouped job pid }
  | .grouped job pid => .step { s with tracker := s.note job pid, phase := .noted job pid }
  | .noted job pid =>
    .step { s with
      signals := s.signals.unblock Signal.child
      phase := if job.background then .announcing pid else .waiting pid }
  | .announcing pid => s.print (lineOf (toString pid))
  | .waiting pid =>
    match s.children.waitFor pid with
    | (.alive, _) => .blocked
    | (.absent, _) => .step (s.heard (.failed .ECHILD))
    | (.collected _ e, children) => .step ({ s with children }.heard (.ofEnding e))
  | .collected result =>
    .step { s with tracker := s.tracker.clearForeground, phase := .cleared result }
  | .cleared result => .step { s with phase := .reaping .start result }
  | .reaping pass result =>
    match pass.result? with
    | some _ => .step (s.concluded result)
    | none =>
      let (pass, tracker, children) := pass.step s.tracker s.children
      .step { s with tracker, children, phase := .reaping pass result }
  | .changing target => .changeDirectory target (s.changed target)
  | .printing => s.print (lineOf s.lastStatus.text)

/-- The next step of the handler on top, with `rest` below it. -/
def handlerNeed (s : Shell) (h : Handler) (rest : List Handler) : Need :=
  match h with
  | .newline => .write farewell fun _ => { s with handlers := .interrupting :: rest }
  | .interrupting =>
    match s.tracker.foreground with
    | some leader => .step { s with handlers := .forwarding leader :: rest }
    | none => .step { s with handlers := .leaving :: rest }
  | .forwarding leader => .send leader Signal.interrupt { s with handlers := rest }
  | .leaving => .leave
  | .noticing =>
    match s.tracker.foreground with
    | some _ => .step { s with handlers := rest }
    | none => .step { s with handlers := .reaping .start :: rest }
  | .reaping pass =>
    match pass.result? with
    | some _ => .step { s with handlers := rest }
    | none =>
      let (pass, tracker, children) := pass.step s.tracker s.children
      .step { s with tracker, children, handlers := .reaping pass :: rest }

def need (s : Shell) : Need :=
  match s.handlers with
  | [] => s.lineNeed
  | h :: rest => s.handlerNeed h rest

/-- The system refuses what a job needs first, a guard or a fork: the line fails, and a guard that
is held is dropped. -/
def refused? (s : Shell) (e : Errno) : Option Shell :=
  match s.handlers, s.phase with
  | [], .launching _ => some { s with phase := .finished (.failed (.launch e)) }
  | [], .guarded _ =>
    some { s with
      signals := s.signals.unblock Signal.child
      phase := .finished (.failed (.launch e)) }
  | _, _ => none

def handlerOf (n : Nat) : Handler := if n = Signal.interrupt then .newline else .noticing

/-- The signal to be taken now, if it is handled. -/
def takes? (s : Shell) : Option Nat :=
  match s.signals.next? (s.handlers.map Handler.signal) with
  | some n => if s.signals.disposition n = .handled then some n else none
  | none => none

def deliver? (s : Shell) : Option Shell :=
  s.takes?.map fun n =>
    { s with signals := s.signals.take n, handlers := handlerOf n :: s.handlers }

end Shell

end JobShell
