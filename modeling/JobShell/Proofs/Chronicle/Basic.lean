import JobShell.Interp.Shell

/-!
# Chronicles of sessions

A session gives lines to one interpreter while its children end and signals arrive.

* `Event`: what happens next. The order of events is free, so a list of events is one interleaving
  of the steps of the line, of the signal handlers, of the children's ends and of the signals.
* `Shell.next?`: the interpreter after an event, if the event can happen.
* `JobRecord`: what has become of one job; `Ledger`: the records of all jobs, the first one first.
* `Deed`: what an event means for the jobs.
* `Chronicle`: an interpreter and the ledger of the jobs it has launched; `Chronicle.run` is its
  course over a list of events.
-/

namespace JobShell

/-- Signal numbers are 1 to 64. -/
def Ending.IsPossible : Ending → Prop
  | exited _ => True
  | killed n => 1 ≤ n ∧ n ≤ 64

instance : DecidablePred Ending.IsPossible
  | .exited _ => inferInstanceAs (Decidable True)
  | .killed n => inferInstanceAs (Decidable (1 ≤ n ∧ n ≤ 64))

/-- Ended by one of the signals that have no name. -/
def Ending.byRealTime : Ending → Bool
  | exited _ => false
  | killed n => 32 ≤ n && n ≤ 64

/-- What happens next in a session. -/
inductive Event where
  /-- The interpreter, which rests, is given a line. -/
  | line (text : Bytes)
  /-- It makes its next step, to which nothing has to be answered. -/
  | move
  /-- Its fork gives this process. -/
  | forked (pid : Pid)
  /-- Its write or its change of directory is answered. -/
  | answered (r : Except Errno Unit)
  /-- It prints a text between two lines, and this is answered. -/
  | told (text : Bytes) (r : Except Errno Unit)
  /-- A child ends. -/
  | ended (pid : Pid) (e : Ending)
  /-- A signal is sent to it. -/
  | raised (n : Nat)
  /-- It takes the signal that is due. -/
  | taken
  deriving Repr

/-- A line that launches a job, up to the point where SIGCHLD is let through again. -/
def Event.launch (text : Bytes) (pid : Pid) : List Event :=
  [line text, move, forked pid, move, move, move]

namespace Shell

/-- The signal that is due is taken without effect: it is not handled, and it does not end the
interpreter. -/
def discard? (s : Shell) : Option Shell :=
  match s.signals.next? (s.handlers.map Handler.signal) with
  | some n =>
    if s.signals.disposition n = .handled then none
    else if s.signals.disposition n = .default ∧ Signal.effect n = .ends then none
    else some { s with signals := s.signals.take n }
  | none => none

/-- The interpreter after an event; `none` if the event cannot happen now. A forked process has a
positive number that none of the children in the table has. -/
def next? (s : Shell) : Event → Option Shell
  | .line text =>
    match s.need with
    | .rest _ => some (s.begin text)
    | _ => none
  | .move =>
    match s.need with
    | .step t => some t
    | .group _ t => some t
    | .send _ _ t => some t
    | _ => none
  | .forked pid =>
    match s.need with
    | .fork _ next =>
      if 0 < pid ∧ ∀ ch ∈ s.children, ch.pid ≠ pid then some (next pid) else none
    | _ => none
  | .answered r =>
    match s.need with
    | .write _ next => some (next r)
    | .changeDirectory _ next => some (next r)
    | _ => none
  | .told text r =>
    match s.need with
    | .rest _ => some (s.told text r)
    | _ => none
  | .ended pid e =>
    if { pid } ∈ s.children ∧ e.IsPossible then
      some { s with
        children := s.children.finish pid e
        signals := s.signals.raise Signal.child }
    else none
  | .raised n => some { s with signals := s.signals.raise n }
  | .taken => s.deliver?.or s.discard?

end Shell

/-- Who has collected a child. -/
inductive Collector where
  /-- The wait for the foreground job. -/
  | wait
  /-- The pass over ended children that follows a foreground job. -/
  | line
  /-- A pass of the handler. -/
  | handler
  deriving DecidableEq, Repr

/-- A job that has been launched. -/
structure JobRecord where
  leader : Pid
  background : Bool
  /-- The tracker has been told of it. -/
  noted : Bool := false
  /-- How its leader has ended. -/
  ending : Option Ending := none
  /-- Who has collected its leader. -/
  collectors : List Collector := []
  /-- The count has been lowered for it. -/
  released : Bool := false
  deriving DecidableEq, Repr

namespace JobRecord

/-- Its leader has not been collected. -/
def isLive (j : JobRecord) : Bool := j.collectors.isEmpty

/-- Its leader has been ended by a real-time signal. -/
def byRealTime (j : JobRecord) : Bool := j.ending.any Ending.byRealTime

/-- A background job that has been added and not been collected. -/
def isOutstanding (j : JobRecord) : Bool := j.background && j.noted && j.isLive

/-- A background job that has been collected with a status, and for which the count is still to be
lowered. -/
def isHeld (j : JobRecord) : Bool :=
  j.background && !j.isLive && !j.byRealTime && !j.released

/-- Such a job that `who` has collected. -/
def isHeldBy (j : JobRecord) (who : Collector) : Bool := j.isHeld && j.collectors = [who]

/-- The count has been lowered for it, if `who` has collected it and this was still to be done. -/
def release (who : Collector) (j : JobRecord) : JobRecord :=
  if j.isHeldBy who then { j with released := true } else j

/-- A background job that has been collected without a status. -/
def isStuck (j : JobRecord) : Bool := j.background && !j.isLive && j.byRealTime

/-- What the system has in its table for a job that has not been collected. -/
def child (j : JobRecord) : Child := { pid := j.leader, ending := j.ending }

end JobRecord

/-- What an event means for the jobs. -/
inductive Deed where
  | launched (leader : Pid) (background : Bool)
  /-- The tracker is told of a job. -/
  | noted (leader : Pid)
  | ended (leader : Pid) (e : Ending)
  | collected (who : Collector) (leader : Pid)
  /-- The count is lowered. -/
  | released (who : Collector)
  | nothing
  deriving DecidableEq, Repr

/-- Jobs in the order they were launched. Process numbers may come again after they have been
collected: a number stands for the latest job with it. -/
abbrev Ledger := List JobRecord

namespace Ledger

/-- Changes the latest record with this leader. -/
def amend (leader : Pid) (f : JobRecord → JobRecord) : Ledger → Ledger
  | [] => []
  | j :: rest =>
    if j.leader = leader ∧ ∀ k ∈ rest, k.leader ≠ leader then f j :: rest
    else j :: amend leader f rest

def record (jobs : Ledger) : Deed → Ledger
  | .launched leader background => jobs ++ [{ leader, background }]
  | .noted leader => jobs.amend leader fun j => { j with noted := true }
  | .ended leader e => jobs.amend leader fun j => { j with ending := some e }
  | .collected who leader =>
    jobs.amend leader fun j => { j with collectors := j.collectors ++ [who] }
  | .released who => jobs.map (·.release who)
  | .nothing => jobs

end Ledger

/-- What the next step of a pass means for the jobs. -/
def Reap.deed (pass : Reap) (who : Collector) (cs : Children) : Deed :=
  match pass with
  | start => .nothing
  | attempting 0 _ => .nothing
  | attempting (_ + 1) _ =>
    match cs.waitAny with
    | (.collected pid _, _) => .collected who pid
    | _ => .nothing
  | releasing _ _ => .released who

namespace Shell

/-- What the next step of the line means for the jobs. -/
def lineDeed (s : Shell) : Deed :=
  match s.phase with
  | .grouped _ pid => .noted pid
  | .waiting pid =>
    match s.children.waitFor pid with
    | (.collected _ _, _) => .collected .wait pid
    | _ => .nothing
  | .reaping pass _ => pass.deed .line s.children
  | _ => .nothing

/-- What an event means for the jobs. -/
def deed (s : Shell) : Event → Deed
  | .move =>
    match s.handlers with
    | [] => s.lineDeed
    | .reaping pass :: _ => pass.deed .handler s.children
    | _ => .nothing
  | .forked pid =>
    match s.phase with
    | .guarded job => .launched pid job.background
    | _ => .nothing
  | .ended pid e => .ended pid e
  | _ => .nothing

end Shell

/-- An interpreter and the jobs it has launched. -/
structure Chronicle where
  shell : Shell
  jobs : Ledger := []

namespace Chronicle

/-- An interpreter that has just started, with or without its signal handlers. -/
def start (handlers : Bool) (home : Option Bytes) : Chronicle :=
  { shell := { home, signals := if handlers then Signals.initial.install else Signals.initial } }

/-- The chronicle after an event. -/
def next? (c : Chronicle) (ev : Event) : Option Chronicle :=
  (c.shell.next? ev).map fun s => { shell := s, jobs := c.jobs.record (c.shell.deed ev) }

/-- The chronicle after events one after another. -/
def run (c : Chronicle) : List Event → Option Chronicle
  | [] => some c
  | ev :: rest => (c.next? ev).bind (·.run rest)

end Chronicle

end JobShell
