import JobShell.Interp.Tracker
import JobShell.Interp.Wait

/-!
# Runs of the tracker

A run starts from a fresh tracker without children. Its steps change the tracker by hand, start
children, let them end, wait for them and reap them. Children are numbered from 0 as they are
started; each has the process number `firstPid` plus its number. Time passes only while a step waits
for a child: a child that sends interrupting signals first takes `interruptGap` milliseconds for each.
-/

namespace JobShell

structure ChildPlan where
  exit : UInt8 := 0
  /-- A signal it sends itself; if it survives, it exits. -/
  signal : Option Nat := none
  /-- It becomes the leader of a process group of its own. -/
  leader : Bool := false
  /-- It runs until it is told to finish. -/
  running : Bool := false
  /-- Interrupting signals it sends its parent before it ends. -/
  interrupts : Nat := 0
  deriving DecidableEq, Repr

def ChildPlan.ending (p : ChildPlan) : Ending :=
  match p.signal with
  | some n => if 1 ≤ n ∧ n ≤ 64 ∧ Signal.effect n = .ends then .killed n else .exited p.exit
  | none => .exited p.exit

/-- Milliseconds between the signals that a child sends its parent. -/
def interruptGap : Nat := 15

/-- Milliseconds from when the child is let go until it ends. -/
def ChildPlan.duration (p : ChildPlan) : Nat := interruptGap * p.interrupts

structure StartedChild where
  plan : ChildPlan
  /-- When it ends; none while it waits to be told to finish. -/
  due : Option Nat := none
  deriving Repr

inductive TrackerStep where
  | setForeground (pid : Pid)
  | clearForeground
  | addBackground
  | reap
  | spawn (plan : ChildPlan)
  | finish (child : Nat)
  | wait (child : Nat)
  deriving DecidableEq, Repr

inductive TrackerAnswer where
  | nothing
  | reaped (n : Nat)
  | spawned (leader : Bool)
  | waited (result : Except Errno Status)
  deriving Repr

/-- A tracker, the children of its process, and all children ever started. -/
structure TrackerRun where
  tracker : Tracker := {}
  children : Children := []
  started : List StartedChild := []
  /-- Milliseconds since the start. -/
  now : Nat := 0
  deriving Repr

namespace TrackerRun

def firstPid : Pid := 1000

def pidOf (i : Nat) : Pid := firstPid + i

/-- Time passes until `t`: children that are due by then end. -/
def advance (r : TrackerRun) (t : Nat) : TrackerRun :=
  let now := max r.now t
  { r with
    now
    children := r.started.zipIdx.foldl (fun cs (c, i) =>
      if c.due.any (· ≤ now) then cs.finish (pidOf i) c.plan.ending else cs) r.children }

/-- A new child; one that does not linger ends at once. -/
def spawn (r : TrackerRun) (plan : ChildPlan) : TrackerRun :=
  let due := if plan.running then none else some (r.now + plan.duration)
  let child : StartedChild := { plan, due }
  let r : TrackerRun := { r with
    children := r.children.add (pidOf r.started.length), started := r.started ++ [child] }
  r.advance r.now

/-- Child `i` ends as it is planned to, and time passes until it has. -/
def finish (r : TrackerRun) (i : Nat) : TrackerRun :=
  match r.started[i]? with
  | some c =>
    let due := c.due.getD (r.now + c.plan.duration)
    let told : StartedChild := { c with due := some due }
    { r with started := r.started.set i told }.advance due
  | none => r

/-- The answers to a wait for child `i`, which ends while it is waited for if it still runs. -/
def waitAnswers (r : TrackerRun) (i : Nat) : List WaitAnswer × TrackerRun :=
  let interrupted :=
    match r.children.find? (·.pid = pidOf i), r.started[i]? with
    | some ⟨_, none⟩, some c => List.replicate c.plan.interrupts (WaitAnswer.failed .EINTR)
    | _, _ => []
  let present : Bool := (r.children.find? (·.pid = pidOf i)).isSome
  let r := if present then r.finish i else r
  match r.children.waitFor (pidOf i) with
  | (.collected _ e, cs) => (interrupted ++ [.ofEnding e], { r with children := cs })
  | (_, cs) => (interrupted ++ [.failed .ECHILD], { r with children := cs })

def step (r : TrackerRun) : TrackerStep → TrackerAnswer × TrackerRun
  | .setForeground pid => (.nothing, { r with tracker := r.tracker.setForeground pid })
  | .clearForeground => (.nothing, { r with tracker := r.tracker.clearForeground })
  | .addBackground => (.nothing, { r with tracker := r.tracker.addBackground })
  | .reap =>
    let (n, tracker, children) := Reap.run r.tracker r.children
    (.reaped n, { r with tracker, children })
  | .spawn plan => (.spawned plan.leader, r.spawn plan)
  | .finish i => (.nothing, r.finish i)
  | .wait i =>
    let (answers, r) := r.waitAnswers i
    match await answers with
    | some (result, _) => (.waited result, r)
    | none => (.nothing, r)

end TrackerRun

end JobShell
