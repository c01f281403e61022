import JobShell.System.Children

/-!
# The job tracker

The tracker holds the process number of the foreground job and the number of background jobs whose
end has not been noticed. `Reap` is one pass over ended children, cut into its atomic steps: the
count is read once, then as many children are asked for, and the count is lowered after each child
that was collected. A child ended by a real-time signal uses up an attempt without lowering it.
-/

namespace JobShell

structure Tracker where
  foreground : Option Pid := none
  background : Nat := 0
  deriving DecidableEq, Repr

namespace Tracker

/-- Records the foreground job; number 0 stands for none. -/
def setForeground (t : Tracker) (pid : Pid) : Tracker :=
  { t with foreground := if pid = 0 then none else some pid }

def clearForeground (t : Tracker) : Tracker := { t with foreground := none }

def addBackground (t : Tracker) : Tracker := { t with background := t.background + 1 }

/-- Lowers the count, which is never negative; says whether it was lowered. -/
def releaseBackground (t : Tracker) : Bool × Tracker :=
  match t.background with
  | 0 => (false, t)
  | n + 1 => (true, { t with background := n })

end Tracker

/-- Where a pass over ended children stands. -/
inductive Reap where
  /-- The count has not been read. -/
  | start
  /-- Attempts still to make, and jobs released so far. -/
  | attempting (left reaped : Nat)
  /-- A child has been collected and the count not lowered for it. -/
  | releasing (left reaped : Nat)
  deriving DecidableEq, Repr

namespace Reap

def result? : Reap → Option Nat
  | attempting 0 reaped => some reaped
  | _ => none

/-- The next atomic step of a pass; a pass that is over stays as it is. -/
def step : Reap → Tracker → Children → Reap × Tracker × Children
  | start, t, cs => (attempting t.background 0, t, cs)
  | attempting 0 reaped, t, cs => (attempting 0 reaped, t, cs)
  | attempting (left + 1) reaped, t, cs =>
    match cs.waitAny with
    | (.collected _ e, cs') =>
      match e.status with
      | .ok _ => (releasing left reaped, t, cs')
      | .error _ => (attempting left reaped, t, cs')
    | (_, cs') => (attempting left reaped, t, cs')
  | releasing left reaped, t, cs =>
    match t.releaseBackground with
    | (true, t') => (attempting left (reaped + 1), t', cs)
    | (false, t') => (attempting left reaped, t', cs)

/-- Number of steps a pass takes at most from here, when nothing else touches the count. -/
def stepsLeft (t : Tracker) : Reap → Nat
  | start => 2 * t.background + 1
  | attempting left _ => 2 * left
  | releasing left _ => 2 * left + 1

def steps : Nat → Reap → Tracker → Children → Reap × Tracker × Children
  | 0, r, t, cs => (r, t, cs)
  | n + 1, r, t, cs =>
    let (r, t, cs) := r.step t cs
    steps n r t cs

/-- A whole pass with nothing in between: the jobs released, the tracker and the children left. -/
def run (t : Tracker) (cs : Children) : Nat × Tracker × Children :=
  let (r, t', cs') := steps (stepsLeft t start) start t cs
  (r.result?.getD 0, t', cs')

end Reap

end JobShell
