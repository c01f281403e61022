import JobShell.Table
import JobShell.System.Signal

/-!
# The signal state of a process

Which signals a process handles or ignores, which it holds back and which wait for it. A signal that
is raised twice before it is taken waits once. `Signals.next?` is the signal to be taken now.
-/

namespace JobShell

inductive Disposition where
  | default
  | ignored
  | handled
  deriving DecidableEq, Repr

/-- Dispositions, held back signals and waiting signals. -/
structure Signals where
  dispositions : Table Nat Disposition := []
  blocked : List Nat := []
  pending : List Nat := []
  deriving Repr

namespace Signals

/-- What is done with signal `n`. -/
def disposition (s : Signals) (n : Nat) : Disposition := (s.dispositions.get? n).getD .default

/-- The disposition of signal `n` changed. Ignoring a signal drops it if it waits. -/
def dispose (s : Signals) (n : Nat) (d : Disposition) : Signals :=
  { s with
    dispositions := s.dispositions.set n d
    pending := if d = .ignored then s.pending.filter (· ≠ n) else s.pending }

/-- Holds signal `n` back. -/
def block (s : Signals) (n : Nat) : Signals :=
  if n ∈ s.blocked then s else { s with blocked := n :: s.blocked }

/-- Lets signal `n` through again. -/
def unblock (s : Signals) (n : Nat) : Signals := { s with blocked := s.blocked.filter (· ≠ n) }

/-- A signal without effect: it is ignored, or its default effect is nothing. -/
def isDropped (s : Signals) (n : Nat) : Bool :=
  match s.disposition n with
  | .ignored => true
  | .handled => false
  | .default => Signal.effect n = .nothing

/-- Signal `n` sent to the process. One without effect waits only while it is held back. -/
def raise (s : Signals) (n : Nat) : Signals :=
  if s.isDropped n ∧ n ∉ s.blocked then s
  else if n ∈ s.pending then s
  else { s with pending := s.pending ++ [n] }

/-- The least waiting signal that is neither held back nor among those being handled. -/
def next? (s : Signals) (running : List Nat) : Option Nat :=
  (s.pending.filter fun n => n ∉ s.blocked && n ∉ running).min?

/-- Signal `n` taken from those that wait. -/
def take (s : Signals) (n : Nat) : Signals := { s with pending := s.pending.filter (· ≠ n) }

/-- The state of a process that another program replaces: what was handled is default again. -/
def onExec (s : Signals) : Signals :=
  { s with dispositions := s.dispositions.filter fun p => p.2 = .ignored }

/-- The state of a new process: nothing waits for it. -/
def onFork (s : Signals) : Signals := { s with pending := [] }

@[simp] theorem disposition_dispose (s : Signals) (n m : Nat) (d : Disposition) :
    (s.dispose n d).disposition m = if n = m then d else s.disposition m := by
  unfold dispose disposition
  by_cases h : n = m <;> simp [Table.get?_set, h]

theorem mem_blocked_block (s : Signals) (n m : Nat) :
    m ∈ (s.block n).blocked ↔ m = n ∨ m ∈ s.blocked := by
  unfold block; split <;> simp_all

theorem mem_blocked_unblock (s : Signals) (n m : Nat) :
    m ∈ (s.unblock n).blocked ↔ m ∈ s.blocked ∧ m ≠ n := by
  simp [unblock]

end Signals

end JobShell
