import JobShell.System.Ending

/-!
# The children of a process

The system keeps a child in its parent's table until the parent has collected it. `waitFor` asks for
one child, `waitAny` for the child that was started first among those that have ended.
-/

namespace JobShell

/-- A child that has not been collected. -/
structure Child where
  pid : Pid
  /-- How it ended; `none` while it runs. -/
  ending : Option Ending := none
  deriving DecidableEq, Repr

/-- The children not collected yet, in the order they were started. -/
abbrev Children := List Child

inductive WaitResult where
  /-- No such child. -/
  | absent
  /-- There is such a child, and none of them has ended. -/
  | alive
  /-- The child that has been collected, and how it ended. -/
  | collected (pid : Pid) (ending : Ending)
  deriving DecidableEq, Repr

namespace Children

def add (cs : Children) (pid : Pid) : Children := cs ++ [{ pid := pid }]

/-- Child `pid` ends. -/
def finish (cs : Children) (pid : Pid) (e : Ending) : Children :=
  cs.map fun c => if c.pid = pid ∧ c.ending = none then { c with ending := some e } else c

/-- Collects child `pid` if it has ended. -/
def waitFor (cs : Children) (pid : Pid) : WaitResult × Children :=
  match cs.find? (·.pid = pid) with
  | none => (.absent, cs)
  | some c =>
    match c.ending with
    | none => (.alive, cs)
    | some e => (.collected pid e, cs.filter (·.pid ≠ pid))

def waitAny (cs : Children) : WaitResult × Children :=
  if cs.isEmpty then (.absent, cs)
  else match cs.find? (·.ending.isSome) with
    | some ⟨pid, some e⟩ => (.collected pid e, cs.filter (·.pid ≠ pid))
    | _ => (.alive, cs)

end Children

end JobShell
