import JobShell.System.Signals

/-!
# The interpreter's use of signals

`install` makes the interpreter handle SIGINT and SIGCHLD. A guard holds SIGCHLD back until it is
dropped; guards are dropped in the reverse order, and dropping one lets SIGCHLD through whether or
not others are left. `resetInChild` is what a process forked for a job does first.
-/

namespace JobShell

namespace Signals

/-- The state of an interpreter that has just started: SIGPIPE is ignored. -/
def initial : Signals := { dispositions := [(Signal.pipe, .ignored)] }

/-- SIGINT and SIGCHLD are handled. -/
def install (s : Signals) : Signals :=
  (s.dispose Signal.interrupt .handled).dispose Signal.child .handled

/-- SIGINT, SIGCHLD and SIGPIPE have their default dispositions and SIGCHLD is let through. -/
def resetInChild (s : Signals) : Signals :=
  (((s.dispose Signal.interrupt .default).dispose Signal.child .default).dispose
    Signal.pipe .default).unblock Signal.child

end Signals

/-- A signal state and the number of guards that live. -/
structure Guarded where
  signals : Signals := Signals.initial
  guards : Nat := 0
  deriving Repr

inductive GuardStep where
  | install
  | block
  | unblock
  | resetInChild
  | ignoreInterrupt
  | nothing
  deriving DecidableEq, Repr

namespace Guarded

def hold (g : Guarded) : Guarded :=
  { signals := g.signals.block Signal.child, guards := g.guards + 1 }

def release (g : Guarded) : Guarded :=
  match g.guards with
  | 0 => g
  | n + 1 => { signals := g.signals.unblock Signal.child, guards := n }

def step (g : Guarded) : GuardStep → Guarded
  | .install => { g with signals := g.signals.install }
  | .block => g.hold
  | .unblock => g.release
  | .resetInChild => { g with signals := g.signals.resetInChild }
  | .ignoreInterrupt => { g with signals := g.signals.dispose Signal.interrupt .ignored }
  | .nothing => g

end Guarded

end JobShell
