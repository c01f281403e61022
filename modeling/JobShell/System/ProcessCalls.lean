import JobShell.System.NameCalls

/-!
# Calls on processes

Waiting for children, sending signals, process groups and sleeping.
-/

namespace JobShell

namespace World

variable (w : World) (p : Process)

/-- Collects a child: the one asked for, or any. -/
def wait (which : Option Pid) (block : Bool) : Outcome (Except Errno (Option (Pid × Ending))) :=
  let (result, children) := match which with
    | some pid => p.children.waitFor pid
    | none => p.children.waitAny
  match result with
  | .absent => .done w (.error .ECHILD)
  | .alive => if block then .wait w else .done w (.ok none)
  | .collected pid e => .done (w.setProcess { p with children }) (.ok (some (pid, e)))

/-- Whether a number is that of a process, one that has ended and not been collected included. -/
def exists_ (pid : Pid) : Bool := (w.process? pid).isSome || (w.ended? pid).isSome

/-- The processes a number addresses: one process, the sender's group, all but the sender, or a
group. -/
def addressed (pid : Int) : List Pid :=
  if pid > 0 then if w.exists_ pid then [pid] else []
  else if pid = -1 then w.processes.keys.filter (· ≠ p.pid)
  else
    let group := if pid = 0 then p.group else -pid
    (w.processes.toList.filter (·.2.group = group)).map (·.1)

def kill (pid : Int) (signal : Nat) : World × Except Errno Unit :=
  if signal > 64 then (w, .error .EINVAL)
  else if pid = adopter then (w, .error .EPERM)
  else match w.addressed p pid with
    | [] => (w, .error .ESRCH)
    | pids => (if signal = 0 then w else pids.foldl (·.raise · signal) w, .ok ())

def hasGroup (group : Pid) : Bool := w.processes.any fun _ q => q.group = group

/-- Moves a process, oneself or a child that has not executed a program yet, to a group: an existing
one, or a new one of its own number. -/
def setGroup (pid group : Pid) : World × Except Errno Unit :=
  let pid := if pid = 0 then p.pid else pid
  let group := if group = 0 then pid else group
  if group < 0 then (w, .error .EINVAL)
  else match w.process? pid with
    | none => (w, .error (if p.children.any (·.pid = pid) then .EACCES else .ESRCH))
    | some q =>
      if pid ≠ p.pid && q.parent ≠ p.pid then (w, .error .ESRCH)
      else if pid ≠ p.pid && q.image ≠ p.image then (w, .error .EACCES)
      else if group ≠ pid && !w.hasGroup group then (w, .error .EPERM)
      else (w.setProcess { q with group }, .ok ())

/-- A process that does something else with SIGINT has no farewell any more. -/
def dispose (signal : Nat) (d : Disposition) : World × Except Errno Unit :=
  if signal = 0 || signal > 64 || signal = Signal.kill || signal = Signal.stop then
    (w, .error .EINVAL)
  else
    let farewell := if signal = Signal.interrupt then none else p.farewell
    (w.setProcess { p with signals := p.signals.dispose signal d, farewell }, .ok ())

/-- Sleeps until the time that the first attempt has fixed. -/
def sleep (nanos : Nat) : Outcome (Except Errno Unit) :=
  match p.wake with
  | none =>
    if nanos = 0 then .done w (.ok ())
    else .wait (w.setProcess { p with wake := some (w.clock + nanos) })
  | some t =>
    if t ≤ w.clock then .done (w.setProcess { p with wake := none }) (.ok ()) else .wait w

def setUmask (bits : Nat) : World × Nat :=
  (w.setProcess { p with umask := bits &&& 0o777 }, p.umask)

def takeCaught : World × List Nat :=
  (w.setProcess { p with caught := [], interrupted := false }, p.caught)

end World

end JobShell
