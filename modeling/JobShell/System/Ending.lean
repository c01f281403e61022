import JobShell.System.Errno
import JobShell.System.Signal

/-!
# How processes end

`Ending` is what the system knows of an ended process: an exit code or a signal number. `Status` is
what the interpreter keeps and prints; it has no value for the real-time signals, so asking for the
status of a process ended by one fails.
-/

namespace JobShell

abbrev Pid := Int

inductive Ending where
  | exited (code : UInt8)
  | killed (signal : Nat)
  deriving DecidableEq, Repr

/-- How a job ended, as the interpreter reports it. -/
inductive Status where
  | exited (code : Int)
  | signaled (signal : Signal)
  deriving DecidableEq, Repr

/-- The status before any job. -/
instance : Inhabited Status := ⟨.exited 0⟩

/-- The text of a status: the exit code, or the signal's number. -/
def Status.text : Status → String
  | exited code => toString code
  | signaled s => s!"terminated by signal {s.number}"

/-- A process ended by a signal that has no name gives no status. -/
def Ending.status : Ending → Except Errno Status
  | exited code => .ok (.exited code.toNat)
  | killed n =>
    match Signal.ofNumber? n with
    | some s => .ok (.signaled s)
    | none => .error .EINVAL

end JobShell
