/-!
# Signals

A signal number is 1 to 64. Those up to 31 have names and are `Signal`s; 32 to 64 are the real-time
signals, which a process may be ended by but which have no `Signal`.
-/

namespace JobShell

structure Signal where
  number : Nat
  named : 1 ≤ number ∧ number ≤ 31
  deriving DecidableEq, Repr

namespace Signal

/-- The signal of a number, if that is one with a name. -/
def ofNumber? (n : Int) : Option Signal :=
  if h : 1 ≤ n.toNat ∧ n.toNat ≤ 31 then some ⟨n.toNat, h⟩ else none

abbrev interrupt : Nat := 2
abbrev quit : Nat := 3
abbrev kill : Nat := 9
abbrev pipe : Nat := 13
abbrev terminate : Nat := 15
abbrev child : Nat := 17
abbrev resume : Nat := 18
abbrev stop : Nat := 19

def names : List String :=
  ["HUP", "INT", "QUIT", "ILL", "TRAP", "ABRT", "BUS", "FPE", "KILL", "USR1", "SEGV", "USR2", "PIPE",
   "ALRM", "TERM", "STKFLT", "CHLD", "CONT", "STOP", "TSTP", "TTIN", "TTOU", "URG", "XCPU", "XFSZ",
   "VTALRM", "PROF", "WINCH", "IO", "PWR", "SYS"]

def ofName? (name : String) : Option Nat := (names.findIdx? (· == name)).map (· + 1)

/-- What the signals from 1 on mean, in words. -/
def meanings : List String :=
  ["Hangup", "Interrupt", "Quit", "Illegal instruction", "Trace/breakpoint trap", "Aborted", "Bus error",
   "Floating point exception", "Killed", "User defined signal 1", "Segmentation fault",
   "User defined signal 2", "Broken pipe", "Alarm clock", "Terminated", "Stack fault", "Child exited",
   "Continued", "Stopped (signal)", "Stopped", "Stopped (tty input)", "Stopped (tty output)",
   "Urgent I/O condition", "CPU time limit exceeded", "File size limit exceeded",
   "Virtual timer expired", "Profiling timer expired", "Window changed", "I/O possible",
   "Power failure", "Bad system call"]

/-- What a signal means; the first real-time signals are not known by name. -/
def meaning (n : Nat) : String :=
  if 34 ≤ n then s!"Real-time signal {n - 34}"
  else (meanings[n - 1]?).getD s!"Unknown signal {n}"

/-- What a signal does to a process that has not changed its disposition. -/
inductive Effect where
  | ends
  | nothing
  | stops
  | continues
  deriving DecidableEq, Repr

/-- The default effect of a signal number. -/
def effect (n : Nat) : Effect :=
  if n = 18 then .continues
  else if n ∈ [17, 23, 28] then .nothing
  else if n ∈ [19, 20, 21, 22] then .stops
  else .ends

end Signal

end JobShell
