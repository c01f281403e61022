import JobShell.System.Ending
import JobShell.System.Signals
import JobShell.Text.Bytes

/-!
# System calls and programs

`Call` lists what a process may ask of the system, `Call.Reply` what it is told. A program is a tree
of calls: `Act` is the rest of a process's program, `Prog α` a piece of program with a result, in
continuation-passing form, so that pieces are put together with `do`.
-/

namespace JobShell

structure OpenMode where
  read : Bool := false
  write : Bool := false
  create : Bool := false
  truncate : Bool := false
  append : Bool := false
  /-- The file must not exist. -/
  exclusive : Bool := false
  deriving DecidableEq, Repr

namespace OpenMode

def reading : OpenMode := { read := true }

def truncating : OpenMode := { write := true, create := true, truncate := true }

def appending : OpenMode := { write := true, create := true, append := true }

end OpenMode

inductive Whence where
  | start
  | current
  | finish
  deriving DecidableEq, Repr

inductive FileKind where
  | file
  | directory
  | link
  | device
  | pipe
  deriving DecidableEq, Repr

structure FileInfo where
  kind : FileKind
  mode : Nat
  size : Nat
  ino : Nat
  links : Nat
  owner : Nat
  modified : Nat
  deriving Repr

inductive Call where
  | open (path : Bytes) (mode : OpenMode) (bits : Nat)
  | close (fd : Nat)
  | read (fd count : Nat)
  | write (fd : Nat) (text : Bytes)
  | seek (fd : Nat) (offset : Int) (whence : Whence)
  | truncate (fd : Nat) (size : Nat)
  | pipe
  /-- The least free descriptor from `least` on, made a copy of `fd` that is closed on execution. -/
  | copyAbove (fd least : Nat)
  | dup2 (fd target : Nat)
  | stat (path : Bytes) (follow : Bool)
  | fstat (fd : Nat)
  | access (path : Bytes) (want : Nat)
  | list (path : Bytes)
  | chdir (path : Bytes)
  | getcwd
  | mkdir (path : Bytes) (bits : Nat)
  | rmdir (path : Bytes)
  | unlink (path : Bytes)
  | rename (old new : Bytes)
  | link (old new : Bytes)
  | symlink (target path : Bytes)
  | readlink (path : Bytes)
  | chmod (path : Bytes) (bits : Nat)
  /-- Sets the time of the last change; now if none is given. -/
  | touch (path : Bytes) (time : Option Nat)
  | umask (bits : Nat)
  | self
  | parent
  | setGroup (pid group : Pid)
  /-- Waits for one child or for any; without `block` only looks. -/
  | wait (which : Option Pid) (block : Bool)
  | kill (pid : Int) (signal : Nat)
  | dispose (signal : Nat) (d : Disposition)
  | disposition (signal : Nat)
  | unblock (signal : Nat)
  /-- Takes the handled signals that have arrived. -/
  | caught
  /-- Sleeps for some nanoseconds. -/
  | sleep (nanos : Nat)
  | now
  | exec (path : Bytes) (args env : List Bytes)

/-- What the system answers to a call. A call that replaces the program answers only if it fails. -/
abbrev Call.Reply : Call → Type
  | .open .. => Except Errno Nat
  | .close _ => Except Errno Unit
  | .read .. => Except Errno Bytes
  | .write .. => Except Errno Nat
  | .seek .. => Except Errno Nat
  | .truncate .. => Except Errno Unit
  | .pipe => Except Errno (Nat × Nat)
  | .copyAbove .. => Except Errno Nat
  | .dup2 .. => Except Errno Unit
  | .stat .. => Except Errno FileInfo
  | .fstat _ => Except Errno FileInfo
  | .access .. => Except Errno Unit
  | .list _ => Except Errno (List Bytes)
  | .chdir _ => Except Errno Unit
  | .getcwd => Except Errno Bytes
  | .mkdir .. => Except Errno Unit
  | .rmdir _ => Except Errno Unit
  | .unlink _ => Except Errno Unit
  | .rename .. => Except Errno Unit
  | .link .. => Except Errno Unit
  | .symlink .. => Except Errno Unit
  | .readlink _ => Except Errno Bytes
  | .chmod .. => Except Errno Unit
  | .touch .. => Except Errno Unit
  | .umask _ => Nat
  | .self => Pid
  | .parent => Pid
  | .setGroup .. => Except Errno Unit
  | .wait .. => Except Errno (Option (Pid × Ending))
  | .kill .. => Except Errno Unit
  | .dispose .. => Except Errno Unit
  | .disposition _ => Disposition
  | .unblock _ => Unit
  | .caught => List Nat
  | .sleep _ => Except Errno Unit
  | .now => Nat
  | .exec .. => Errno

/-- The reply when a signal that is handled interrupts a call that waits. -/
def Call.interrupted? : (c : Call) → Option c.Reply
  | .read .. => some (.error .EINTR)
  | .write .. => some (.error .EINTR)
  | .wait .. => some (.error .EINTR)
  | .sleep _ => some (.error .EINTR)
  | _ => none

/-- The rest of a process's program. -/
inductive Act where
  | exit (code : UInt8)
  | call (c : Call) (next : c.Reply → Act)
  /-- A new process runs `child`; this one goes on with its number. -/
  | fork (child : Act) (next : Except Errno Pid → Act)

instance : Inhabited Act := ⟨.exit 0⟩

/-- A program given its arguments and its environment. -/
abbrev Image := List Bytes → List Bytes → Act

/-- A piece of program with a result. -/
def Prog (α : Type) : Type := (α → Act) → Act

namespace Prog

@[always_inline, inline] protected def pure {α : Type} (a : α) : Prog α := fun k => k a

@[always_inline, inline] protected def bind {α β : Type} (p : Prog α) (f : α → Prog β) : Prog β :=
  fun k => p fun a => f a k

instance : Monad Prog where
  pure := Prog.pure
  bind := Prog.bind

def call (c : Call) : Prog c.Reply := fun k => .call c k

def exit {α : Type} (code : UInt8) : Prog α := fun _ => .exit code

/-- The whole program of a process that ends with the result as its exit code. -/
def run (p : Prog UInt8) : Act := p .exit

/-- A new process that runs `child` and ends with its result. -/
def fork (child : Prog UInt8) : Prog (Except Errno Pid) := fun k => .fork child.run k

/-- More rounds than any loop of a program makes. -/
def horizon : Nat := Nat.pow 2 60

/-- Repeats `body` from state to state until it gives a result, at most `n` times. -/
def iterateFrom {σ α : Type} (body : σ → Prog (σ ⊕ α)) : Nat → σ → Prog α
  | 0, _ => exit 125
  | n + 1, s => do
    match ← body s with
    | .inl s' => iterateFrom body n s'
    | .inr a => return a

/-- Repeats `body` from state to state until it gives a result. -/
def iterate {σ α : Type} (s : σ) (body : σ → Prog (σ ⊕ α)) : Prog α := iterateFrom body horizon s

end Prog

end JobShell
