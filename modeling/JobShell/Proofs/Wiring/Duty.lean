import JobShell.Proofs.Wiring.Grip

/-!
# Duties of the processes of a job

What is asked of a program that ties stages together, whatever the system answers to its calls.

* `Plumbing`: the redirection a job has opened, the pipes it has made and the stages it has started.
* `Duty`: what has to hold where a process executes a program or starts a stage, and whether it may
  open files and make pipes and processes at all.
* `Act.Meets`: the rest of a program meets a duty from given bindings on. There is one rule for each
  call that a process of a job makes, and none for any other call.
-/

namespace JobShell

/-- A pipe with the open files of its two ends. -/
structure PipeEnds where
  number : Nat
  read : Nat
  write : Nat
  deriving DecidableEq, Repr

/-- A descriptor of the read end. -/
def PipeEnds.reader (e : PipeEnds) : Binding := { file := e.read }

/-- A descriptor of the write end. -/
def PipeEnds.writer (e : PipeEnds) : Binding := { file := e.write }

/-- An open file with what it has been opened by. -/
structure Opened where
  path : Bytes
  mode : OpenMode
  file : Nat
  deriving DecidableEq, Repr

/-- What has been made for a job. -/
structure Plumbing where
  /-- What has been opened last. -/
  opened : Option Opened := none
  pipes : List PipeEnds := []
  /-- The stages that have been started, in order. -/
  started : List Pid := []
  deriving DecidableEq, Repr

/-- What is asked of a process. -/
structure Duty where
  /-- It may open files and make pipes and processes. -/
  leads : Prop
  /-- What it may start, and when. -/
  child : Act → Bindings → Plumbing → Prop
  /-- When it may execute a program. -/
  exec : Bindings → Plumbing → Prop

/-- A call that has nothing to do with descriptors, but for the write of a message. -/
def Call.isPlain : Call → Bool
  | setGroup .. | dispose .. | unblock _ | write .. => true
  | _ => false

/-- A program meets a duty, with these bindings and this plumbing at its start. The system may
refuse any call, and it may give any number that is free. -/
inductive Act.Meets (d : Duty) : Act → Bindings → Plumbing → Prop where
  | exit {code : UInt8} {t : Bindings} {m : Plumbing} : Meets d (.exit code) t m
  | plain {c : Call} {next : c.Reply → Act} {t : Bindings} {m : Plumbing} (hc : c.isPlain)
      (h : ∀ r, Meets d (next r) t m) : Meets d (.call c next) t m
  | close {fd : Nat} {next : Except Errno Unit → Act} {t : Bindings} {m : Plumbing}
      (h : ∀ r, Meets d (next r) (t.set fd none) m) : Meets d (.call (.close fd) next) t m
  | dup2 {fd target : Nat} {next : Except Errno Unit → Act} {t : Bindings} {m : Plumbing}
      (hne : fd ≠ target) (he : ∀ e, Meets d (next (.error e)) t m)
      (h : ∀ b, t fd = some b →
        Meets d (next (.ok ())) (t.set target (some { file := b.file })) m) :
      Meets d (.call (.dup2 fd target) next) t m
  | exec {path : Bytes} {args env : List Bytes} {next : Errno → Act} {t : Bindings} {m : Plumbing}
      (hx : d.exec t m) (he : ∀ e, Meets d (next e) t m) :
      Meets d (.call (.exec path args env) next) t m
  | opens {path : Bytes} {mode : OpenMode} {bits : Nat} {next : Except Errno Nat → Act}
      {t : Bindings} {m : Plumbing} (hl : d.leads) (hm : m.pipes = [])
      (he : ∀ e, Meets d (next (.error e)) t m)
      (h : ∀ fd b, t fd = none → Meets d (next (.ok fd)) (t.set fd (some b))
        { m with opened := some { path, mode, file := b.file } }) :
      Meets d (.call (.open path mode bits) next) t m
  | pipe {next : Except Errno (Nat × Nat) → Act} {t : Bindings} {m : Plumbing} (hl : d.leads)
      (he : ∀ e, Meets d (next (.error e)) t m)
      (h : ∀ number r w b b', t r = none → t w = none → r ≠ w →
        Meets d (next (.ok (r, w))) ((t.set r (some b)).set w (some b'))
          { m with pipes := m.pipes ++ [{ number, read := b.file, write := b'.file }] }) :
      Meets d (.call .pipe next) t m
  | fork {child : Act} {next : Except Errno Pid → Act} {t : Bindings} {m : Plumbing}
      (hl : d.leads) (hc : d.child child t m) (he : ∀ e, Meets d (next (.error e)) t m)
      (h : ∀ pid, Meets d (next (.ok pid)) t { m with started := m.started ++ [pid] }) :
      Meets d (.fork child next) t m

/-- The duty of a process that only executes a program, with these bindings. -/
def Duty.follow (t : Bindings) : Duty where
  leads := False
  child _ _ _ := False
  exec t' _ := t' = t

/-- Such a process has nothing to do with the plumbing. -/
theorem Act.Meets.follow {goal t : Bindings} {m : Plumbing} {a : Act}
    (h : a.Meets (.follow goal) t m) (m' : Plumbing) : a.Meets (.follow goal) t m' := by
  induction h with
  | exit => exact .exit
  | plain hc _ ih => exact .plain hc ih
  | close _ ih => exact .close ih
  | dup2 hne _ _ ihe ih => exact .dup2 hne ihe ih
  | exec hx _ ihe => exact .exec hx ihe
  | opens hl => exact hl.elim
  | pipe hl => exact hl.elim
  | fork hl => exact hl.elim

end JobShell
