import JobShell.Proofs.Chronicle.Control
import JobShell.Proofs.Isolation.Calls
import JobShell.Proofs.Wiring.Programs

/-!
# Signals until a program is executed

* `Signals.Clear`: nothing of the interpreter's use of signals is left.
* `Signals.Wary`: SIGCHLD does not make a handler run.
* `Act.Readies`: a program that executes another one only with clear signals, in every process that
  runs a part of it, and that is wary until then.
* `Launch.readies_leader`: so is the program of a job's first process, if it starts with SIGCHLD
  held back. What else the interpreter does with its signals does not matter.
-/

namespace JobShell

namespace Signals

/-- SIGINT, SIGCHLD and SIGPIPE have their default dispositions, and SIGCHLD is let through. -/
structure Clear (s : Signals) : Prop where
  interrupt : s.disposition Signal.interrupt = .default
  child : s.disposition Signal.child = .default
  pipe : s.disposition Signal.pipe = .default
  unblocked : Signal.child ∉ s.blocked

/-- No handler runs for SIGCHLD: it is held back or not handled. -/
def Wary (s : Signals) : Prop :=
  Signal.child ∈ s.blocked ∨ s.disposition Signal.child ≠ .handled

/-- Each signal has one disposition. -/
def Single (s : Signals) : Prop := (Table.keys s.dispositions).Nodup

variable {s : Signals}

theorem Clear.wary (h : s.Clear) : s.Wary := .inr (by rw [h.child]; decide)

theorem disposition_resetInChild (s : Signals) (n : Nat) : s.resetInChild.disposition n =
    if n ∈ [Signal.interrupt, Signal.child, Signal.pipe] then .default else s.disposition n := by
  simp only [resetInChild, disposition_unblock, disposition_dispose, List.mem_cons,
    List.not_mem_nil, or_false]
  grind

theorem clear_resetInChild (s : Signals) : s.resetInChild.Clear where
  interrupt := by rw [disposition_resetInChild]; rfl
  child := by rw [disposition_resetInChild]; rfl
  pipe := by rw [disposition_resetInChild]; rfl
  unblocked h := ((mem_blocked_unblock _ _ _).1 h).2 rfl

/-- A new program finds ignored what was ignored, and all else default. -/
theorem disposition_onExec (h : s.Single) (n : Nat) :
    s.onExec.disposition n = if s.disposition n = .ignored then .ignored else .default := by
  have hignored : s.disposition n = .ignored ↔ (n, .ignored) ∈ s.dispositions := by
    refine ⟨fun hd => Table.mem_of_get? ?_, fun hmem => ?_⟩
    · unfold disposition at hd
      cases hget : s.dispositions.get? n with
      | none => rw [hget] at hd; cases hd
      | some d => rw [hget] at hd; exact congrArg some hd
    · rw [disposition, Table.get?_of_mem h hmem]
      rfl
  unfold onExec
  cases hget : Table.get? (s.dispositions.filter fun p => p.2 = .ignored) n with
  | some d =>
    have hmem := List.mem_filter.1 (Table.mem_of_get? hget)
    obtain rfl : d = .ignored := of_decide_eq_true hmem.2
    rw [if_pos (hignored.2 hmem.1), disposition, hget]
    rfl
  | none =>
    rw [if_neg, disposition, hget]
    · rfl
    · intro hd
      have hmem : (n, Disposition.ignored) ∈ s.dispositions.filter fun p => p.2 = .ignored :=
        List.mem_filter.2 ⟨hignored.1 hd, rfl⟩
      rw [Table.get?_of_mem (Table.nodup_keys_filter h _) hmem] at hget
      cases hget

theorem Clear.onExec (h : s.Clear) (hs : s.Single) : s.onExec.Clear where
  interrupt := by rw [disposition_onExec hs, h.interrupt]; rfl
  child := by rw [disposition_onExec hs, h.child]; rfl
  pipe := by rw [disposition_onExec hs, h.pipe]; rfl
  unblocked := h.unblocked

theorem Single.dispose (h : s.Single) (n : Nat) (d : Disposition) : (s.dispose n d).Single :=
  Table.nodup_keys_set h n d

theorem settings_dispose (s : Signals) (n : Nat) (d : Disposition) :
    (s.dispose n d).settings = s.settings.dispose n d := by
  unfold settings Signals.dispose
  cases d <;> rfl

end Signals

/-- A program that, run with these signals, executes another one only once they are clear, and that
until then neither it nor a process it forks runs a handler for SIGCHLD. -/
inductive Act.Readies : Signals → Act → Prop where
  | exit {s : Signals} {code : UInt8} : Readies s (.exit code)
  | placid {s : Signals} {c : Call} {next : c.Reply → Act} (hc : c.isPlacid)
      (h : ∀ r, Readies s (next r)) : Readies s (.call c next)
  | dispose {s : Signals} {n : Nat} {d : Disposition} {next : Except Errno Unit → Act}
      (hn : n ∈ [Signal.interrupt, Signal.child, Signal.pipe]) (hw : (s.dispose n d).Wary)
      (h : Readies (s.dispose n d) (next (.ok ()))) : Readies s (.call (.dispose n d) next)
  | unblock {s : Signals} {n : Nat} {next : Unit → Act} (hw : (s.unblock n).Wary)
      (h : Readies (s.unblock n) (next ())) : Readies s (.call (.unblock n) next)
  | executes {s : Signals} {path : Bytes} {args env : List Bytes} {next : Errno → Act}
      (hs : s.Clear) (h : ∀ e, Readies s (next e)) : Readies s (.call (.exec path args env) next)
  | forks {s : Signals} {child : Act} {next : Except Errno Pid → Act} (hc : Readies s child)
      (h : ∀ r, Readies s (next r)) : Readies s (.fork child next)

/-! ## Programs in parts -/

section

variable {α β : Type} {s : Signals}

/-- What follows this piece of program may rely on the signals it started with. -/
def Prog.Steady (s : Signals) (p : Prog α) : Prop :=
  ∀ k : α → Act, (∀ a, (k a).Readies s) → (p.thenDo k).Readies s

namespace Prog

theorem steady_pure (a : α) : (pure a : Prog α).Steady s := fun _ hk => hk a

theorem Steady.bind {p : Prog α} {f : α → Prog β} (hp : p.Steady s) (hf : ∀ a, (f a).Steady s) :
    (p >>= f).Steady s := by
  intro k hk
  rw [thenDo_bind]
  exact hp _ fun a => hf a k hk

theorem steady_call {c : Call} (hc : c.isPlacid) : (call c).Steady s := fun _ hk => .placid hc hk

theorem steady_exec (hs : s.Clear) (path : Bytes) (args env : List Bytes) :
    (call (.exec path args env)).Steady s := fun _ hk => .executes hs hk

theorem steady_fork {child : Prog UInt8} (hc : child.run.Readies s) : (fork child).Steady s :=
  fun _ hk => .forks hc hk

end Prog

/-- The same for a piece of program that may fail. -/
def Launch.Steady (s : Signals) (p : Launch α) : Prop :=
  ∀ k : Except LaunchFailure α → Act, (∀ r, (k r).Readies s) → (Launch.thenDo p k).Readies s

namespace Launch

theorem steady_mk_pure (r : Except LaunchFailure α) :
    Steady s (ExceptT.mk (pure r) : Launch α) := fun _ hk => hk r

theorem steady_throw (e : LaunchFailure) : Steady s (throw e : Launch α) := fun _ hk => hk _

theorem Steady.bind {p : Launch α} {f : α → Launch β} (hp : Steady s p)
    (hf : ∀ a, Steady s (f a)) : Steady s (p >>= f) := by
  intro k hk
  rw [thenDo_bind]
  refine hp _ fun r => ?_
  cases r with
  | error e => exact hk _
  | ok a => exact hf a k hk

theorem steady_lift {p : Prog α} (hp : p.Steady s) : Steady s (ExceptT.lift p : Launch α) := by
  intro k hk
  rw [thenDo_lift]
  exact hp _ fun a => hk _

theorem steady_attempt {p : Prog (Except Errno α)} (hp : p.Steady s) : Steady s (attempt p) := by
  intro k hk
  rw [thenDo_attempt]
  exact hp _ fun r => hk _

theorem steady_regardless {p : Prog α} (hp : p.Steady s) : Steady s (regardless p) := by
  intro k hk
  rw [thenDo_regardless]
  exact hp _ fun _ => hk _

/-- A failure is reported, which is no concern of signals. -/
theorem readies_report {p : Launch Empty} (hp : Steady s p) : (report p).run.Readies s := by
  rw [run_report]
  refine hp _ fun r => ?_
  cases r with
  | error e => exact .placid rfl fun _ => .exit
  | ok never => nomatch never

end Launch

end

/-! ## The programs of a job -/

section

variable {s : Signals} (hs : s.Clear)
include hs

namespace Search

theorem steady_execute (path : Bytes) (args env : List Bytes) :
    (execute path args env).Steady s := by
  refine Prog.Steady.bind (Prog.steady_exec hs _ _ _) fun (e : Errno) => ?_
  split
  · exact Prog.steady_exec hs _ _ _
  · exact Prog.steady_pure e

theorem steady_tryAll (args env paths : List Bytes) (denied : Bool) (last : Errno) :
    (tryAll args env denied last paths).Steady s := by
  induction paths generalizing denied last with
  | nil => exact Prog.steady_pure _
  | cons path rest ih =>
    refine Prog.Steady.bind (steady_execute hs path args env) fun e => ?_
    split
    · exact ih _ _
    · exact Prog.steady_pure e

theorem steady_run (path : Option Bytes) (name : Bytes) (args env : List Bytes) :
    (Search.run path name args env).Steady s := by
  unfold Search.run
  split
  · exact Prog.steady_pure _
  · split
    · exact steady_execute hs _ _ _
    · exact steady_tryAll hs _ _ _ _ _

end Search

namespace Launch

theorem steady_execute (env : List Bytes) (stage : Stage) : Steady s (execute env stage) := by
  refine Steady.bind (steady_mk_pure _) fun args => ?_
  split
  · exact steady_throw _
  · exact Steady.bind (steady_lift (Search.steady_run hs _ _ _ _)) fun e => steady_throw _

theorem readies_upstream (env : List Bytes) (stage : Stage) (read write : Nat) :
    (upstream env stage read write).run.Readies s := by
  refine readies_report ?_
  refine Steady.bind (steady_regardless (Prog.steady_call rfl)) fun _ => ?_
  refine Steady.bind (steady_attempt (Prog.steady_call rfl)) fun _ => ?_
  exact Steady.bind (steady_regardless (Prog.steady_call rfl)) fun _ => steady_execute hs env stage

theorem steady_feed (env : List Bytes) (stage : Stage) : Steady s (feed env stage) := by
  refine Steady.bind (steady_attempt (Prog.steady_call rfl)) fun ⟨read, write⟩ => ?_
  have hchild := readies_upstream hs env stage read write
  refine Steady.bind (steady_attempt (Prog.steady_fork hchild)) fun _ => ?_
  refine Steady.bind (steady_attempt (Prog.steady_call rfl)) fun _ => ?_
  refine Steady.bind (steady_regardless (Prog.steady_call rfl)) fun _ => ?_
  exact steady_regardless (Prog.steady_call rfl)

theorem steady_stages (env : List Bytes) (ss : List Stage) : Steady s (stages env ss) := by
  induction ss with
  | nil => exact steady_throw _
  | cons stage rest ih =>
    cases rest with
    | nil => exact steady_execute hs env stage
    | cons next rest => exact Steady.bind (steady_feed hs env stage) fun _ => ih

omit hs in
theorem steady_redirect (r : Redirect) : Steady s (redirect r) := by
  refine Steady.bind (steady_mk_pure _) fun name => ?_
  refine Steady.bind (steady_attempt (Prog.steady_call rfl)) fun fd => ?_
  refine Steady.bind (steady_attempt (Prog.steady_call rfl)) fun _ => ?_
  exact steady_regardless (Prog.steady_call rfl)

theorem steady_pipeline (env : List Bytes) (p : Pipeline) : Steady s (pipeline env p) := by
  unfold pipeline
  split
  · exact Steady.bind (steady_redirect _) fun _ => steady_stages hs env p.stages
  · exact steady_stages hs env p.stages

omit hs in
/-- SIGCHLD is held back until its disposition is default, so no handler runs for it; when the
pipeline is seen to, all signals are clear. -/
theorem readies_leader (hheld : Signal.child ∈ s.blocked) (env : List Bytes) (p : Pipeline) :
    (leader env p).run.Readies s := by
  have hclear := Signals.clear_resetInChild s
  unfold leader resetSignals
  rw [Prog.run_eq_thenDo]
  simp only [Prog.thenDo_bind]
  refine .placid rfl fun _ => ?_
  refine .dispose (by decide) (.inl hheld) ?_
  refine .dispose (by decide) (.inl hheld) ?_
  refine .dispose (by decide) (.inl hheld) ?_
  refine .unblock hclear.wary ?_
  rw [← Prog.run_eq_thenDo]
  exact readies_report (steady_pipeline hclear env p)

end Launch

end

end JobShell
