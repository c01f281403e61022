import JobShell.Proofs.Isolation.Readiness

/-!
# Processes that have not executed a program yet

* `Process.Recruited`: the process goes on with a program that readies its signals, and no handler
  runs for SIGCHLD in it.
* `World.recruited_takeSignals`, `World.recruited_advance`: signals and calls keep this, until the
  process executes a program, with clear signals.
* `World.recruited_forked`, `World.recruited_made`: what such a process forks is recruited as well.
* `World.recruited_step`, `World.recruited_made_step`: the same for a step, signals and call.
-/

namespace JobShell

/-- A process on its way to executing the program of a stage. -/
structure Process.Recruited (p : Process) : Prop where
  program : ∃ a, p.program = some a ∧ a.Readies p.signals.settings
  wary : p.signals.Wary
  caught : Signal.child ∉ p.caught
  single : p.signals.Single

variable {p q : Process}

theorem Process.Recruited.of_poise (h : p.Recruited) (hq : q.poise = p.poise) : q.Recruited := by
  obtain ⟨hprogram, hq⟩ := Prod.mk.inj hq
  obtain ⟨hsettings, hcaught⟩ := Prod.mk.inj hq
  have hwary : p.signals.settings.Wary := h.wary
  have hsingle : p.signals.settings.Single := h.single
  refine ⟨?_, ?_, ?_, ?_⟩
  · rw [hprogram, hsettings]
    exact h.program
  · show q.signals.settings.Wary
    rw [hsettings]
    exact hwary
  · rw [hcaught]
    exact h.caught
  · show q.signals.settings.Single
    rw [hsettings]
    exact hsingle

/-- It goes on with the rest of its program. -/
theorem Process.Recruited.goes {q' : Process} (h : p.Recruited) (hq : q.poise = p.poise) {a : Act}
    (hprogram : q'.program = some a) (ha : a.Readies p.signals.settings)
    (hsignals : q'.signals = q.signals) (hcaught : q'.caught = q.caught) : q'.Recruited := by
  have hrec := h.of_poise hq
  have hsettings : q.signals.settings = p.signals.settings :=
    congrArg (fun x : Option Act × Signals × List Nat => x.2.1) hq
  refine ⟨⟨a, hprogram, ?_⟩, ?_, ?_, ?_⟩
  · rw [hsignals, hsettings]
    exact ha
  · rw [hsignals]
    exact hrec.wary
  · rw [hcaught]
    exact hrec.caught
  · rw [hsignals]
    exact hrec.single

namespace World

variable {w w' : World} {pid : Pid}

/-! ## Taking signals -/

theorem recruited_takeSignal (hk : w.Keyed) (hr : p.Recruited) {n : Nat}
    (hn : p.signals.next? [] = some n) (hq : (w.takeSignal p n).process? p.pid = some q) :
    q.Recruited := by
  by_cases hd : p.signals.disposition n = .handled
  · -- SIGCHLD is not held back if it is taken, so it is not handled
    have hne : Signal.child ≠ n := by
      rintro rfl
      exact hr.wary.elim (Signals.of_next? hn).2.1 (absurd hd)
    have hd : (p.signals.take n).disposition n = .handled := hd
    unfold takeSignal at hq
    dsimp only at hq
    rw [hd] at hq
    dsimp only at hq
    rw [process?_setProcess, if_pos rfl] at hq
    obtain rfl := Option.some.inj hq
    exact ⟨hr.program, hr.wary, by simpa [hr.caught] using hne, hr.single⟩
  · exact hr.of_poise (Process.poise_congr (own_takeSignal hk hd hq))

theorem recruited_takeSignals (hk : w.Keyed) (n : Nat)
    (hr : ∀ p, w.process? pid = some p → p.Recruited)
    (hq : (w.takeSignals n pid).process? pid = some q) : q.Recruited := by
  refine takeSignals_induction (motive := fun w w' => w.Keyed →
      (∀ p, w.process? pid = some p → p.Recruited) → w'.process? pid = some q → q.Recruited)
    (fun _ _ hr hq => hr q hq) (fun w w' p s hp hs ih hk hr hq => ?_) n w hk hr hq
  have hpid := hk.pid_eq hp
  refine ih ((leaves_takeSignal hk p s).keyed hk) (fun p' hp' => ?_) hq
  exact recruited_takeSignal hk (hr p hp) hs (hpid ▸ hp')

/-! ## Calls -/

theorem executes_of_placid {c : Call} {next : c.Reply → Act}
    (hdue : p.due? = some (.call c next)) (hc : c.isPlacid) : w.executes p = false := by
  unfold executes
  rw [hdue]
  cases c <;> first | rfl | cases hc

theorem executes_of_farewell? {text : Bytes} (hf : p.farewell? = some text) :
    w.executes p = false := by
  unfold executes Process.due?
  rw [hf]
  rfl

/-- A process forked with wary signals is recruited for its program. -/
theorem recruited_forked (hk : w.Keyed) {child : Act} (hw : p.signals.Wary) (hs : p.signals.Single)
    (hchild : child.Readies p.signals.settings)
    (hq : (w.fork p child).2.process? w.nextPid = some q) : q.Recruited := by
  have hforked : (p.forked w.nextPid child).Recruited :=
    ⟨⟨child, rfl, hchild⟩, hw, List.not_mem_nil, hs⟩
  have hown := own?_fork hk p child w.nextPid
  rw [if_pos rfl, own?_eq_some hq] at hown
  exact hforked.of_poise (Process.poise_congr (Option.some.inj hown))

section

variable (hk : w.Keyed) (hr : p.Recruited)
include hk hr

/-- A call that sets signals. -/
theorem recruited_sets {c : Call} {next : c.Reply → Act} {r : c.Reply} {s : Signals}
    {farewell : Option Bytes} (hdue : p.due? = some (.call c next))
    (hperform : w.perform p c = .done (w.setProcess { p with signals := s, farewell }) r)
    (hnext : (next r).Readies s.settings) (hw : s.Wary) (hs : s.Single)
    (hq : (w.advance p).1.process? p.pid = some q) : q.Recruited := by
  rw [advance_done hdue hperform, process?_modifyProcess (keyed_setProcess hk _)
    (f := fun q => { q with program := some (next r) }) fun _ => rfl,
    process?_setProcess, if_pos rfl] at hq
  obtain rfl := Option.some.inj hq
  exact ⟨⟨_, rfl, hnext⟩, hw, hr.caught, hs⟩

theorem recruited_dispose {n : Nat} {d : Disposition} {next : Except Errno Unit → Act}
    (hdue : p.due? = some (.call (.dispose n d) next))
    (hn : n ∈ [Signal.interrupt, Signal.child, Signal.pipe])
    (hnext : (next (.ok ())).Readies (p.signals.settings.dispose n d))
    (hw : (p.signals.settings.dispose n d).Wary)
    (hq : (w.advance p).1.process? p.pid = some q) : q.Recruited := by
  have hallowed : ¬(n = 0 || n > 64 || n = Signal.kill || n = Signal.stop) := by
    simp only [List.mem_cons, List.not_mem_nil, or_false] at hn
    rcases hn with rfl | rfl | rfl <;> decide
  have hperform : w.perform p (.dispose n d) =
      .done (w.setProcess { p with
        signals := p.signals.dispose n d
        farewell := if n = Signal.interrupt then none else p.farewell }) (.ok ()) := by
    show Outcome.of (w.dispose p n d) = _
    rw [dispose, if_neg hallowed]
    rfl
  refine recruited_sets hk hr hdue hperform ?_ ?_ (hr.single.dispose n d) hq
  · rw [Signals.settings_dispose]
    exact hnext
  · rw [← Signals.settings_dispose] at hw
    exact hw

theorem recruited_unblock {n : Nat} {next : Unit → Act}
    (hdue : p.due? = some (.call (.unblock n) next))
    (hnext : (next ()).Readies (p.signals.settings.unblock n))
    (hw : (p.signals.settings.unblock n).Wary)
    (hq : (w.advance p).1.process? p.pid = some q) : q.Recruited :=
  recruited_sets hk hr hdue rfl hnext hw hr.single hq

variable (hp : w.process? p.pid = some p)
include hp

theorem recruited_placid {c : Call} {next : c.Reply → Act}
    (hdue : p.due? = some (.call c next)) (hc : c.isPlacid)
    (hnext : ∀ r, (next r).Readies p.signals.settings)
    (hq : (w.advance p).1.process? p.pid = some q) : q.Recruited := by
  have h := confined_perform hk hp hc
  cases hperform : w.perform p c with
  | done w' r =>
    rw [hperform] at h
    obtain ⟨q', hq', hpoise⟩ := h.self
    rw [advance_done hdue hperform, process?_modifyProcess (h.leaves.keyed hk)
      (f := fun q => { q with program := some (next r) }) fun _ => rfl, hq'] at hq
    obtain rfl := Option.some.inj hq
    exact hr.goes hpoise rfl (hnext r) rfl rfl
  | become w' =>
    rw [hperform] at h
    obtain ⟨q', hq', hpoise⟩ := h.self
    rw [advance_become hdue hperform, hq'] at hq
    obtain rfl := Option.some.inj hq
    exact hr.of_poise hpoise
  | wait w' =>
    rw [hperform] at h
    obtain ⟨q', hq', hpoise⟩ := h.self
    rcases advance_wait hdue hperform with heq | ⟨r, heq⟩
    · rw [heq, hq'] at hq
      obtain rfl := Option.some.inj hq
      exact hr.of_poise hpoise
    · rw [heq, process?_modifyProcess (h.leaves.keyed hk)
        (f := fun q => { q with program := some (next r), interrupted := false, wake := none })
        fun _ => rfl, hq'] at hq
      obtain rfl := Option.some.inj hq
      exact hr.goes hpoise rfl (hnext r) rfl rfl

theorem clear_exec {path : Bytes} {args env : List Bytes} {next : Errno → Act}
    (hdue : p.due? = some (.call (.exec path args env) next)) (hs : p.signals.Clear)
    (hnext : ∀ e, (next e).Readies p.signals.settings)
    (hq : (w.advance p).1.process? p.pid = some q) :
    if w.executes p then q.signals.Clear else q.Recruited := by
  have hexecutes : w.executes p = (w.program p path args env).isOk := by
    unfold executes
    rw [hdue]
  have hperform : w.perform p (.exec path args env) = w.exec p path args env := rfl
  rw [hexecutes]
  unfold exec at hperform
  cases hx : w.program p path args env with
  | error e =>
    rw [hx] at hperform
    rw [advance_done hdue hperform, process?_modifyProcess hk
      (f := fun q => { q with program := some (next e) }) fun _ => rfl, hp] at hq
    obtain rfl := Option.some.inj hq
    exact hr.goes rfl rfl (hnext e) rfl rfl
  | ok found =>
    rw [hx] at hperform
    rw [advance_become hdue hperform, process?_setProcess, if_pos rfl] at hq
    obtain rfl := Option.some.inj hq
    exact hs.onExec hr.single

theorem recruited_fork {child : Act} {next : Except Errno Pid → Act}
    (hknown : p.pid < w.nextPid) (hdue : p.due? = some (.fork child next))
    (hnext : ∀ r, (next r).Readies p.signals.settings)
    (hq : (w.advance p).1.process? p.pid = some q) : q.Recruited := by
  have hkeyed := (grows_fork hk p child).keyed hk
  rw [advance_fork hdue, process?_modifyProcess hkeyed
    (f := fun q => { q with program := some (next (.ok w.nextPid)) }) fun _ => rfl] at hq
  obtain ⟨p', hp', rfl⟩ := Option.map_eq_some_iff.1 hq
  have hown := (untouched_fork hk p child (Int.ne_of_lt hknown)).own
  obtain ⟨p₀, hp₀, heq⟩ := exists_of_own?_eq hown hp'
  obtain rfl := Option.some.inj (hp₀.symm.trans hp)
  exact hr.goes (Process.poise_congr heq) rfl (hnext _) rfl rfl

/-- A process that takes its leave ends, or has to wait. -/
theorem recruited_quit {text : Bytes} (hf : p.farewell? = some text)
    (hq : (w.advance p).1.process? p.pid = some q) : q.Recruited := by
  rw [advance_of_farewell? hf] at hq
  rcases w.quit_cases p text with ⟨w', r, hwrite, h⟩ | ⟨-, h⟩
  · have hkeyed := ((effect_of_done (c := .write 1 text) hwrite).leaves hk).keyed hk
    rw [h, process?_finish hkeyed] at hq
    cases hq
  · rw [h] at hq
    obtain rfl := Option.some.inj (hp.symm.trans hq)
    exact hr

/-- A call keeps a process recruited, or it executes a program with clear signals. -/
theorem recruited_due {a : Act} (hknown : p.pid < w.nextPid) (hdue : p.due? = some a)
    (ha : a.Readies p.signals.settings) (hq : (w.advance p).1.process? p.pid = some q) :
    if w.executes p then q.signals.Clear else q.Recruited := by
  have hstays (h : q.Recruited) (hx : w.executes p = false) :
      if w.executes p then q.signals.Clear else q.Recruited := by
    rw [hx]
    exact h
  cases ha with
  | exit =>
    rw [advance_exit hdue, process?_finish hk] at hq
    cases hq
  | placid hc h =>
    exact hstays (recruited_placid hk hr hp hdue hc h hq) (executes_of_placid hdue hc)
  | dispose hn hw h =>
    exact hstays (recruited_dispose hk hr hdue hn h hw hq) (by rw [executes, hdue])
  | unblock hw h =>
    exact hstays (recruited_unblock hk hr hdue h hw hq) (by rw [executes, hdue])
  | executes hs h =>
    have hclear : p.signals.Clear := ⟨hs.interrupt, hs.child, hs.pipe, hs.unblocked⟩
    exact clear_exec hk hr hp hdue hclear h hq
  | forks hc h =>
    exact hstays (recruited_fork hk hr hp hknown hdue h hq) (by rw [executes, hdue])

theorem recruited_advance (hknown : p.pid < w.nextPid)
    (hq : (w.advance p).1.process? p.pid = some q) :
    if w.executes p then q.signals.Clear else q.Recruited := by
  obtain ⟨a, hprogram, ha⟩ := hr.program
  cases hf : p.farewell? with
  | some text =>
    rw [executes_of_farewell? hf]
    exact recruited_quit hk hr hp hf hq
  | none =>
    exact recruited_due hk hr hp hknown ((Process.due?_of_none hf).trans hprogram) ha hq

omit hp in
/-- A process that it forks is recruited. -/
theorem recruited_made (hknown : p.pid < w.nextPid)
    (hnew : (w.advance p).1.nextPid ≠ w.nextPid)
    (hq : (w.advance p).1.process? w.nextPid = some q) : q.Recruited := by
  by_cases hfork : ∃ child next, p.due? = some (.fork child next)
  · obtain ⟨child, next, hdue⟩ := hfork
    obtain ⟨a, ha, hreadies⟩ := hr.program
    obtain rfl := Option.some.inj ((Process.of_due? hdue).2.symm.trans ha)
    have hchild : child.Readies p.signals.settings := by cases hreadies; assumption
    have hkeyed := (grows_fork hk p child).keyed hk
    have hgoes := leaves_modifyProcess hkeyed p.pid
      (f := fun q => { q with program := some (next (.ok w.nextPid)) }) fun _ => rfl
    rw [advance_fork hdue] at hq
    obtain ⟨q', hq', hown⟩ := exists_of_own?_eq (hgoes.own w.nextPid (Int.ne_of_gt hknown)) hq
    exact (recruited_forked hk hr.wary hr.single hchild hq').of_poise (Process.poise_congr hown)
  · have h := leaves_advance hk fun child next h => hfork ⟨child, next, h⟩
    exact absurd h.nextPid_eq hnew

end

/-! ## Steps -/

/-- Whether the next step of a process executes a program. -/
def isStarting (w : World) (pid : Pid) : Bool :=
  let w := w.takeSignals signalCount pid
  (w.process? pid).any fun p => !p.stopped && w.executes p

/-- After its signals, a process makes a call unless it is stopped or has ended. -/
theorem step_cases (w : World) (pid : Pid) :
    (w.step pid).1 = w.takeSignals signalCount pid ∧ w.isStarting pid = false ∨
    ∃ p, (w.takeSignals signalCount pid).process? pid = some p ∧
      (w.step pid).1 = ((w.takeSignals signalCount pid).advance p).1 ∧
      w.isStarting pid = (w.takeSignals signalCount pid).executes p := by
  unfold step isStarting
  dsimp only
  generalize w.takeSignals signalCount pid = w₁
  cases hp : w₁.process? pid with
  | none => exact .inl ⟨rfl, rfl⟩
  | some p => cases hs : p.stopped <;> simp [hs]

section

variable (hk : w.Keyed) (hknown : pid < w.nextPid)
  (hr : ∀ p, w.process? pid = some p → p.Recruited)
include hk hknown hr

/-- A step keeps a process recruited, or it executes a program with clear signals. -/
theorem recruited_step (hq : (w.step pid).1.process? pid = some q) :
    if w.isStarting pid then q.signals.Clear else q.Recruited := by
  have h := leaves_takeSignals hk signalCount pid
  have hkeyed := h.keyed hk
  rcases step_cases w pid with ⟨hstep, hx⟩ | ⟨p, hp, hstep, hx⟩
  · rw [hstep] at hq
    rw [hx]
    exact recruited_takeSignals hk signalCount hr hq
  · have hrec := recruited_takeSignals hk signalCount hr hp
    obtain rfl := hkeyed.pid_eq hp
    rw [hstep] at hq
    rw [hx]
    rw [← h.nextPid_eq] at hknown
    exact recruited_advance hkeyed hrec hp hknown hq

/-- A process that it forks is recruited. -/
theorem recruited_made_step (hnew : (w.step pid).1.nextPid ≠ w.nextPid)
    (hq : (w.step pid).1.process? w.nextPid = some q) : q.Recruited := by
  have h := leaves_takeSignals hk signalCount pid
  have hkeyed := h.keyed hk
  rcases step_cases w pid with ⟨hstep, -⟩ | ⟨p, hp, hstep, -⟩
  · rw [hstep] at hnew
    exact absurd h.nextPid_eq hnew
  · have hrec := recruited_takeSignals hk signalCount hr hp
    obtain rfl := hkeyed.pid_eq hp
    rw [← h.nextPid_eq] at hknown
    rw [hstep, ← h.nextPid_eq] at hnew hq
    exact recruited_made hkeyed hrec hknown hnew hq

end

end World

end JobShell
