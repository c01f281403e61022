import JobShell.Proofs.Isolation.Incidents

/-!
# The farewell of a process

A process that the interpreter forks does about a SIGINT what the interpreter does, until it sets
what is done about one: it writes a farewell and ends.

* `World.Fades`: a process is not given a farewell. `World.fades_step`: no step of its own gives it
  one.
* `Doing.resets`: it sets what is done about a SIGINT, after which it has no farewell.
* `World.Alarmed`: a SIGINT has reached a process that has a farewell; `World.alarmed_of_doing?` says
  that it takes its leave for nothing else.
* `World.Parts`: a process has been started with this farewell, and has it only as long as it has
  not set what is done about a SIGINT. `Machine.Meets.parts` says that every incident keeps it so.
-/

namespace JobShell

/-- It sets what is done about a SIGINT. -/
def Doing.resets : Doing → Bool
  | called (.dispose signal _) _ => signal = Signal.interrupt
  | _ => false

namespace World

/-- What a process writes when it takes a SIGINT, if it ends then. -/
def farewell (w : World) (pid : Pid) : Option Bytes := (w.process? pid).bind Process.farewell

/-- A process is given no farewell. -/
def Fades (w w' : World) (pid : Pid) : Prop :=
  ∀ text, w'.farewell pid = some text → w.farewell pid = some text

variable {w w' w₁ w₂ : World} {p q : Process} {pid : Pid} {d : Option Doing} {text : Bytes}

theorem farewell_eq (hp : w.process? pid = some p) : w.farewell pid = p.farewell := by
  rw [farewell, hp]
  rfl

theorem farewell_of_none (hp : w.process? pid = none) : w.farewell pid = none := by
  rw [farewell, hp]
  rfl

theorem farewell_of_own? (h : w'.own? pid = w.own? pid) : w'.farewell pid = w.farewell pid := by
  have hfarewell (w : World) : w.farewell pid = (w.own? pid).bind Process.farewell := by
    unfold farewell own?
    cases w.process? pid <;> rfl
  rw [hfarewell, hfarewell, h]

theorem Fades.of_eq (h : w'.farewell pid = w.farewell pid) : w.Fades w' pid :=
  fun _ htext => h.symm.trans htext

theorem Fades.of_none (h : w'.farewell pid = none) : w.Fades w' pid :=
  fun _ htext => by cases h.symm.trans htext

theorem Fades.trans (h : w.Fades w₁ pid) (h' : w₁.Fades w₂ pid) : w.Fades w₂ pid :=
  fun text htext => h text (h' text htext)

/-! ## Steps -/

theorem fades_setProcess (hp : w.process? pid = some p) (hpid : q.pid = pid)
    (hq : q.farewell = p.farewell ∨ q.farewell = none) : w.Fades (w.setProcess q) pid := by
  have h : (w.setProcess q).farewell pid = q.farewell :=
    farewell_eq (by rw [process?_setProcess, if_pos hpid])
  rcases hq with hq | hq
  · exact .of_eq (by rw [h, hq, farewell_eq hp])
  · exact .of_none (h.trans hq)

theorem fades_modifyProcess (hk : w.Keyed) {f : Process → Process} (hpid : ∀ p, (f p).pid = p.pid)
    (hf : ∀ p, (f p).farewell = p.farewell) : w.Fades (w.modifyProcess pid f) pid := by
  refine .of_eq ?_
  rw [farewell, process?_modifyProcess hk hpid, farewell]
  cases w.process? pid with
  | none => rfl
  | some p => exact hf p

theorem fades_finish (hk : w.Keyed) (e : Ending) : w.Fades (w.finish pid e) pid :=
  .of_none (farewell_of_none (process?_finish hk pid e))

theorem fades_takeSignal (hk : w.Keyed) (hp : w.process? pid = some p) (n : Nat) :
    w.Fades (w.takeSignal p n) pid := by
  have hpid := hk.pid_eq hp
  rcases w.takeSignal_cases p n with ⟨caught, interrupted, stopped, h⟩ | ⟨-, -, h⟩
  · rw [h]
    exact fades_setProcess hp hpid (.inl rfl)
  · rw [h]
    exact .of_none (farewell_of_none (hpid ▸ process?_finish (keyed_setProcess hk _) _ _))

theorem fades_takeSignals (hk : w.Keyed) (n : Nat) (pid : Pid) :
    w.Fades (w.takeSignals n pid) pid := by
  refine takeSignals_induction (motive := fun w w' => w.Keyed → w.Fades w' pid)
    (fun w _ => .of_eq rfl) (fun w w' p s hp _ ih hk => ?_) n w hk
  exact (fades_takeSignal hk hp s).trans (ih ((leaves_takeSignal hk p s).keyed hk))

theorem Effect.fades {c : Call} (h : w.Effect p c w') (hk : w.Keyed)
    (hp : w.process? p.pid = some p) : w.Fades w' p.pid := by
  obtain ⟨w₁, hleaves, rfl | ⟨q, rfl, hpid, -, -, hq⟩⟩ := h.leavesAll_or hk
  · exact .of_eq (farewell_of_own? (hleaves.own _ trivial))
  · obtain ⟨r, hr, hown⟩ := exists_of_own?_eq (hleaves.own p.pid trivial).symm hp
    have hsame : p.own.farewell = r.own.farewell := by rw [hown]
    refine (Fades.of_eq (farewell_of_own? (hleaves.own p.pid trivial))).trans
      (fades_setProcess hr hpid ?_)
    rwa [← show p.farewell = r.farewell from hsame]

theorem Advances.fades (h : w.Advances p d w') (hk : w.Keyed) (hp : w.process? p.pid = some p)
    (hnew : p.pid ≠ w.nextPid) : w.Fades w' p.pid := by
  have hwaits {w₁ : World} (hw : w₁ = w ∨ ∃ wake, w₁ = w.setProcess { p with wake }) :
      w₁.Keyed ∧ w.Fades w₁ p.pid := by
    rcases hw with rfl | ⟨wake, rfl⟩
    · exact ⟨hk, .of_eq rfl⟩
    · exact ⟨keyed_setProcess hk _, fades_setProcess hp rfl (.inl rfl)⟩
  cases h with
  | idles | lingers => exact .of_eq rfl
  | exits => exact fades_finish hk _
  | quits _ h =>
    have heffect := effect_of_done h
    exact (heffect.fades hk hp).trans (fades_finish ((heffect.leaves hk).keyed hk) _)
  | @forks child next =>
    have hfork : w.Fades (w.fork p child).2 p.pid :=
      .of_eq (farewell_of_own? (untouched_fork hk p child hnew).own)
    exact hfork.trans (fades_modifyProcess ((grows_fork hk p child).keyed hk)
      (f := fun q => { q with program := some (next (.ok w.nextPid)) })
      (fun _ => rfl) fun _ => rfl)
  | @calls c next reply w₁ _ h =>
    have heffect := effect_of_done h
    exact (heffect.fades hk hp).trans (fades_modifyProcess ((heffect.leaves hk).keyed hk)
      (f := fun q => { q with program := some (next reply) }) (fun _ => rfl) fun _ => rfl)
  | waits _ _ hw => exact (hwaits hw).2
  | @breaks c next reply w₁ _ _ hw =>
    obtain ⟨hkeyed, hfades⟩ := hwaits hw
    exact hfades.trans (fades_modifyProcess hkeyed
      (f := fun q => { q with program := some (next reply), interrupted := false, wake := none })
      (fun _ => rfl) fun _ => rfl)
  | executes _ h => exact (effect_of_become h).fades hk hp

/-- No step of a process gives it a farewell. -/
theorem fades_step (hk : w.Keyed) (hknown : pid < w.nextPid) : w.Fades (w.step pid).1 pid := by
  have htaken := fades_takeSignals hk signalCount pid
  have hleaves := leaves_takeSignals hk signalCount pid
  have hkeyed := hleaves.keyed hk
  rcases w.doing?_cases pid with ⟨hstep, -⟩ | ⟨p, hp, hstep, -⟩
  · rw [hstep]
    exact htaken
  · obtain rfl := hkeyed.pid_eq hp
    rw [← hleaves.nextPid_eq] at hknown
    rw [hstep]
    exact htaken.trans ((World.advances _ p).fades hkeyed hp (Int.ne_of_lt hknown))

/-- A process that has set what is done about a SIGINT has no farewell. -/
theorem farewell_of_resets {d : Doing} (hk : w.Keyed) (h : w.doing? pid = some d)
    (hd : d.resets) : (w.step pid).1.farewell pid = none := by
  unfold Doing.resets at hd
  split at hd
  · rename_i signal disposition reply
    obtain rfl := of_decide_eq_true hd
    obtain ⟨p, next, w', hp, -, hperform, hstep⟩ := performed_of_doing? h nofun
    have hkeyed := (leaves_takeSignals hk signalCount pid).keyed hk
    obtain rfl := hkeyed.pid_eq hp
    obtain ⟨hw', -⟩ := Outcome.done.inj hperform
    have hdispose : ((takeSignals signalCount w p.pid).dispose p Signal.interrupt disposition).1 =
        (takeSignals signalCount w p.pid).setProcess { p with
          signals := p.signals.dispose Signal.interrupt disposition, farewell := none } := rfl
    rw [hstep, ← hw', hdispose, farewell,
      process?_modifyProcess (keyed_setProcess hkeyed _) (fun _ => by rfl), process?_setProcess,
      if_pos rfl]
    rfl
  · cases hd

/-! ## The SIGINT -/

/-- A process has this farewell and has taken a SIGINT, or has one waiting that it does not leave to
the system. -/
def Alarmed (w : World) (pid : Pid) (text : Bytes) : Prop :=
  ∃ p, w.process? pid = some p ∧ p.farewell = some text ∧ (Signal.interrupt ∈ p.caught ∨
    Signal.interrupt ∈ p.signals.pending ∧ p.signals.disposition Signal.interrupt = .handled)

/-- A process catches the signal it takes only if it handles it. -/
theorem caught_takeSignal (hk : w.Keyed) {n : Nat}
    (hq : (w.takeSignal p n).process? p.pid = some q) :
    q.signals = p.signals.take n ∧ q.farewell = p.farewell ∧
      ∀ k ∈ q.caught, k ∈ p.caught ∨ k = n ∧ p.signals.disposition k = .handled := by
  have hset {r : Process} (hq : (w.setProcess r).process? p.pid = some q)
      (hpid : r.pid = p.pid) : q = r := by
    rw [process?_setProcess, if_pos hpid] at hq
    exact (Option.some.inj hq).symm
  unfold takeSignal at hq
  dsimp only at hq
  split at hq
  · obtain rfl := hset hq rfl
    exact ⟨rfl, rfl, fun k hmem => .inl hmem⟩
  · rename_i hhandled
    obtain rfl := hset hq rfl
    refine ⟨rfl, rfl, fun k hmem => ?_⟩
    rcases List.mem_append.1 hmem with hmem | hmem
    · exact .inl hmem
    · obtain rfl := List.mem_singleton.1 hmem
      exact .inr ⟨rfl, hhandled⟩
  · split at hq
    · rw [process?_finish (keyed_setProcess hk _)] at hq
      cases hq
    all_goals
      obtain rfl := hset hq rfl
      exact ⟨rfl, rfl, fun k hmem => .inl hmem⟩

theorem Alarmed.before_takeSignal (hk : w.Keyed) (hp : w.process? pid = some p) {n : Nat}
    (hn : n ∈ p.signals.pending) (h : (w.takeSignal p n).Alarmed pid text) :
    w.Alarmed pid text := by
  obtain rfl := hk.pid_eq hp
  obtain ⟨q, hq, hf, hsignal⟩ := h
  obtain ⟨hsignals, hfarewell, hcaught⟩ := caught_takeSignal hk hq
  refine ⟨p, hp, hfarewell ▸ hf, ?_⟩
  rcases hsignal with hmem | ⟨hmem, hhandled⟩
  · rcases hcaught _ hmem with hmem | ⟨rfl, hhandled⟩
    · exact .inl hmem
    · exact .inr ⟨hn, hhandled⟩
  · rw [hsignals] at hmem hhandled
    exact .inr ⟨(List.mem_filter.1 hmem).1, hhandled⟩

/-- A process takes its leave only after a SIGINT. -/
theorem alarmed_of_doing? {reply : Except Errno Nat} (hk : w.Keyed)
    (h : w.doing? pid = some (.interrupted text reply)) : w.Alarmed pid text := by
  have htaken : (w.takeSignals signalCount pid).Alarmed pid text := by
    rcases w.doing?_cases pid with ⟨-, ⟨hd, -⟩ | ⟨hd, -⟩⟩ | ⟨p, hp, -, hd⟩
    · cases hd.symm.trans h
    · obtain ⟨-, -, hkilled⟩ := Option.map_eq_some_iff.1 (hd.symm.trans h)
      cases hkilled
    · have hadvances := World.advances (w.takeSignals signalCount pid) p
      rw [← hd, h] at hadvances
      generalize ((w.takeSignals signalCount pid).advance p).1 = w' at hadvances
      cases hadvances with
      | quits hf =>
        unfold Process.farewell? at hf
        split at hf
        · exact ⟨p, hp, hf, .inl ‹_›⟩
        · cases hf
  refine takeSignals_induction
    (motive := fun w w' => w.Keyed → w'.Alarmed pid text → w.Alarmed pid text)
    (fun _ _ h => h) (fun w w' p n hp hn ih hk h => ?_) signalCount w hk htaken
  exact (ih ((leaves_takeSignal hk p n).keyed hk) h).before_takeSignal hk hp
    (Signals.of_next? hn).1

/-- A process that takes its leave has its farewell until then. -/
theorem farewell_of_doing? {reply : Except Errno Nat} (hk : w.Keyed)
    (h : w.doing? pid = some (.interrupted text reply)) : w.farewell pid = some text := by
  obtain ⟨p, hp, hf, -⟩ := alarmed_of_doing? hk h
  rw [farewell_eq hp, hf]

/-! ## Paths -/

/-- Process `pid` has been started with this farewell and has done this. It has it only as long as
it has not set what is done about a SIGINT, and so has it been when it took its leave. -/
structure Parts (w : World) (pid : Pid) (text? : Option Bytes) (ds : Doings) : Prop where
  has : ∀ text, w.farewell pid = some text → text? = some text ∧ ds.any Doing.resets = false
  left : ∀ text reply, .interrupted text reply ∈ ds →
    text? = some text ∧ ds.any Doing.resets = false

variable {text? : Option Bytes} {ds : Doings}

theorem Parts.nil (h : ∀ text, w.farewell pid = some text → text? = some text) :
    w.Parts pid text? [] where
  has _ htext := ⟨h _ htext, rfl⟩
  left _ _ hmem := absurd hmem List.not_mem_nil

theorem Parts.then {d? : Option Doing} (h : w.Parts pid text? ds) (hfades : w.Fades w' pid)
    (hresets : ∀ d, d? = some d → d.resets → w'.farewell pid = none)
    (hleft : ∀ text reply, d? = some (.interrupted text reply) → w.farewell pid = some text) :
    w'.Parts pid text? (ds.then d?) := by
  unfold Doings.then
  split
  · exact ⟨fun text htext => h.has text (hfades text htext), h.left⟩
  rename_i hlast
  cases d? with
  | none =>
    rw [Option.toList_none, List.append_nil]
    exact ⟨fun text htext => h.has text (hfades text htext), h.left⟩
  | some d =>
    have hany : (ds ++ [d]).any Doing.resets = (ds.any Doing.resets || d.resets) := by
      rw [List.any_append, List.any_cons, List.any_nil, Bool.or_false]
    refine ⟨fun text htext => ?_, fun text reply hmem => ?_⟩
    · obtain ⟨hstart, hds⟩ := h.has text (hfades text htext)
      cases hd : d.resets with
      | true => cases (hresets d rfl hd).symm.trans htext
      | false => exact ⟨hstart, by rw [Option.toList_some, hany, hds, hd]; rfl⟩
    · rcases List.mem_append.1 hmem with hmem | hmem
      · exact absurd (List.any_eq_true.2 ⟨_, hmem, rfl⟩) hlast
      · obtain rfl := List.mem_singleton.1 hmem
        obtain ⟨hstart, hds⟩ := h.has text (hleft text reply rfl)
        exact ⟨hstart, by rw [Option.toList_some, hany, hds]; rfl⟩

end World

namespace Launch

variable {env : List Bytes} {p : Pipeline} {ds front : Doings} {text? : Option Bytes} {text : Bytes}
  {a child : Act} {o : Option Act}

/-- The leader of a job has taken its leave. It had done nothing then but ask for a group of its own,
if that. -/
def Parted (text? : Option Bytes) (ds : Doings) : Prop :=
  ∃ text reply, text? = some text ∧ (ds = [.interrupted text reply] ∨
    ∃ grouped, ds = [.called (.setGroup 0 0) grouped, .interrupted text reply])

/-- Before all else the leader asks for a group of its own, and sets what is done about a SIGINT. -/
theorem leader_resets (env : List Bytes) (p : Pipeline) : ∃ next, (leader env p).run =
    .call (.setGroup 0 0) fun _ => .call (.dispose Signal.interrupt .default) next := ⟨_, rfl⟩

theorem resets_or_of_path (h : (leader env p).run.Path ds o) : ds.any Doing.resets ∨
    ∃ front, (front = [] ∨ ∃ grouped, front = [.called (.setGroup 0 0) grouped]) ∧
      (ds = front ∨ ds = front ++ [.killed] ∧ o = none) := by
  obtain ⟨next, hrun⟩ := leader_resets env p
  rw [hrun] at h
  rcases h.of_call nofun with (⟨rfl, -⟩ | ⟨rfl, ho⟩) | ⟨grouped, rest, rfl, hrest⟩
  · exact .inr ⟨[], .inl rfl, .inl rfl⟩
  · exact .inr ⟨[], .inl rfl, .inr ⟨rfl, ho⟩⟩
  rcases hrest.of_call nofun with (⟨rfl, -⟩ | ⟨rfl, ho⟩) | ⟨reply, rest, rfl, -⟩
  · exact .inr ⟨_, .inr ⟨grouped, rfl⟩, .inl rfl⟩
  · exact .inr ⟨_, .inr ⟨grouped, rfl⟩, .inr ⟨rfl, ho⟩⟩
  · exact .inl rfl

/-- A leader that takes its leave has not set what is done about a SIGINT. -/
theorem parted_of_path {reply : Except Errno Nat} (hpath : (leader env p).run.Path front (some a))
    (hds : ds = front ++ [.interrupted text reply]) (htext : text? = some text)
    (hresets : ds.any Doing.resets = false) : Parted text? ds := by
  subst hds
  rcases resets_or_of_path hpath with hany | ⟨first, hfirst, rfl | ⟨-, ho⟩⟩
  · rw [List.any_append, hany] at hresets
    cases hresets
  · refine ⟨text, reply, htext, ?_⟩
    rcases hfirst with rfl | ⟨grouped, rfl⟩
    · exact .inl rfl
    · exact .inr ⟨grouped, rfl⟩
  · cases ho

/-- A leader that forks has set what is done about a SIGINT before. -/
theorem resets_of_forked {reply : Except Errno Pid} (hpath : (leader env p).run.Path ds o)
    (hmem : .forked child reply ∈ ds) : ds.any Doing.resets := by
  rcases resets_or_of_path hpath with hany | ⟨front, rfl | ⟨grouped, rfl⟩, rfl | ⟨rfl, -⟩⟩
  · exact hany
  all_goals simp at hmem

end Launch

namespace Machine

variable {m m' : Machine} {i : Incident} {pid : Pid} {text? : Option Bytes} {ds : Doings}

/-- A process that has no farewell, or none any more, is given none. -/
theorem Meets.parts (hm : m.Meets i m') (hn : m.Numbered) (hpid : pid ≠ m.pid)
    (hknown : pid < m.world.nextPid) (h : m.world.Parts pid text? ds) :
    m'.world.Parts pid text? (ds.then (m.doing? pid i)) := by
  by_cases hturn : i = .happens (.turn pid)
  · subst hturn
    have hdoing : m.doing? pid (.happens (.turn pid)) = m.world.doing? pid := if_pos rfl
    cases hm with
    | happens hm =>
      cases hm with
      | turn =>
        rw [hdoing]
        exact h.then (World.fades_step hn.keyed hknown)
          (fun d => World.farewell_of_resets hn.keyed)
          fun text reply => World.farewell_of_doing? hn.keyed
  by_cases hdenied : ∃ e, i = .denied pid e
  · obtain ⟨e, rfl⟩ := hdenied
    have hdoing (d : Doing) (hd : m.doing? pid (.denied pid e) = some d) : d.IsDenied e := by
      rcases of_doing? hd with ⟨heq, -⟩ | ⟨e', heq, hd⟩
      · cases heq
      · cases heq
        exact hd
    cases hm with
    | denied hq hd =>
      obtain ⟨p, a, b, hp, -, -, rfl⟩ := World.denied?_eq_some hd
      refine h.then (World.fades_setProcess (q := { p with program := some b }) hp
          (hn.keyed.pid_eq hp :) (.inl rfl))
        (fun d hd hresets => ?_) fun text reply hd => ?_
      · cases hdoing d hd <;> cases hresets
      · cases hdoing _ hd
  · have hdenied (e : Errno) (heq : i = .denied pid e) : False := hdenied ⟨e, heq⟩
    rw [doing?_eq_none hturn hdenied]
    exact h.then (.of_eq (World.farewell_of_own? (hm.own hn hpid hknown hturn hdenied)))
      nofun nofun

end Machine

end JobShell
