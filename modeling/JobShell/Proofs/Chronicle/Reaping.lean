import JobShell.Proofs.Chronicle.Foreground

/-!
# The reaping of background jobs

A pass makes as many attempts as the count was when it began, SIGCHLDs that wait together are taken
as one, and the handler does nothing while there is a foreground job. What makes up for this is
coverage: as long as an ended job has not been collected, SIGCHLD waits, or a handler or the line
still makes a pass with an attempt for each child.

* `Reap.Covers`, `Handler.Covers`, `Phase.Covers`: enough attempts for so many children are left.
* `Step.covers`: what the line covers stays covered until no ended child is left.
* `Attentive`: with its handlers installed, the interpreter has every ended child covered.
* `Ledger.Precedes`, `Ledger.Collects`: a ledger at two times, and the jobs that had ended at the
  first being collected at the second.
* `reaped_of_run`: no ended background job is left uncollected.
-/

namespace JobShell

/-! ## Coverage -/

/-- The pass still makes an attempt for each of `n` children. -/
def Reap.Covers (n : Nat) : Reap → Prop
  | start => True
  | attempting left _ | releasing left _ => n ≤ left

/-- The handler makes a pass that covers `n` children, unless there is a foreground job. -/
def Handler.Covers (n : Nat) : Handler → Prop
  | noticing => True
  | reaping pass => pass.Covers n
  | _ => False

/-- A pass that covers `n` children follows the foreground job. -/
def Phase.Covers (n : Nat) : Phase → Prop
  | noted job _ => job.background = false
  | waiting _ | collected _ | cleared _ => True
  | reaping pass _ => pass.Covers n
  | _ => False

theorem Reap.Covers.mono {m n : Nat} {pass : Reap} (h : pass.Covers n) (hm : m ≤ n) :
    pass.Covers m := by
  cases pass with
  | start => trivial
  | attempting left reaped => exact Nat.le_trans hm h
  | releasing left reaped => exact Nat.le_trans hm h

theorem Handler.Covers.mono {m n : Nat} {hd : Handler} (h : hd.Covers n) (hm : m ≤ n) :
    hd.Covers m := by
  cases hd with
  | reaping pass => exact Reap.Covers.mono h hm
  | _ => exact h

theorem Phase.Covers.mono {m n : Nat} {p : Phase} (h : p.Covers n) (hm : m ≤ n) : p.Covers m := by
  cases p with
  | reaping pass r => exact Reap.Covers.mono h hm
  | _ => exact h

/-- A foreground job is followed by a pass. -/
theorem Phase.covers_of_slots {p : Phase} {foreground : Option Pid} (n : Nat)
    (h : p.standing.Slots foreground) (hf : foreground.isSome) : p.Covers n := by
  obtain ⟨pid, rfl⟩ := Option.isSome_iff_exists.1 hf
  cases p with
  | noted job leader =>
    cases hb : job.background with
    | false => exact hb
    | true => simp [Phase.standing, hb] at h
  | waiting leader => trivial
  | collected r => trivial
  | _ => simp [Phase.standing] at h

theorem Phase.not_covers_of_isOutside {p : Phase} (h : p.isOutside) (n : Nat) : ¬p.Covers n := by
  cases p <;> first | exact id | cases h

namespace Children

/-- None of the children has ended. -/
def Running (cs : Children) : Prop := ∀ ch ∈ cs, ch.ending = none

theorem Running.of_length {cs : Children} (h : cs.length ≤ 0) : cs.Running := by
  rw [List.length_eq_zero_iff.1 (Nat.le_zero.1 h)]
  exact nofun

theorem Running.sublist {cs cs' : Children} (h : cs.Running) (hs : cs'.Sublist cs) : cs'.Running :=
  fun ch hch => h ch (hs.subset hch)

end Children

/-! ## Steps -/

/-- A pass collects children and adds none. -/
theorem Reap.Moves.sublist {who : Collector} {pass pass' : Reap} {t t' : Tracker}
    {cs cs' : Children} {d : Deed} (h : Moves who t cs pass pass' t' cs' d) : cs'.Sublist cs := by
  cases h with
  | collect hc he => exact List.filter_sublist
  | fail hc he => exact List.filter_sublist
  | _ => exact .refl _

/-- A pass that covers the children goes on covering them, or it finds none that has ended. -/
theorem Reap.Moves.covers {who : Collector} {pass pass' : Reap} {t t' : Tracker}
    {cs cs' : Children} {d : Deed} (h : Moves who t cs pass pass' t' cs' d)
    (ht : cs.length ≤ t.background) (hp : pass.Covers cs.length) :
    pass'.Covers cs'.length ∨ cs'.Running := by
  have hfilter {pid : Pid} {e : Ending} (hc : { pid, ending := some e } ∈ cs) {left : Nat}
      (hl : cs.length ≤ left + 1) : (cs.filter (·.pid ≠ pid)).length ≤ left := by
    have : (cs.filter (·.pid ≠ pid)).length < cs.length :=
      List.length_filter_lt_length_iff_exists.2 ⟨_, hc, by simp⟩
    omega
  cases h with
  | count => exact .inl ht
  | miss hcs => exact .inr hcs
  | collect hc he => exact .inl (hfilter hc hp)
  | fail hc he => exact .inl (hfilter hc hp)
  | release hb => exact .inl hp
  | underflow hb => exact .inl hp

theorem Phase.Quiet.covers {p q : Phase} (h : p.Quiet q) {n : Nat} (hp : p.Covers n) :
    q.Covers n ∨ n ≤ 0 := by
  cases h with
  | begun hi hq => rcases hi with rfl | ⟨r, rfl⟩ <;> exact hp.elim
  | grouped job pid => exact hp.elim
  | reap r => exact .inl trivial
  | concluded hr =>
    obtain rfl := Reap.eq_of_result? hr
    exact .inr hp
  | answered ha => rcases ha with ⟨pid, rfl⟩ | ⟨path, rfl⟩ | rfl <;> exact hp.elim

/-- While no job is being launched, the count is at least the number of children. -/
theorem Accounted.length_children_le {c : Chronicle} (h : Accounted c) (hk : Booked c)
    (hst : c.shell.phase.standing = .settled) :
    c.shell.children.length ≤ c.shell.tracker.background := by
  have hlive : c.shell.children.length = c.jobs.countP JobRecord.isLive := by
    rw [hk.children, Ledger.children, List.length_map, List.countP_eq_length_filter]
  have hle : c.jobs.countP JobRecord.isLive ≤ c.jobs.countP JobRecord.isOutstanding := by
    refine List.countP_mono_left fun j hj hl => ?_
    obtain ⟨hbg, hnoted⟩ := hk.live_of_settled hst hj hl
    simp [JobRecord.isOutstanding, hbg, hnoted, hl]
  rw [hlive, h.background]
  omega

theorem Children.length_finish (cs : Children) (pid : Pid) (e : Ending) :
    (cs.finish pid e).length = cs.length := List.length_map _

/-- What the line covers stays covered, until no ended child is left. -/
theorem Chronicle.Step.covers {c c' : Chronicle} (hk : Kept c) (hs : c.Step c')
    (h : c.shell.phase.Covers c.shell.children.length) :
    c'.shell.phase.Covers c'.shell.children.length ∨ c'.shell.children.Running := by
  cases hs with
  | quiet status kept h0 hq => exact (hq.covers h).imp_right Children.Running.of_length
  | hold h0 hp =>
    rw [hp] at h
    exact h.elim
  | fork h0 hp hpos hnew =>
    rw [hp] at h
    exact h.elim
  | note h0 hp =>
    rw [hp] at h
    exact h.elim
  | unhold h0 hp =>
    rw [hp] at h
    left
    simp only [show _ = false from h]
    trivial
  | await h0 hp hw => exact .inl trivial
  | orphan h0 hp hw => exact .inl trivial
  | clear h0 hp => exact .inl trivial
  | linePass h0 hp hm =>
    rw [hp] at h
    exact hm.covers (hk.accounted.length_children_le hk.booked (by rw [hp]; rfl)) h
  | handlerPass hh hm => exact .inl (h.mono hm.sublist.length_le)
  | finish hc he =>
    left
    rw [Children.length_finish]
    exact h
  | _ => exact .inl h

/-! ## Installed handlers -/

namespace Signals

variable {s : Signals} {n m : Nat}

@[simp] theorem pending_block : (s.block n).pending = s.pending := by
  unfold block
  split <;> rfl

theorem mem_pending_raise (h : m ∈ s.pending) : m ∈ (s.raise n).pending := by
  unfold raise
  split
  · exact h
  · split
    · exact h
    · exact List.mem_append_left _ h

theorem mem_pending_raise_self (h : s.disposition n = .handled) : n ∈ (s.raise n).pending := by
  have hkept : ¬(s.isDropped n ∧ n ∉ s.blocked) := by simp [isDropped, h]
  unfold raise
  rw [if_neg hkept]
  split
  · assumption
  · exact List.mem_append_right _ List.mem_cons_self

theorem mem_pending_take (h : m ∈ s.pending) (hm : m ≠ n) : m ∈ (s.take n).pending :=
  List.mem_filter.2 ⟨h, by simpa using hm⟩

end Signals

/-- SIGCHLD is handled, and as long as an ended child is left, it waits or a pass covers the
children. -/
structure Attentive (s : Shell) : Prop where
  handled : s.signals.disposition Signal.child = .handled
  covered : s.children.Running ∨ Signal.child ∈ s.signals.pending ∨
    (∃ hd ∈ s.handlers, hd.Covers s.children.length) ∨ s.phase.Covers s.children.length

namespace Attentive

variable {c c' : Chronicle}

theorem start (home : Option Bytes) : Attentive (Chronicle.start true home).shell where
  handled := rfl
  covered := .inl nofun

/-- The line moves while no handler runs, and no child ends or is forked. -/
theorem of_line {s : Shell} (h : Attentive c.shell) (hk : Kept c) (h0 : c.shell.handlers = [])
    {jobs : Ledger} (hs : c.Step ⟨s, jobs⟩)
    (hd : s.signals.disposition Signal.child = c.shell.signals.disposition Signal.child)
    (hp : s.signals.pending = c.shell.signals.pending)
    (hc : c.shell.children.Running → s.children.Running) : Attentive s := by
  refine ⟨hd.trans h.handled, ?_⟩
  rcases h.covered with hrun | hpend | ⟨hd, hmem, -⟩ | hphase
  · exact .inl (hc hrun)
  · rw [hp]
    exact .inr (.inl hpend)
  · rw [h0] at hmem
    cases hmem
  · rcases hs.covers hk hphase with hphase | hrun
    · exact .inr (.inr (.inr hphase))
    · exact .inl hrun

/-- A pass of the handler goes on. -/
theorem handlerPass {pass pass' : Reap} {t : Tracker} {cs : Children} {d : Deed}
    {rest : List Handler} (h : Attentive c.shell) (hk : Kept c)
    (hh : c.shell.handlers = .reaping pass :: rest)
    (hm : Reap.Moves .handler c.shell.tracker c.shell.children pass pass' t cs d) :
    Attentive
      { c.shell with tracker := t, children := cs, handlers := .reaping pass' :: rest } := by
  refine ⟨h.handled, ?_⟩
  have hlen := hm.sublist.length_le
  have hcov := h.covered
  rw [hh] at hcov
  rcases hcov with hrun | hpend | ⟨hd, hmem, hcovers⟩ | hphase
  · exact .inl (hrun.sublist hm.sublist)
  · exact .inr (.inl hpend)
  · rcases List.mem_cons.1 hmem with rfl | hmem
    · have hle := hk.accounted.length_children_le hk.booked (hk.controlled.settled_of_reaping hh)
      rcases hm.covers hle hcovers with hpass | hrun
      · exact .inr (.inr (.inl ⟨_, List.mem_cons_self, hpass⟩))
      · exact .inl hrun
    · exact .inr (.inr (.inl ⟨hd, List.mem_cons_of_mem _ hmem, hcovers.mono hlen⟩))
  · exact .inr (.inr (.inr (hphase.mono hlen)))

/-- A handler ends. One that has taken notice leaves the children to the foreground job's line. -/
theorem handlerEnd {hd : Handler} {rest : List Handler} (h : Attentive c.shell) (hk : Kept c)
    (hh : c.shell.handlers = hd :: rest) (hr : hd.Returns c.shell.tracker) :
    Attentive { c.shell with handlers := rest } := by
  refine ⟨h.handled, ?_⟩
  have hcov := h.covered
  rw [hh] at hcov
  rcases hcov with hrun | hpend | ⟨k, hmem, hcovers⟩ | hphase
  · exact .inl hrun
  · exact .inr (.inl hpend)
  · rcases List.mem_cons.1 hmem with rfl | hmem
    · cases hr with
      | forwarded pid => exact hcovers.elim
      | ignored hf => exact .inr (.inr (.inr (Phase.covers_of_slots _ hk.controlled.slots hf)))
      | reaped hp =>
        obtain rfl := Reap.eq_of_result? hp
        exact .inl (.of_length hcovers)
    · exact .inr (.inr (.inl ⟨k, hmem, hcovers⟩))
  · exact .inr (.inr (.inr hphase))

theorem interrupt {hd hd' : Handler} {rest : List Handler} (h : Attentive c.shell)
    (hh : c.shell.handlers = hd :: rest) (hi : hd.Interrupts c.shell.tracker hd') :
    Attentive { c.shell with handlers := hd' :: rest } := by
  refine ⟨h.handled, ?_⟩
  have hcov := h.covered
  rw [hh] at hcov
  refine hcov.imp_right (Or.imp_right (Or.imp_left ?_))
  rintro ⟨k, hmem, hcovers⟩
  rcases List.mem_cons.1 hmem with rfl | hmem
  · cases hi <;> exact hcovers.elim
  · exact ⟨k, List.mem_cons_of_mem _ hmem, hcovers⟩

/-- A handled signal is taken; if it was SIGCHLD, the handler that starts covers the children. -/
theorem take (h : Attentive c.shell) (n : Nat) :
    Attentive { c.shell with
      signals := c.shell.signals.take n
      handlers := Shell.handlerOf n :: c.shell.handlers } := by
  refine ⟨h.handled, ?_⟩
  rcases h.covered with hrun | hpend | ⟨k, hmem, hcovers⟩ | hphase
  · exact .inl hrun
  · by_cases hne : Signal.child = n
    · subst hne
      exact .inr (.inr (.inl ⟨_, List.mem_cons_self, trivial⟩))
    · exact .inr (.inl (Signals.mem_pending_take hpend hne))
  · exact .inr (.inr (.inl ⟨k, List.mem_cons_of_mem _ hmem, hcovers⟩))
  · exact .inr (.inr (.inr hphase))

theorem step (h : Attentive c.shell) (hk : Kept c) (hs : c.Step c') : Attentive c'.shell := by
  cases hs with
  | quiet status kept h0 hq => exact h.of_line hk h0 (.quiet status kept h0 hq) rfl rfl id
  | hold h0 hp => exact h.of_line hk h0 (.hold h0 hp) (by simp) (by simp) id
  | fork h0 hp hpos hnew =>
    refine h.of_line hk h0 (.fork h0 hp hpos hnew) rfl rfl fun hrun ch hch => ?_
    rcases List.mem_append.1 hch with hch | hch
    · exact hrun ch hch
    · rw [List.mem_singleton.1 hch]
  | note h0 hp => exact h.of_line hk h0 (.note h0 hp) rfl rfl id
  | unhold h0 hp => exact h.of_line hk h0 (.unhold h0 hp) rfl rfl id
  | await h0 hp hw =>
    refine h.of_line hk h0 (.await h0 hp hw) rfl rfl fun hrun => hrun.sublist ?_
    rw [(Children.waitFor_collected hw).2.2]
    exact List.filter_sublist
  | orphan h0 hp hw => exact h.of_line hk h0 (.orphan h0 hp hw) rfl rfl id
  | clear h0 hp => exact h.of_line hk h0 (.clear h0 hp) rfl rfl id
  | linePass h0 hp hm =>
    exact h.of_line hk h0 (.linePass h0 hp hm) rfl rfl fun hrun => hrun.sublist hm.sublist
  | handlerPass hh hm => exact h.handlerPass hk hh hm
  | handlerStart hh hf =>
    exact ⟨h.handled, .inr (.inr (.inl ⟨_, List.mem_cons_self, trivial⟩))⟩
  | handlerEnd hh hr => exact h.handlerEnd hk hh hr
  | interrupt hh hi => exact h.interrupt hh hi
  | take hn hd => exact h.take _
  | @discard n hd =>
    refine ⟨h.handled, h.covered.imp_right (Or.imp_left fun hpend => ?_)⟩
    refine Signals.mem_pending_take hpend fun hne => ?_
    rw [← hne] at hd
    exact hd h.handled
  | told kept => exact ⟨h.handled, h.covered⟩
  | raise n =>
    exact ⟨by simpa using h.handled, h.covered.imp_right (Or.imp_left Signals.mem_pending_raise)⟩
  | finish hc he =>
    exact ⟨by simpa using h.handled, .inr (.inl (Signals.mem_pending_raise_self h.handled))⟩

end Attentive

/-! ## What becomes of a ledger -/

/-- `new` has the jobs of `old` in their places, where they may have ended, been collected and so
on. -/
def Ledger.Precedes (old new : Ledger) : Prop :=
  ∀ (i : Nat) (j : JobRecord), old[i]? = some j → ∃ k, new[i]? = some k ∧ k.leader = j.leader ∧
    k.background = j.background ∧ (j.ending.isSome → k.ending.isSome) ∧
    (j.isLive = false → k.isLive = false)

/-- The background jobs of `old` that had ended have been collected in `new`. -/
def Ledger.Collects (old new : Ledger) : Prop :=
  ∀ (i : Nat) (j : JobRecord), old[i]? = some j → j.background → j.ending.isSome →
    ∃ k, new[i]? = some k ∧ k.leader = j.leader ∧ k.isLive = false

namespace Ledger

variable {old mid new : Ledger}

theorem Precedes.refl (jobs : Ledger) : jobs.Precedes jobs :=
  fun _ j hj => ⟨j, hj, rfl, rfl, id, id⟩

theorem Precedes.trans (h : old.Precedes mid) (h' : mid.Precedes new) : old.Precedes new := by
  intro i j hj
  obtain ⟨k, hk, hleader, hbg, hend, hlive⟩ := h i j hj
  obtain ⟨m, hm, hleader', hbg', hend', hlive'⟩ := h' i k hk
  exact ⟨m, hm, hleader'.trans hleader, hbg'.trans hbg, hend' ∘ hend, hlive' ∘ hlive⟩

theorem Collects.trans (h : old.Collects mid) (h' : mid.Precedes new) : old.Collects new := by
  intro i j hj hbg hend
  obtain ⟨k, hk, hleader, hlive⟩ := h i j hj hbg hend
  obtain ⟨m, hm, hleader', -, -, hlive'⟩ := h' i k hk
  exact ⟨m, hm, hleader'.trans hleader, hlive' hlive⟩

theorem getElem?_amend (leader : Pid) (f : JobRecord → JobRecord) {jobs : Ledger} {i : Nat}
    {j : JobRecord} (h : jobs[i]? = some j) :
    (jobs.amend leader f)[i]? = some j ∨ (jobs.amend leader f)[i]? = some (f j) := by
  induction jobs generalizing i with
  | nil => cases h
  | cons k rest ih =>
    unfold amend
    cases i with
    | zero =>
      cases h
      split
      · exact .inr rfl
      · exact .inl rfl
    | succ i =>
      split
      · exact .inl h
      · exact ih h

theorem precedes_amend {leader : Pid} {f : JobRecord → JobRecord} (jobs : Ledger)
    (hleader : ∀ j, (f j).leader = j.leader) (hbg : ∀ j, (f j).background = j.background)
    (hend : ∀ j, j.ending.isSome → (f j).ending.isSome)
    (hlive : ∀ j, j.isLive = false → (f j).isLive = false) :
    jobs.Precedes (jobs.amend leader f) := by
  intro i j hj
  rcases getElem?_amend leader f hj with hk | hk
  · exact ⟨j, hk, rfl, rfl, id, id⟩
  · exact ⟨f j, hk, hleader j, hbg j, hend j, hlive j⟩

theorem precedes_record (jobs : Ledger) (d : Deed) : jobs.Precedes (jobs.record d) := by
  cases d with
  | launched leader background =>
    intro i j hj
    obtain ⟨hi, -⟩ := List.getElem?_eq_some_iff.1 hj
    exact ⟨j, (List.getElem?_append_left hi).trans hj, rfl, rfl, id, id⟩
  | noted leader =>
    exact jobs.precedes_amend (fun _ => rfl) (fun _ => rfl) (fun _ => id) fun _ => id
  | ended leader e =>
    exact jobs.precedes_amend (fun _ => rfl) (fun _ => rfl) (fun _ _ => rfl) fun _ => id
  | collected who leader =>
    refine jobs.precedes_amend (fun _ => rfl) (fun _ => rfl) (fun _ => id) fun j _ => ?_
    simp [JobRecord.isLive]
  | released who =>
    intro i j hj
    have hk : (jobs.map (·.release who))[i]? = some (j.release who) := by
      rw [List.getElem?_map, hj]
      rfl
    have hend : (j.release who).ending = j.ending := congrArg Child.ending (j.child_release who)
    exact ⟨_, hk, by simp, by simp, by simp [hend], by simp⟩
  | nothing => exact .refl jobs

end Ledger

namespace Chronicle

variable {c c' : Chronicle}

theorem Step.precedes (hs : c.Step c') : c.jobs.Precedes c'.jobs := by
  cases hs with
  | @fork job pid h0 hp hpos hnew => exact c.jobs.precedes_record (.launched pid job.background)
  | @note job pid h0 hp => exact c.jobs.precedes_record (.noted pid)
  | @await pid e cs h0 hp hw => exact c.jobs.precedes_record (.collected .wait pid)
  | @linePass pass pass' t cs d r h0 hp hm => exact c.jobs.precedes_record d
  | @handlerPass pass pass' t cs d rest hh hm => exact c.jobs.precedes_record d
  | @finish pid e hc he => exact c.jobs.precedes_record (.ended pid e)
  | _ => exact .refl _

/-- When no ended child is left, all that had ended have been collected. -/
theorem collects_of_running (hk : Booked c) {old : Ledger} (h : old.Precedes c.jobs)
    (hrun : c.shell.children.Running) : old.Collects c.jobs := by
  intro i j hj hbg hend
  obtain ⟨k, hkj, hleader, -, hend', -⟩ := h i j hj
  refine ⟨k, hkj, hleader, ?_⟩
  cases hl : k.isLive with
  | false => rfl
  | true =>
    have hmem : k.child ∈ c.shell.children := by
      rw [hk.children]
      exact Ledger.mem_children.2 ⟨k, List.mem_of_getElem? hkj, hl, rfl⟩
    have hnone : k.ending = none := hrun _ hmem
    have := hend' hend
    rw [hnone] at this
    cases this

/-- What had ended before the foreground job is taken off the tracker is collected in the end. -/
theorem collects_of_run {evs : List Event} {r : Except Errno Status} (hk : Kept c)
    (hp : c.shell.phase = .collected r) (h : c.run evs = some c')
    (hout : c'.shell.phase.isOutside) : c.jobs.Collects c'.jobs := by
  obtain ⟨-, -, hcovers | hall⟩ := run_induction
    (P := fun d => Kept d ∧ c.jobs.Precedes d.jobs ∧
      (d.shell.phase.Covers d.shell.children.length ∨ c.jobs.Collects d.jobs))
    (by
      intro d d' ⟨hd, hpre, hcov⟩ hs
      have hd' := hd.step hs
      have hpre' := hpre.trans hs.precedes
      refine ⟨hd', hpre', ?_⟩
      rcases hcov with hcov | hall
      · exact (hs.covers hd hcov).imp_right (collects_of_running hd'.booked hpre')
      · exact .inr (hall.trans hs.precedes))
    ⟨hk, .refl _, .inl (by rw [hp]; trivial)⟩ h
  · exact absurd hcovers (Phase.not_covers_of_isOutside hout _)
  · exact hall

/-- No ended background job is left: once the line of a foreground job is over, those have been
collected that had ended before the job was taken off the tracker; and with the handlers installed,
outside a launch, with no handler running and no SIGCHLD waiting, all that have ended. -/
theorem reaped_of_run {handlers : Bool} {home : Option Bytes} {evs : List Event} {c : Chronicle}
    (h : (start handlers home).run evs = some c) :
    (∀ r later c', c.shell.phase = .collected r → c.run later = some c' →
      c'.shell.phase.isOutside → c.jobs.Collects c'.jobs) ∧
    (handlers = true → c.shell.phase.isOutside → c.shell.handlers = [] →
      Signal.child ∉ c.shell.signals.pending →
      ∀ j ∈ c.jobs, j.background → j.ending.isSome → j.isLive = false) := by
  have hk := Kept.of_run h
  refine ⟨fun r later c' hp hlater hout => collects_of_run hk hp hlater hout, ?_⟩
  rintro rfl hout h0 hpend j hj hbg hend
  obtain ⟨-, hatt⟩ := run_induction (P := fun d => Kept d ∧ Attentive d.shell)
    (fun _ _ ⟨hd, ha⟩ hs => ⟨hd.step hs, ha.step hd hs⟩) ⟨.start true home, .start home⟩ h
  rcases hatt.covered with hrun | hpend' | ⟨hd, hmem, -⟩ | hphase
  · obtain ⟨i, hi⟩ := List.getElem?_of_mem hj
    obtain ⟨k, hkj, -, hlive⟩ := collects_of_running hk.booked (.refl _) hrun i j hi hbg hend
    rw [hi] at hkj
    cases hkj
    exact hlive
  · exact absurd hpend' hpend
  · rw [h0] at hmem
    cases hmem
  · exact absurd hphase (Phase.not_covers_of_isOutside hout _)

/-- Two background jobs end behind one SIGCHLD, one of them by a real-time signal, while a
foreground job is waited for; the handler leaves them to the line. -/
def mergedEnds : List Event :=
  Event.launch [97, 32, 38] 5 ++ [.answered (.ok ())] ++
  Event.launch [97, 32, 38] 6 ++ [.answered (.ok ())] ++
  Event.launch [97] 7 ++
  [.ended 5 (.killed 40), .ended 6 (.exited 0), .ended 7 (.exited 0), .taken, .move, .move]

/-- The rest of the line. -/
def mergedEndsRest : List Event := List.replicate 7 .move

theorem run_mergedEnds :
    ((start true none).run mergedEnds).any (fun c => c.shell.phase matches .collected _) := by
  decide +kernel

theorem run_mergedEnds_rest :
    ((start true none).run (mergedEnds ++ mergedEndsRest)).map (fun c =>
      (c.shell.phase.isOutside, c.shell.handlers, c.shell.signals.pending)) =
      some (true, [], []) := by
  decide +kernel

theorem reaped_of_mergedEnds :
    ∃ c c', (start true none).run mergedEnds = some c ∧ c.run mergedEndsRest = some c' ∧
      c.jobs.Collects c'.jobs ∧
      ∀ j ∈ c'.jobs, j.background → j.ending.isSome → j.isLive = false := by
  obtain ⟨c', hc', heq⟩ := Option.map_eq_some_iff.1 run_mergedEnds_rest
  obtain ⟨hout, heq⟩ := Prod.mk.inj heq
  obtain ⟨h0, hpend⟩ := Prod.mk.inj heq
  have hlater := hc'
  rw [run_append] at hlater
  obtain ⟨c, hc, hrest⟩ := Option.bind_eq_some_iff.1 hlater
  obtain ⟨r, hp⟩ : ∃ r, c.shell.phase = .collected r := by
    have hm := run_mergedEnds
    rw [hc, Option.any_some] at hm
    split at hm
    · exact ⟨_, ‹_›⟩
    · cases hm
  refine ⟨c, c', hc, hrest, (reaped_of_run hc).1 _ _ c' hp hrest hout, ?_⟩
  exact (reaped_of_run hc').2 rfl hout h0 (by rw [hpend]; exact List.not_mem_nil)

end Chronicle

end JobShell
