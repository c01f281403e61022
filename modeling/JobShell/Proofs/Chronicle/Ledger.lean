import JobShell.Proofs.Chronicle.Control

/-!
# The ledger of a session

What the records of the jobs have to do with the system's table of children and with the point the
line has reached.

* `Ledger.children`: the table of children that belongs to a ledger.
* `Ledger.At`: where the record of a live job stands. Numbers come again, so older records may have
  the same number; they are not live.
* `JobRecord.Sound`: what every record satisfies. A foreground job is collected by the wait only, a
  background job by a pass only, and each once.
* `Booked`: the children are those of the ledger, and the live jobs are the background jobs that
  have been noted and the job that is being launched.
* `Booked.step`: every step keeps this.
-/

namespace JobShell

namespace Ledger

/-! ## The children of a ledger -/

/-- The jobs that have not been collected, as the system has them. -/
def children (jobs : Ledger) : Children := (jobs.filter JobRecord.isLive).map JobRecord.child

theorem mem_children {jobs : Ledger} {ch : Child} :
    ch ∈ jobs.children ↔ ∃ j ∈ jobs, j.isLive ∧ j.child = ch := by
  simp [children, and_assoc]

theorem children_append (as bs : Ledger) : children (as ++ bs) = as.children ++ bs.children := by
  simp [children]

theorem children_cons_live {j : JobRecord} (h : j.isLive) (jobs : Ledger) :
    children (j :: jobs) = j.child :: jobs.children := by
  simp [children, h]

theorem children_cons_collected {j : JobRecord} (h : j.isLive = false) (jobs : Ledger) :
    children (j :: jobs) = jobs.children := by
  simp [children, h]

/-- Of the jobs with one number only the latest may be live. -/
def Distinct (jobs : Ledger) : Prop :=
  jobs.Pairwise fun j k => j.leader = k.leader → j.isLive = false

/-! ## The place of a live job -/

/-- `j` is a live job, launched after those in `before` and before those in `after`. -/
structure At (jobs : Ledger) (j : JobRecord) (before after : Ledger) : Prop where
  eq : jobs = before ++ j :: after
  live : j.isLive
  older : ∀ k ∈ before, k.isLive → k.leader ≠ j.leader
  newer : ∀ k ∈ after, k.leader ≠ j.leader

theorem exists_at {jobs : Ledger} {j : JobRecord} (h : jobs.Distinct) (hj : j ∈ jobs)
    (hlive : j.isLive) : ∃ before after, jobs.At j before after := by
  obtain ⟨before, after, rfl⟩ := List.append_of_mem hj
  obtain ⟨-, hafter, hcross⟩ := List.pairwise_append.1 h
  refine ⟨before, after, rfl, hlive, ?_, ?_⟩
  · intro k hk hkl heq
    have := hcross k hk j List.mem_cons_self heq
    rw [hkl] at this
    cases this
  · intro k hk heq
    have := (List.pairwise_cons.1 hafter).1 k hk heq.symm
    rw [hlive] at this
    cases this

namespace At

variable {jobs before after : Ledger} {j : JobRecord}

theorem amend_eq (h : jobs.At j before after) (f : JobRecord → JobRecord) :
    jobs.amend j.leader f = before ++ f j :: after := by
  obtain ⟨rfl, -, -, hnewer⟩ := h
  induction before with
  | nil => exact if_pos ⟨rfl, hnewer⟩
  | cons k rest ih =>
    have hk : ¬(k.leader = j.leader ∧ ∀ m ∈ rest ++ j :: after, m.leader ≠ j.leader) :=
      fun hc => hc.2 j (by simp) rfl
    simp only [List.cons_append, amend, if_neg hk, ih]

theorem mem (h : jobs.At j before after) : j ∈ jobs := by
  rw [h.eq]
  exact List.mem_append_right _ List.mem_cons_self

theorem mem_amend (h : jobs.At j before after) {f : JobRecord → JobRecord} {k : JobRecord} :
    k ∈ jobs.amend j.leader f ↔ k = f j ∨ k ∈ before ∨ k ∈ after := by
  rw [h.amend_eq, List.mem_append, List.mem_cons]
  exact or_left_comm

theorem eq_or_other (h : jobs.At j before after) {k : JobRecord} (hk : k ∈ jobs) :
    k = j ∨ k ∈ before ∨ k ∈ after := by
  rw [h.eq, List.mem_append, List.mem_cons] at hk
  exact or_left_comm.1 hk

theorem mem_of_other (h : jobs.At j before after) {k : JobRecord} (hk : k ∈ before ∨ k ∈ after) :
    k ∈ jobs := by
  rw [h.eq]
  rcases hk with hk | hk <;> simp [hk]

theorem leader_ne (h : jobs.At j before after) {k : JobRecord} (hk : k ∈ before ∨ k ∈ after)
    (hlive : k.isLive) : k.leader ≠ j.leader := by
  rcases hk with hk | hk
  · exact h.older k hk hlive
  · exact h.newer k hk

theorem distinct (h : jobs.At j before after) (hd : jobs.Distinct) {k : JobRecord}
    (hk : k.leader = j.leader) : Distinct (before ++ k :: after) := by
  obtain ⟨rfl, hlive, holder, hnewer⟩ := h
  obtain ⟨h1, h2, h3⟩ := List.pairwise_append.1 hd
  refine List.pairwise_append.2 ⟨h1, List.pairwise_cons.2 ⟨?_, (List.pairwise_cons.1 h2).2⟩, ?_⟩
  · intro m hm heq
    exact absurd (heq.symm.trans hk) (hnewer m hm)
  · intro a ha b hb heq
    rcases List.mem_cons.1 hb with rfl | hb
    · cases hal : a.isLive with
      | false => rfl
      | true => exact absurd (heq.trans hk) (holder a ha hal)
    · exact h3 a ha b (List.mem_cons_of_mem _ hb) heq

/-- No other child has the number of the job. -/
theorem pid_ne (h : jobs.At j before after) {ch : Child}
    (hch : ch ∈ before.children ∨ ch ∈ after.children) : ch.pid ≠ j.leader := by
  rcases hch with hch | hch <;> obtain ⟨k, hk, hlive, rfl⟩ := mem_children.1 hch
  · exact h.older k hk hlive
  · exact h.newer k hk

theorem children_eq (h : jobs.At j before after) :
    jobs.children = before.children ++ j.child :: after.children := by
  rw [h.eq, children_append, children_cons_live h.live]

theorem children_finish (h : jobs.At j before after) (hj : j.ending = none) (e : Ending) :
    jobs.children.finish j.leader e =
      children (before ++ { j with ending := some e } :: after) := by
  have hlive : { j with ending := some e : JobRecord }.isLive := h.live
  have hother : ∀ cs : Children, (∀ ch ∈ cs, ch.pid ≠ j.leader) → cs.finish j.leader e = cs := by
    intro cs hcs
    refine (List.map_congr_left ?_).trans (List.map_id cs)
    intro ch hch
    simp [hcs ch hch]
  rw [h.children_eq, children_append, children_cons_live hlive]
  simp only [Children.finish, List.map_append, List.map_cons]
  congr 1
  · exact hother _ fun ch hch => h.pid_ne (.inl hch)
  · congr 1
    · simp [JobRecord.child, hj]
    · exact hother _ fun ch hch => h.pid_ne (.inr hch)

theorem children_filter (h : jobs.At j before after) {k : JobRecord} (hk : k.isLive = false) :
    jobs.children.filter (·.pid ≠ j.leader) = children (before ++ k :: after) := by
  have hother : ∀ cs : Children, (∀ ch ∈ cs, ch.pid ≠ j.leader) →
      cs.filter (·.pid ≠ j.leader) = cs := by
    intro cs hcs
    exact List.filter_eq_self.2 fun ch hch => by simpa using hcs ch hch
  rw [h.children_eq, children_append, children_cons_collected hk, List.filter_append,
    List.filter_cons_of_neg (by simp [JobRecord.child]), hother _ fun ch hch => h.pid_ne (.inl hch),
    hother _ fun ch hch => h.pid_ne (.inr hch)]

end At

end Ledger

/-! ## The lowering of the count -/

namespace JobRecord

variable (who : Collector) (j : JobRecord)

theorem release_cases :
    j.release who = j ∨ j.isLive = false ∧ j.release who = { j with released := true } := by
  unfold release
  split
  · rename_i hheld
    simp only [isHeldBy, isHeld, Bool.and_eq_true] at hheld
    exact .inr ⟨by simpa using hheld.1.1.1.2, rfl⟩
  · exact .inl rfl

@[simp] theorem leader_release : (j.release who).leader = j.leader := by
  unfold release
  split <;> rfl

@[simp] theorem background_release : (j.release who).background = j.background := by
  unfold release
  split <;> rfl

@[simp] theorem noted_release : (j.release who).noted = j.noted := by
  unfold release
  split <;> rfl

@[simp] theorem isLive_release : (j.release who).isLive = j.isLive := by
  unfold release
  split <;> rfl

@[simp] theorem child_release : (j.release who).child = j.child := by
  unfold release
  split <;> rfl

end JobRecord

theorem Ledger.children_release (jobs : Ledger) (who : Collector) :
    Ledger.children (jobs.map (·.release who)) = jobs.children := by
  simp [children, List.filter_map, Function.comp_def]

theorem Ledger.Distinct.release {jobs : Ledger} (h : jobs.Distinct) (who : Collector) :
    Ledger.Distinct (jobs.map (·.release who)) :=
  List.pairwise_map.2 (h.imp fun hjk => by simpa using hjk)

/-! ## Records -/

/-- What every record satisfies. -/
structure JobRecord.Sound (j : JobRecord) : Prop where
  possible : ∀ e, j.ending = some e → e.IsPossible
  ended : j.isLive = false → j.ending.isSome
  unreleased : j.isLive → j.released = false
  foreground : j.background = false → j.collectors = [] ∨ j.collectors = [.wait]
  background : j.background →
    j.collectors = [] ∨ j.collectors = [.line] ∨ j.collectors = [.handler]

theorem JobRecord.Sound.release {j : JobRecord} (h : j.Sound) (who : Collector) :
    (j.release who).Sound := by
  rcases j.release_cases who with heq | ⟨hlive, heq⟩
  · rw [heq]
    exact h
  · rw [heq]
    exact { h with unreleased := fun hl => absurd (hlive.symm.trans hl) nofun }

namespace Standing

/-- The number of the job that is being launched. -/
def leader? : Standing → Option Pid
  | fresh pid _ | shielded pid | awaited pid => some pid
  | settled | guarded | collected => none

/-- `j` is the job that is being launched. -/
def Launches : Standing → JobRecord → Prop
  | fresh pid bg, j => j.leader = pid ∧ j.background = bg ∧ j.noted = false
  | shielded pid, j | awaited pid, j => j.leader = pid ∧ j.background = false ∧ j.noted = true
  | settled, _ | guarded, _ | collected, _ => False

theorem Launches.leader_eq {st : Standing} {j : JobRecord} (h : st.Launches j) :
    st.leader? = some j.leader := by
  cases st with
  | fresh pid bg => exact congrArg some h.1.symm
  | shielded pid => exact congrArg some h.1.symm
  | awaited pid => exact congrArg some h.1.symm
  | _ => exact h.elim

end Standing

/-! ## Sessions -/

/-- The ledger goes with the children and the phase of the interpreter. -/
structure Booked (c : Chronicle) : Prop where
  children : c.shell.children = c.jobs.children
  distinct : c.jobs.Distinct
  sound : ∀ j ∈ c.jobs, j.Sound
  live : ∀ j ∈ c.jobs, j.isLive →
    (j.background ∧ j.noted) ∨ c.shell.phase.standing.Launches j
  present : c.shell.phase.standing.leader?.isSome →
    ∃ j ∈ c.jobs, j.isLive ∧ c.shell.phase.standing.Launches j

namespace Booked

variable {c c' : Chronicle}

theorem start (handlers : Bool) (home : Option Bytes) : Booked (Chronicle.start handlers home) where
  children := rfl
  distinct := List.Pairwise.nil
  sound := nofun
  live := nofun
  present := nofun

/-- The interpreter moves without touching jobs, and the same job is being launched, if any. -/
theorem of_launches {s : Shell} (h : Booked c) (hc : s.children = c.shell.children)
    (hl : s.phase.standing.Launches = c.shell.phase.standing.Launches)
    (hp : s.phase.standing.leader? = c.shell.phase.standing.leader?) :
    Booked { c with shell := s } where
  children := hc.trans h.children
  distinct := h.distinct
  sound := h.sound
  live := by rw [hl]; exact h.live
  present := by rw [hl, hp]; exact h.present

theorem of_same {s : Shell} (h : Booked c) (hc : s.children = c.shell.children)
    (hst : s.phase.standing = c.shell.phase.standing) : Booked { c with shell := s } :=
  h.of_launches hc (by rw [hst]) (by rw [hst])

/-- One live job changes. -/
theorem amend (h : Booked c) {j : JobRecord} {before after : Ledger}
    (hat : c.jobs.At j before after) {s : Shell} {f : JobRecord → JobRecord}
    (hleader : (f j).leader = j.leader) (hsound : (f j).Sound)
    (hchildren : s.children = Ledger.children (before ++ f j :: after))
    (hst : s.phase.standing = c.shell.phase.standing ∨
      c.shell.phase.standing.leader? = some j.leader)
    (hlive : (f j).isLive →
      ((f j).background ∧ (f j).noted) ∨ s.phase.standing.Launches (f j))
    (hpresent : s.phase.standing.leader?.isSome →
      ∃ k ∈ c.jobs.amend j.leader f, k.isLive ∧ s.phase.standing.Launches k) :
    Booked { shell := s, jobs := c.jobs.amend j.leader f } := by
  refine ⟨?_, ?_, ?_, ?_, hpresent⟩
  · rw [hat.amend_eq]
    exact hchildren
  · rw [hat.amend_eq]
    exact hat.distinct h.distinct hleader
  · intro k hk
    rcases hat.mem_amend.1 hk with rfl | hk
    · exact hsound
    · exact h.sound k (hat.mem_of_other hk)
  · intro k hk hkl
    rcases hat.mem_amend.1 hk with rfl | hk
    · exact hlive hkl
    · refine (h.live k (hat.mem_of_other hk) hkl).imp_right fun hlaunch => ?_
      rcases hst with hst | hst
      · rw [hst]
        exact hlaunch
      · have heq := hlaunch.leader_eq.symm.trans hst
        exact absurd (Option.some.inj heq) (hat.leader_ne hk hkl)

/-- The job that is being launched is live. -/
theorem exists_at (h : Booked c) {pid : Pid} (hp : c.shell.phase.standing.leader? = some pid) :
    ∃ j before after, c.jobs.At j before after ∧ j.leader = pid ∧
      c.shell.phase.standing.Launches j := by
  obtain ⟨j, hj, hlive, hlaunch⟩ := h.present (by rw [hp]; rfl)
  obtain ⟨before, after, hat⟩ := Ledger.exists_at h.distinct hj hlive
  exact ⟨j, before, after, hat, Option.some.inj (hlaunch.leader_eq.symm.trans hp), hlaunch⟩

/-- A child is a live job. -/
theorem exists_at_of_child (h : Booked c) {pid : Pid} {ending : Option Ending}
    (hc : { pid, ending } ∈ c.shell.children) :
    ∃ j before after, c.jobs.At j before after ∧ j.leader = pid ∧ j.ending = ending := by
  rw [h.children] at hc
  obtain ⟨j, hj, hlive, hch⟩ := Ledger.mem_children.1 hc
  obtain ⟨before, after, hat⟩ := Ledger.exists_at h.distinct hj hlive
  injection hch with hpid hend
  exact ⟨j, before, after, hat, hpid, hend⟩

theorem fork (h : Booked c) {job : Job} {pid : Pid} (hp : c.shell.phase = .guarded job)
    (hnew : ∀ ch ∈ c.shell.children, ch.pid ≠ pid) :
    Booked
      { shell := { c.shell with
          children := c.shell.children.add pid, phase := .forked job pid }
        jobs := c.jobs.record (.launched pid job.background) } := by
  have hlive := h.live
  rw [hp] at hlive
  rw [h.children] at hnew
  refine ⟨?_, ?_, ?_, ?_, ?_⟩
  · show Children.add c.shell.children pid = Ledger.children (c.jobs ++ [_])
    rw [h.children, Ledger.children_append]
    rfl
  · refine List.pairwise_append.2 ⟨h.distinct, List.pairwise_singleton _ _, ?_⟩
    intro j hj k hk heq
    obtain rfl := List.mem_singleton.1 hk
    cases hl : j.isLive with
    | false => rfl
    | true => exact absurd heq (hnew _ (Ledger.mem_children.2 ⟨j, hj, hl, rfl⟩))
  · intro j hj
    rcases List.mem_append.1 hj with hj | hj
    · exact h.sound j hj
    · obtain rfl := List.mem_singleton.1 hj
      exact ⟨nofun, nofun, fun _ => rfl, fun _ => .inl rfl, fun _ => .inl rfl⟩
  · intro j hj hl
    rcases List.mem_append.1 hj with hj | hj
    · exact .inl ((hlive j hj hl).resolve_right id)
    · obtain rfl := List.mem_singleton.1 hj
      exact .inr ⟨rfl, rfl, rfl⟩
  · intro _
    exact ⟨_, List.mem_append_right _ List.mem_cons_self, rfl, rfl, rfl, rfl⟩

theorem note (h : Booked c) {job : Job} {pid : Pid} (hp : c.shell.phase = .grouped job pid) :
    Booked
      { shell := { c.shell with tracker := c.shell.note job pid, phase := .noted job pid }
        jobs := c.jobs.record (.noted pid) } := by
  have hst : c.shell.phase.standing = .fresh pid job.background := by rw [hp]; rfl
  obtain ⟨j, before, after, hat, rfl, hlaunch⟩ := h.exists_at (by rw [hst]; rfl)
  rw [hst] at hlaunch
  obtain ⟨-, hbg, -⟩ := hlaunch
  have hs := h.sound j hat.mem
  have hl : { j with noted := true : JobRecord }.isLive := hat.live
  have hnoted : { j with noted := true } ∈
      c.jobs.amend j.leader fun j => { j with noted := true } := hat.mem_amend.2 (.inl rfl)
  refine h.amend hat rfl { hs with } ?_ (.inr (by rw [hst]; rfl)) ?_ ?_
  · show c.shell.children = _
    rw [h.children, hat.children_eq, Ledger.children_append, Ledger.children_cons_live hl]
    rfl
  · intro _
    cases hb : job.background with
    | true => exact .inl ⟨hbg.trans hb, rfl⟩
    | false =>
      refine .inr ?_
      simp only [Phase.standing, hb]
      exact ⟨rfl, hbg.trans hb, rfl⟩
  · cases hb : job.background with
    | true => simp [Phase.standing, hb, Standing.leader?]
    | false =>
      intro _
      refine ⟨_, hnoted, hl, ?_⟩
      simp only [Phase.standing, hb]
      exact ⟨rfl, hbg.trans hb, rfl⟩

/-- A child that has ended is collected; the job that was being launched is over. -/
theorem collect (h : Booked c) {pid : Pid} {e : Ending} {who : Collector} {s : Shell}
    (hc : { pid, ending := some e } ∈ c.shell.children)
    (hs : s.children = c.shell.children.filter (·.pid ≠ pid))
    (hwho : ∀ j ∈ c.jobs, j.isLive → j.leader = pid →
      (j.background = false → who = .wait) ∧ (j.background → who = .line ∨ who = .handler))
    (hst : s.phase.standing = c.shell.phase.standing ∨
      c.shell.phase.standing.leader? = some pid)
    (hnone : s.phase.standing.leader? = none) :
    Booked { shell := s, jobs := c.jobs.record (.collected who pid) } := by
  obtain ⟨j, before, after, hat, rfl, hend⟩ := h.exists_at_of_child hc
  have hempty : j.collectors = [] := List.isEmpty_iff.1 hat.live
  have hl : { j with collectors := j.collectors ++ [who] : JobRecord }.isLive = false := by
    simp [JobRecord.isLive]
  obtain ⟨hfg, hbg⟩ := hwho j hat.mem hat.live rfl
  refine h.amend hat rfl ?_ ?_ hst (fun hl' => absurd (hl.symm.trans hl') nofun) ?_
  · have hs := h.sound j hat.mem
    refine ⟨hs.possible, fun _ => ?_, fun hl' => absurd (hl.symm.trans hl') nofun, ?_, ?_⟩
    · exact Option.isSome_iff_exists.2 ⟨e, hend⟩
    · intro hb
      obtain rfl := hfg hb
      simp [hempty]
    · intro hb
      rcases hbg hb with rfl | rfl <;> simp [hempty]
  · rw [hs, h.children]
    exact hat.children_filter hl
  · rw [hnone]
    exact nofun

theorem finish (h : Booked c) {pid : Pid} {e : Ending} (hc : { pid } ∈ c.shell.children)
    (he : e.IsPossible) :
    Booked
      { shell := { c.shell with
          children := c.shell.children.finish pid e
          signals := c.shell.signals.raise Signal.child }
        jobs := c.jobs.record (.ended pid e) } := by
  obtain ⟨j, before, after, hat, rfl, hend⟩ := h.exists_at_of_child hc
  have hs := h.sound j hat.mem
  have hl : { j with ending := some e : JobRecord }.isLive := hat.live
  have hlaunch {st : Standing} (hj : st.Launches j) : st.Launches { j with ending := some e } := by
    cases st <;> exact hj
  refine h.amend hat rfl ?_ ?_ (.inl rfl) ?_ ?_
  · refine { hs with possible := ?_, ended := fun _ => rfl }
    rintro e' ⟨⟩
    exact he
  · show Children.finish c.shell.children j.leader e = _
    rw [h.children, hat.children_finish hend]
  · intro _
    exact (h.live j hat.mem hat.live).imp_right hlaunch
  · intro hp
    obtain ⟨k, hk, hkl, hkj⟩ := h.present hp
    rcases hat.eq_or_other hk with rfl | hk
    · exact ⟨_, hat.mem_amend.2 (.inl rfl), hl, hlaunch hkj⟩
    · exact ⟨k, hat.mem_amend.2 (.inr hk), hkl, hkj⟩

theorem release (h : Booked c) {who : Collector} {s : Shell}
    (hc : s.children = c.shell.children) (hst : s.phase.standing = c.shell.phase.standing) :
    Booked { shell := s, jobs := c.jobs.record (.released who) } := by
  have hlaunch {st : Standing} {j : JobRecord} (hj : st.Launches j) :
      st.Launches (j.release who) := by
    cases st <;> simp_all [Standing.Launches]
  refine ⟨?_, h.distinct.release who, ?_, ?_, ?_⟩
  · exact hc.trans (h.children.trans (Ledger.children_release c.jobs who).symm)
  · intro k hk
    obtain ⟨j, hj, rfl⟩ := List.mem_map.1 hk
    exact (h.sound j hj).release who
  · intro k hk hl
    obtain ⟨j, hj, rfl⟩ := List.mem_map.1 hk
    rw [hst]
    simpa using (h.live j hj (by simpa using hl)).imp_right hlaunch
  · rw [hst]
    intro hp
    obtain ⟨j, hj, hl, hlj⟩ := h.present hp
    exact ⟨j.release who, List.mem_map_of_mem hj, by simpa using hl, hlaunch hlj⟩

/-- The foreground job that is waited for is a child. -/
theorem not_orphaned (h : Booked c) {pid : Pid} (hp : c.shell.phase = .waiting pid) :
    ¬∀ ch ∈ c.shell.children, ch.pid ≠ pid := by
  have hst : c.shell.phase.standing = .awaited pid := by rw [hp]; rfl
  obtain ⟨j, before, after, hat, rfl, -⟩ := h.exists_at (by rw [hst]; rfl)
  intro hnone
  rw [h.children] at hnone
  exact hnone j.child (Ledger.mem_children.2 ⟨j, hat.mem, hat.live, rfl⟩) rfl

/-- The foreground job is collected. -/
theorem await (h : Booked c) {pid : Pid} {e : Ending} {cs : Children}
    (hp : c.shell.phase = .waiting pid) (hc : { pid, ending := some e } ∈ c.shell.children)
    (hcs : cs = c.shell.children.filter (·.pid ≠ pid)) :
    Booked
      { shell := { c.shell with children := cs, phase := .collected e.status }
        jobs := c.jobs.record (.collected .wait pid) } := by
  have hst : c.shell.phase.standing = .awaited pid := by rw [hp]; rfl
  refine h.collect hc hcs ?_ (.inr (by rw [hst]; rfl)) rfl
  obtain ⟨j, before, after, hat, rfl, hlaunch⟩ := h.exists_at (by rw [hst]; rfl)
  rw [hst] at hlaunch
  intro k hk hl hkj
  rcases hat.eq_or_other hk with rfl | hk
  · exact ⟨fun _ => rfl, fun hb => absurd (hlaunch.2.1.symm.trans hb) nofun⟩
  · exact absurd hkj (hat.leader_ne hk hl)

/-- No job is being launched, so every live job is a background job that has been noted. -/
theorem live_of_settled (h : Booked c) (hst : c.shell.phase.standing = .settled) {j : JobRecord}
    (hj : j ∈ c.jobs) (hl : j.isLive) : j.background ∧ j.noted :=
  (h.live j hj hl).resolve_right fun hlaunch => by
    rw [hst] at hlaunch
    exact hlaunch

/-- A pass makes a step while no job is being launched. -/
theorem pass (h : Booked c) (hst : c.shell.phase.standing = .settled) {who : Collector}
    (hwho : who = .line ∨ who = .handler) {pass pass' : Reap} {t : Tracker} {cs : Children}
    {d : Deed} (hm : Reap.Moves who c.shell.tracker c.shell.children pass pass' t cs d) {s : Shell}
    (hc : s.children = cs) (hs : s.phase.standing = .settled) :
    Booked { shell := s, jobs := c.jobs.record d } := by
  have hcollect {pid : Pid} {e : Ending} (hmem : { pid, ending := some e } ∈ c.shell.children)
      (hc : s.children = c.shell.children.filter (·.pid ≠ pid)) :
      Booked { shell := s, jobs := c.jobs.record (.collected who pid) } := by
    refine h.collect hmem hc ?_ (.inl (hs.trans hst.symm)) (by rw [hs]; rfl)
    intro j hj hl _
    have hbg := (h.live_of_settled hst hj hl).1
    exact ⟨fun hb => absurd (hb.symm.trans hbg) nofun, fun _ => hwho⟩
  cases hm with
  | count => exact h.of_same hc (hs.trans hst.symm)
  | miss hcs => exact h.of_same hc (hs.trans hst.symm)
  | collect hmem he => exact hcollect hmem hc
  | fail hmem he => exact hcollect hmem hc
  | release hb => exact h.release hc (hs.trans hst.symm)
  | underflow hb => exact h.release hc (hs.trans hst.symm)

end Booked

/-- A handler makes a pass only while no job is being launched. -/
theorem Controlled.settled_of_reaping {s : Shell} (h : Controlled s) {pass : Reap}
    {rest : List Handler} (hh : s.handlers = .reaping pass :: rest) :
    s.phase.standing = .settled := by
  have hf := h.slotless pass (by rw [hh]; exact List.mem_cons_self)
  have hheld := h.unheld (by rw [hh]; exact List.mem_cons_self)
  have hslots := h.slots
  rw [hf] at hslots
  cases hst : s.phase.standing with
  | settled => rfl
  | awaited pid =>
    rw [hst] at hslots
    cases hslots
  | collected =>
    rw [hst] at hslots
    cases hslots
  | _ =>
    rw [hst] at hheld
    exact absurd trivial hheld

namespace Booked

variable {c c' : Chronicle}

theorem step (hb : Booked c) (hk : Controlled c.shell) (hs : c.Step c') : Booked c' := by
  cases hs with
  | quiet status kept h0 hq => exact hb.of_same rfl hq.standing_eq
  | hold h0 hp => exact hb.of_launches rfl (by rw [hp]; rfl) (by rw [hp]; rfl)
  | fork h0 hp hpos hnew => exact hb.fork hp hnew
  | note h0 hp => exact hb.note hp
  | @unhold job pid h0 hp =>
    refine hb.of_launches rfl ?_ ?_
    · rw [hp]
      cases hbg : job.background <;> simp only [Phase.standing, hbg] <;> rfl
    · rw [hp]
      cases hbg : job.background <;> simp only [Phase.standing, hbg] <;> rfl
  | await h0 hp hw =>
    obtain ⟨-, hmem, hcs⟩ := Children.waitFor_collected hw
    exact hb.await hp hmem hcs
  | orphan h0 hp hw => exact absurd hw (hb.not_orphaned hp)
  | clear h0 hp => exact hb.of_launches rfl (by rw [hp]; rfl) (by rw [hp]; rfl)
  | linePass h0 hp hm => exact hb.pass (by rw [hp]; rfl) (.inl rfl) hm rfl rfl
  | handlerPass hh hm =>
    have hst := hk.settled_of_reaping hh
    exact hb.pass hst (.inr rfl) hm rfl hst
  | handlerStart hh hf => exact hb.of_same rfl rfl
  | handlerEnd hh hr => exact hb.of_same rfl rfl
  | interrupt hh hi => exact hb.of_same rfl rfl
  | take hn hd => exact hb.of_same rfl rfl
  | discard hd => exact hb.of_same rfl rfl
  | told kept => exact hb.of_same rfl rfl
  | raise n => exact hb.of_same rfl rfl
  | finish hc he => exact hb.finish hc he

end Booked

end JobShell
