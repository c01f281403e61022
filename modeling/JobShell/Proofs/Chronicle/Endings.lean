import JobShell.Proofs.Chronicle.Dialogue

/-!
# The endings of foreground jobs

The ledger says how each job has ended, the dialogue how those have ended that a line has waited
for. For foreground jobs both say the same in the same order, because a foreground job stays the
latest of all jobs until it has been collected.

* `Ledger.endings`: how the foreground jobs have ended, the first one first.
* `Latest`: the job that is being launched is the latest.
* `Shell.Does`: what an event does to the ledger, and what the wait for a foreground job hears.
* `Heard`: the dialogue has the endings of the foreground jobs that have been collected.
-/

namespace JobShell

namespace Ledger

/-- The foreground jobs. -/
def foreground (jobs : Ledger) : Ledger := jobs.filter (!·.background)

/-- How the foreground jobs have ended. -/
def endings (jobs : Ledger) : List Ending := jobs.foreground.filterMap (·.ending)

/-- How the foreground jobs have ended that have been collected. -/
def collected (jobs : Ledger) : List Ending :=
  jobs.filterMap fun j => if j.background ∨ j.isLive then none else j.ending

variable {jobs before after : Ledger} {j k : JobRecord}

theorem collected_append (as bs : Ledger) :
    collected (as ++ bs) = as.collected ++ bs.collected := List.filterMap_append

theorem collected_cons_skip (h : j.background ∨ j.isLive) (jobs : Ledger) :
    collected (j :: jobs) = jobs.collected := by
  simp [collected, h]

theorem collected_cons_ended {e : Ending} (hbg : j.background = false) (hlive : j.isLive = false)
    (hend : j.ending = some e) (jobs : Ledger) : collected (j :: jobs) = e :: jobs.collected := by
  simp [collected, hbg, hlive, hend]

/-- A live job is not among those collected, nor is what it becomes if this is live or in the
background. -/
theorem At.collected_amend (h : jobs.At j before after) {f : JobRecord → JobRecord}
    (hf : (f j).background ∨ (f j).isLive) :
    (jobs.amend j.leader f).collected = jobs.collected := by
  rw [h.amend_eq, h.eq, collected_append, collected_append, collected_cons_skip hf,
    collected_cons_skip (.inr h.live)]

theorem collected_release (jobs : Ledger) (who : Collector) :
    collected (jobs.map (·.release who)) = jobs.collected := by
  have hend (j : JobRecord) : (j.release who).ending = j.ending :=
    congrArg Child.ending (j.child_release who)
  simp [collected, List.filterMap_map, Function.comp_def, hend]

/-- The number of the latest job. -/
def latest? (jobs : Ledger) : Option Pid := jobs.getLast?.map (·.leader)

theorem map_leader_amend (pid : Pid) {f : JobRecord → JobRecord} (hf : ∀ j, (f j).leader = j.leader)
    (jobs : Ledger) : (jobs.amend pid f).map (·.leader) = jobs.map (·.leader) := by
  induction jobs with
  | nil => rfl
  | cons j rest ih =>
    unfold amend
    split
    · simp [hf]
    · simp [ih]

theorem latest?_eq_of_map {old new : Ledger}
    (h : new.map (·.leader) = old.map (·.leader)) : new.latest? = old.latest? := by
  rw [latest?, latest?, ← List.getLast?_map, ← List.getLast?_map, h]

theorem latest?_amend (pid : Pid) {f : JobRecord → JobRecord} (hf : ∀ j, (f j).leader = j.leader)
    (jobs : Ledger) : (jobs.amend pid f).latest? = jobs.latest? :=
  latest?_eq_of_map (map_leader_amend pid hf jobs)

theorem latest?_record {d : Deed} (hd : ∀ pid bg, d ≠ .launched pid bg) (jobs : Ledger) :
    (jobs.record d).latest? = jobs.latest? := by
  cases d with
  | launched pid bg => exact absurd rfl (hd pid bg)
  | noted pid =>
    refine jobs.latest?_amend pid ?_
    exact fun _ => rfl
  | ended pid e =>
    refine jobs.latest?_amend pid ?_
    exact fun _ => rfl
  | collected who pid =>
    refine jobs.latest?_amend pid ?_
    exact fun _ => rfl
  | released who => exact latest?_eq_of_map (by simp [Ledger.record, Function.comp_def])
  | nothing => rfl

/-- The latest job, if it is live, has none after it. -/
theorem At.after_eq_nil (h : jobs.At j before after) (hl : jobs.latest? = some j.leader) :
    after = [] := by
  obtain ⟨k, hk, hleader⟩ := Option.map_eq_some_iff.1 hl
  rcases List.eq_nil_or_concat after with rfl | ⟨rest, m, rfl⟩
  · rfl
  · rw [h.eq, List.concat_eq_append, ← List.cons_append, ← List.append_assoc,
      List.getLast?_concat] at hk
    cases hk
    exact absurd hleader (h.newer k (by simp))

/-- Where no foreground job is live, all of them have been collected. -/
theorem map_ending_foreground {jobs : Ledger} (hs : ∀ j ∈ jobs, j.Sound)
    (hl : ∀ j ∈ jobs, j.isLive → j.background) :
    jobs.foreground.map (·.ending) = jobs.collected.map some := by
  induction jobs with
  | nil => rfl
  | cons j rest ih =>
    have ih := ih (fun k hk => hs k (List.mem_cons_of_mem _ hk))
      fun k hk => hl k (List.mem_cons_of_mem _ hk)
    cases hbg : j.background with
    | true =>
      rw [collected_cons_skip (.inl hbg), ← ih]
      simp [foreground, hbg]
    | false =>
      have hlive : j.isLive = false := by
        cases hjl : j.isLive with
        | false => rfl
        | true => exact absurd (hbg.symm.trans (hl j List.mem_cons_self hjl)) nofun
      obtain ⟨e, hend⟩ := Option.isSome_iff_exists.1 ((hs j List.mem_cons_self).ended hlive)
      rw [collected_cons_ended hbg hlive hend, List.map_cons, ← ih]
      simp [foreground, hbg, hend]

theorem endings_eq_collected {jobs : Ledger} (hs : ∀ j ∈ jobs, j.Sound)
    (hl : ∀ j ∈ jobs, j.isLive → j.background) : jobs.endings = jobs.collected := by
  have hmap := congrArg (List.filterMap id) (map_ending_foreground hs hl)
  simpa [List.filterMap_map, endings] using hmap

theorem endings_append (as bs : Ledger) : endings (as ++ bs) = as.endings ++ bs.endings := by
  simp [endings, foreground]

end Ledger

/-! ## The latest job -/

/-- The job that is being launched is the latest. -/
def Latest (c : Chronicle) : Prop :=
  ∀ pid, c.shell.phase.standing.leader? = some pid → c.jobs.latest? = some pid

namespace Latest

variable {c c' : Chronicle}

theorem start (handlers : Bool) (home : Option Bytes) : Latest (Chronicle.start handlers home) :=
  nofun

theorem of_same {s : Shell} {jobs : Ledger} (h : Latest c)
    (hs : s.phase.standing.leader? = c.shell.phase.standing.leader?)
    (hj : jobs.latest? = c.jobs.latest?) : Latest { shell := s, jobs } := by
  intro pid hpid
  exact hj.trans (h pid (hs.symm.trans hpid))

theorem of_none {s : Shell} {jobs : Ledger} (hs : s.phase.standing.leader? = none) :
    Latest { shell := s, jobs } := by
  intro pid hpid
  rw [hs] at hpid
  cases hpid

theorem pass (h : Latest c) {who : Collector} {pass pass' : Reap} {t : Tracker} {cs : Children}
    {d : Deed} (hm : Reap.Moves who c.shell.tracker c.shell.children pass pass' t cs d) {s : Shell}
    (hs : s.phase.standing.leader? = c.shell.phase.standing.leader?) :
    Latest { shell := s, jobs := c.jobs.record d } := by
  refine h.of_same hs (Ledger.latest?_record ?_ _)
  cases hm <;> exact fun _ _ => nofun

theorem step (h : Latest c) (hs : c.Step c') : Latest c' := by
  cases hs with
  | quiet status kept h0 hq => exact h.of_same (by rw [hq.standing_eq]) rfl
  | hold h0 hp => exact h.of_same (by rw [hp]; rfl) rfl
  | @fork job pid h0 hp hpos hnew =>
    rintro _ ⟨⟩
    simp [Ledger.record, Ledger.latest?]
  | @note job pid h0 hp =>
    have hlast := h pid (by rw [hp]; rfl)
    intro q hq
    rw [show q = pid by cases hbg : job.background <;> simp_all [Phase.standing, Standing.leader?]]
    exact (Ledger.latest?_record (d := .noted pid) (by rintro _ _ ⟨⟩) c.jobs).trans hlast
  | @unhold job pid h0 hp =>
    refine h.of_same ?_ rfl
    rw [hp]
    cases hbg : job.background <;> simp [Phase.standing, Standing.leader?, hbg]
  | await h0 hp hw => exact of_none rfl
  | orphan h0 hp hw => exact of_none rfl
  | clear h0 hp => exact of_none rfl
  | linePass h0 hp hm => exact of_none rfl
  | handlerPass hh hm => exact h.pass hm rfl
  | @finish pid e hc he =>
    exact h.of_same rfl (Ledger.latest?_record (d := .ended pid e) (by rintro _ _ ⟨⟩) c.jobs)
  | _ => exact h.of_same rfl rfl

end Latest

/-! ## What an event does to the ledger -/

/-- What an event means for the jobs, with the endings that the wait for a foreground job hears. -/
inductive Shell.Does (s : Shell) : List Ending → Deed → Prop where
  | nothing : Does s [] .nothing
  | launched (pid : Pid) (background : Bool) : Does s [] (.launched pid background)
  | noted {job : Job} {pid : Pid} (hp : s.phase = .grouped job pid) : Does s [] (.noted pid)
  | ended {pid : Pid} {e : Ending} (hc : { pid } ∈ s.children) : Does s [] (.ended pid e)
  | waited {pid : Pid} {e : Ending} (hp : s.phase = .waiting pid)
      (hc : { pid, ending := some e } ∈ s.children) : Does s [e] (.collected .wait pid)
  | reaped {who : Collector} {pid : Pid} {e : Ending} (hst : s.phase.standing = .settled)
      (hc : { pid, ending := some e } ∈ s.children) : Does s [] (.collected who pid)
  | released (who : Collector) : Does s [] (.released who)

namespace Shell

variable {s t : Shell} {ev : Event}

theorem does_pass (hst : s.phase.standing = .settled) (who : Collector) (pass : Reap) :
    s.Does [] (pass.deed who s.children) := by
  match pass with
  | .start => exact .nothing
  | .attempting 0 reaped => exact .nothing
  | .attempting (left + 1) reaped =>
    rcases s.children.waitAny_cases with ⟨pid, e, hc, hw⟩ | ⟨-, hw | hw⟩ <;>
      simp only [Reap.deed, hw]
    · exact .reaped hst hc
    · exact .nothing
    · exact .nothing
  | .releasing left reaped => exact .released who

theorem does_lineMove (h0 : s.handlers = []) :
    s.Does (Dialogue.endings (s.exchange? .move).toList) (s.deed .move) := by
  obtain ⟨home, tracker, status, phase, handlers, children, signals⟩ := s
  subst h0
  cases phase with
  | grouped job pid => exact .noted rfl
  | waiting pid =>
    simp only [exchange?, deed, lineDeed]
    rcases hw : children.waitFor pid with ⟨_ | _ | ⟨q, e⟩, cs⟩
    · exact .nothing
    · exact .nothing
    · exact .waited rfl (Children.waitFor_collected hw).2.1
  | reaping pass r => exact does_pass rfl .line pass
  | _ => exact .nothing

theorem does_of_next? (hk : Controlled s) (h : s.next? ev = some t) :
    s.Does (Dialogue.endings (s.exchange? ev).toList) (s.deed ev) := by
  cases ev with
  | move =>
    cases hh : s.handlers with
    | nil => exact does_lineMove hh
    | cons hd rest =>
      simp only [exchange?, deed, hh]
      cases hd with
      | reaping pass => exact does_pass (hk.settled_of_reaping hh) .handler pass
      | _ => exact .nothing
  | forked pid =>
    simp only [exchange?, deed]
    split
    · exact .launched pid _
    · exact .nothing
  | answered r =>
    simp only [exchange?, deed]
    split <;> exact .nothing
  | ended pid e =>
    simp only [next?] at h
    split at h
    · rename_i hc
      exact .ended hc.1
    · cases h
  | _ => exact .nothing

end Shell

/-! ## What the waits have heard -/

/-- The dialogue has the endings of the foreground jobs that have been collected. -/
def Heard (d : Dialogue) (c : Chronicle) : Prop := d.endings = c.jobs.collected

namespace Heard

variable {d : Dialogue} {c c' : Chronicle} {ev : Event}

theorem step (h : Heard d c) (hk : Kept c) (hl : Latest c) (hn : c.next? ev = some c') :
    Heard (d ++ c.shell.saidAt ev c'.shell) c' := by
  obtain ⟨t, ht, rfl⟩ := Option.map_eq_some_iff.1 hn
  unfold Heard at h ⊢
  rw [Dialogue.endings_append, Shell.endings_saidAt, h]
  have hdoes := Shell.does_of_next? hk.controlled ht
  generalize Dialogue.endings (c.shell.exchange? ev).toList = heard at hdoes ⊢
  show _ = (c.jobs.record (c.shell.deed ev)).collected
  generalize c.shell.deed ev = deed at hdoes ⊢
  cases hdoes with
  | nothing => exact List.append_nil _
  | launched pid background =>
    rw [Ledger.record, Ledger.collected_append, Ledger.collected_cons_skip (.inr rfl)]
    rfl
  | @noted job pid hp =>
    have hleader : c.shell.phase.standing.leader? = some pid := by
      rw [hp]
      rfl
    obtain ⟨j, before, after, hat, rfl, -⟩ := hk.booked.exists_at hleader
    refine (List.append_nil _).trans (hat.collected_amend ?_).symm
    exact .inr hat.live
  | ended hc =>
    obtain ⟨j, before, after, hat, rfl, -⟩ := hk.booked.exists_at_of_child hc
    refine (List.append_nil _).trans (hat.collected_amend ?_).symm
    exact .inr hat.live
  | @waited pid e hp hc =>
    obtain ⟨j, before, after, hat, hleader, hend⟩ := hk.booked.exists_at_of_child hc
    have hlaunched : c.shell.phase.standing.leader? = some pid := by
      rw [hp]
      rfl
    obtain ⟨k, before', after', hat', hleader', hlaunch⟩ := hk.booked.exists_at hlaunched
    obtain rfl : j = k := by
      rcases hat'.eq_or_other hat.mem with rfl | hother
      · rfl
      · exact absurd (hleader.trans hleader'.symm) (hat'.leader_ne hother hat.live)
    rw [hp] at hlaunch
    have hlast := hat.after_eq_nil (hleader ▸ hl pid hlaunched)
    subst hleader hlast
    have hnew : Ledger.collected [{ j with collectors := j.collectors ++ [.wait] }] = [e] :=
      Ledger.collected_cons_ended (j := { j with collectors := j.collectors ++ [.wait] })
        hlaunch.2.1 (by simp [JobRecord.isLive]) hend []
    rw [Ledger.record, hat.amend_eq, Ledger.collected_append, hnew, hat.eq,
      Ledger.collected_append, Ledger.collected_cons_skip (.inr hat.live)]
    simp [Ledger.collected]
  | reaped hst hc =>
    obtain ⟨j, before, after, hat, rfl, -⟩ := hk.booked.exists_at_of_child hc
    have hbg := (hk.booked.live_of_settled hst hat.mem hat.live).1
    refine (List.append_nil _).trans (hat.collected_amend ?_).symm
    exact .inl hbg
  | released who =>
    rw [Ledger.record, Ledger.collected_release, List.append_nil]

end Heard

/-- All that is known of the endings of foreground jobs in the course of a session. -/
structure Chronicled (d : Dialogue) (c : Chronicle) : Prop where
  kept : Kept c
  latest : Latest c
  heard : Heard d c

namespace Chronicled

variable {d : Dialogue} {c c' : Chronicle} {ev : Event}

theorem start (handlers : Bool) (home : Option Bytes) :
    Chronicled [] (Chronicle.start handlers home) :=
  ⟨.start handlers home, .start handlers home, rfl⟩

theorem step (h : Chronicled d c) (hn : c.next? ev = some c') :
    Chronicled (d ++ c.shell.saidAt ev c'.shell) c' :=
  ⟨h.kept.step (Chronicle.step_of_next? hn), h.latest.step (Chronicle.step_of_next? hn),
    h.heard.step h.kept h.latest hn⟩

/-- Between lines the waits have heard how every foreground job has ended. -/
theorem foreground_of_settled (h : Chronicled d c) (hst : c.shell.phase.standing = .settled) :
    c.jobs.foreground.map (·.ending) = d.endings.map some := by
  rw [h.heard]
  exact Ledger.map_ending_foreground h.kept.booked.sound fun j hj hl =>
    (h.kept.booked.live_of_settled hst hj hl).1

/-- What the waits have heard is what the endings of the foreground jobs begin with. -/
theorem prefix_endings (h : Chronicled d c) : d.endings <+: c.jobs.endings := by
  have hb := h.kept.booked
  rw [h.heard]
  have hfg {j : JobRecord} (hj : j ∈ c.jobs) (hl : j.isLive) (hbg : j.background = false) :
      c.shell.phase.standing.Launches j :=
    (hb.live j hj hl).resolve_left fun hb => absurd (hbg.symm.trans hb.1) nofun
  by_cases hlive : ∃ j ∈ c.jobs, j.isLive ∧ j.background = false
  · -- the job is being launched, so it is the latest, and no other foreground job is live
    obtain ⟨j, hj, hl, hbg⟩ := hlive
    have hleader := (hfg hj hl hbg).leader_eq
    obtain ⟨before, after, hat⟩ := Ledger.exists_at hb.distinct hj hl
    obtain rfl := hat.after_eq_nil (h.latest _ hleader)
    have hbefore : ∀ k ∈ before, k ∈ c.jobs := fun k hk => hat.mem_of_other (.inl hk)
    have hended : before.endings = before.collected := by
      refine Ledger.endings_eq_collected (fun k hk => hb.sound k (hbefore k hk)) fun k hk hkl => ?_
      cases hkbg : k.background with
      | true => rfl
      | false =>
        have hkleader := (hfg (hbefore k hk) hkl hkbg).leader_eq
        exact absurd (Option.some.inj (hkleader.symm.trans hleader)) (hat.older k hk hkl)
    rw [hat.eq, Ledger.collected_append, Ledger.collected_cons_skip (.inr hl),
      Ledger.endings_append, hended]
    exact ⟨Ledger.endings [j], by simp [Ledger.collected]⟩
  · have hcollected : c.jobs.endings = c.jobs.collected := by
      refine Ledger.endings_eq_collected hb.sound fun j hj hl => ?_
      cases hbg : j.background with
      | true => rfl
      | false => exact absurd ⟨j, hj, hl, hbg⟩ hlive
    exact hcollected ▸ List.prefix_refl _

end Chronicled

/-- In the course of every session. -/
theorem Chronicle.chronicled_of_run {handlers : Bool} {home : Option Bytes} {evs : List Event}
    {c : Chronicle} (h : (start handlers home).run evs = some c) :
    Chronicled ((start handlers home).dialogue evs) c :=
  dialogue_induction (fun _ _ _ _ hc hn => hc.step hn) (.start handlers home) h

end JobShell
