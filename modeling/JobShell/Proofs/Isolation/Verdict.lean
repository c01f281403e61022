import JobShell.Proofs.Chronicle.LastStatus
import JobShell.Proofs.Isolation.Sight

/-!
# How the end of a job is told

* `Shell.Tells`: how far the interpreter is with the end of its foreground job: it waits, it keeps
  the answer, or the end is the last status.
* `Shell.Tells.leads`: its steps bring it further.
* `Shell.background_of_leads`: a step notes the job, releases one that has been collected, or leaves
  the count of background jobs as it is.
* `Shell.Aims`: an interrupt is sent on to the leader of this job, if to anybody.
-/

namespace JobShell

/-- A wait for a child goes on only while the child does. -/
theorem Children.waitFor_alive {cs cs' : Children} {pid : Pid}
    (h : cs.waitFor pid = (.alive, cs')) : ∃ c ∈ cs, c.pid = pid ∧ c.ending = none := by
  unfold waitFor at h
  split at h
  · cases h
  · rename_i c hfind
    split at h
    · rename_i hending
      have hpid := List.find?_some hfind
      exact ⟨c, List.mem_of_find?_eq_some hfind, by simpa using hpid, hending⟩
    · cases h

/-- The leader of the foreground job that is waited for, or is going to be. -/
def Phase.awaited? : Phase → Option Pid
  | forked job pid | grouped job pid | noted job pid => if job.background then none else some pid
  | waiting pid => some pid
  | _ => none

/-- This job has been forked, with this leader. -/
def Phase.Carries (job : Job) (leader : Pid) : Phase → Prop
  | .forked j pid | .grouped j pid | .noted j pid => j = job ∧ pid = leader
  | .announcing pid => job.background = true ∧ pid = leader
  | .waiting pid => job.background = false ∧ pid = leader
  | .collected _ | .cleared _ | .reaping .. | .finished _ => True
  | _ => False

/-- A background job counts from its being noted in the tracker. -/
def Phase.counted (job : Job) : Phase → Nat
  | .forked .. | .grouped .. => 0
  | _ => if job.background then 1 else 0

/-- The next step of a pass lowers the count. -/
def Reap.releases (t : Tracker) : Reap → Bool
  | releasing .. => t.background ≠ 0
  | _ => false

theorem Reap.background_step (pass : Reap) (t : Tracker) (cs : Children) :
    (pass.step t cs).2.1.background + (pass.releases t).toNat = t.background := by
  match pass with
  | .start => rfl
  | .attempting 0 reaped => rfl
  | .attempting (left + 1) reaped =>
    unfold step
    dsimp only
    split
    · split <;> rfl
    · rfl
  | .releasing left reaped =>
    unfold step Tracker.releaseBackground releases
    cases h : t.background <;> simp [h]

theorem Reap.releases_of_result? {pass : Reap} {n : Nat} (h : pass.result? = some n)
    (t : Tracker) : pass.releases t = false := by
  rw [eq_of_result? h]
  rfl

namespace Shell

/-- The pass over ended children that is going on. -/
def pass? (s : Shell) : Option Reap :=
  match s.handlers with
  | [] => match s.phase with
    | .reaping pass _ => some pass
    | _ => none
  | .reaping pass :: _ => some pass
  | _ => none

/-- The next step lowers the count of background jobs. -/
def releases (s : Shell) : Bool := s.pass?.any (·.releases s.tracker)

/-- How far the interpreter is with the end of its foreground job. -/
inductive Tells (pid : Pid) (ending : Option Ending) (s : Shell) : Prop where
  | awaits (hp : s.phase.awaited? = some pid) (hchild : ∃ c ∈ s.children, c.pid = pid)
      (hall : ∀ c ∈ s.children, c.pid = pid → c.ending = ending) : Tells pid ending s
  | keeps {e : Ending} (he : ending = some e) (hp : s.phase.keeps? = some e.status) :
      Tells pid ending s
  | tells {e : Ending} (he : ending = some e) (hp : s.phase = .finished (Phase.resultOf e.status))
      (hlast : ∀ status, e.status = .ok status → s.lastStatus = status) : Tells pid ending s

variable {s t : Shell} {pid child : Pid} {ending : Option Ending} {e : Ending}

theorem Tells.congr (h : s.Tells pid ending) (hphase : t.phase = s.phase)
    (hchildren : t.children = s.children) (hlast : t.lastStatus = s.lastStatus) :
    t.Tells pid ending := by
  cases h with
  | awaits hp hchild hall =>
    exact .awaits (hphase ▸ hp) (hchildren ▸ hchild) (hchildren ▸ hall)
  | keeps he hp => exact .keeps he (hphase ▸ hp)
  | tells he hp hl => exact .tells he (hphase ▸ hp) (hlast ▸ hl)

/-- Another child ends. -/
theorem Tells.finish_of_ne (h : s.Tells pid ending) (hne : child ≠ pid) :
    { s with children := s.children.finish child e }.Tells pid ending := by
  cases h with
  | awaits hp hchild hall =>
    refine .awaits hp ?_ ?_
    · obtain ⟨c, hmem, hc⟩ := hchild
      refine ⟨_, List.mem_map_of_mem hmem, ?_⟩
      rw [if_neg fun h => hne (h.1.symm.trans hc)]
      exact hc
    · intro c hmem hc
      obtain ⟨c₀, hmem₀, rfl⟩ := List.mem_map.1 hmem
      by_cases h : c₀.pid = child ∧ c₀.ending = none
      · rw [if_pos h] at hc
        exact absurd (h.1.symm.trans hc) hne
      · rw [if_neg h] at hc ⊢
        exact hall c₀ hmem₀ hc
  | keeps he hp => exact .keeps he hp
  | tells he hp hlast => exact .tells he hp hlast

/-- The leader ends, if it has not ended before. -/
theorem Tells.finish (h : s.Tells pid ending) (e : Ending) :
    { s with children := s.children.finish pid e }.Tells pid (ending.or (some e)) := by
  cases h with
  | awaits hp hchild hall =>
    refine .awaits hp ?_ ?_
    · obtain ⟨c, hmem, hc⟩ := hchild
      refine ⟨_, List.mem_map_of_mem hmem, ?_⟩
      split <;> exact hc
    · intro c hmem hc
      obtain ⟨c₀, hmem₀, rfl⟩ := List.mem_map.1 hmem
      have hpid : c₀.pid = pid := by
        split at hc <;> exact hc
      have hending := hall c₀ hmem₀ hpid
      cases ending with
      | none =>
        rw [if_pos ⟨hpid, hending⟩]
        rfl
      | some e₀ =>
        have hended : ¬(c₀.pid = pid ∧ c₀.ending = none) := by
          rw [hending]
          exact fun h => nomatch h.2
        rw [if_neg hended]
        exact hending
  | keeps he hp => exact .keeps (by rw [he]; rfl) hp
  | tells he hp hlast => exact .tells (by rw [he]; rfl) hp hlast

/-! ## Steps -/

theorem children_of_handlerNeed {h : Handler} {rest : List Handler}
    (hno : ∀ pass, h ≠ .reaping pass) (ht : (s.handlerNeed h rest).Leads t) :
    t.children = s.children := by
  cases handles_of_leads ht with
  | @passes pass => exact absurd rfl (hno pass)
  | _ => rfl

/-- While a foreground job is waited for, no handler makes a pass. -/
theorem ne_reaping_of_awaited (hc : Controlled s) (hp : s.phase.awaited? = some pid)
    {h : Handler} (hmem : h ∈ s.handlers) (pass : Reap) : h ≠ .reaping pass := by
  rintro rfl
  have hfree := hc.slotless pass hmem
  have hslots := hc.slots
  have hopen := hc.unheld (List.mem_map.2 ⟨_, hmem, rfl⟩)
  unfold Phase.awaited? at hp
  split at hp
  · rename_i hphase
    rw [hphase] at hopen
    exact hopen trivial
  · rename_i hphase
    rw [hphase] at hopen
    exact hopen trivial
  · rename_i job _ hphase
    rw [hphase] at hopen
    refine hopen ?_
    cases hbg : job.background <;> simp [Phase.standing, hbg]
  · rename_i hphase
    rw [hphase, hfree] at hslots
    cases hslots
  · cases hp

theorem Tells.lineNeed (h : s.Tells pid ending) (ht : s.lineNeed.Leads t) :
    t.Tells pid ending := by
  have hadvances := advances_of_leads ht
  cases h with
  | awaits hp hchild hall =>
    cases hadvances with
    | group hphase | note hphase =>
      rw [hphase] at hp
      exact .awaits hp hchild hall
    | unhold hphase =>
      rw [hphase] at hp
      unfold Phase.awaited? at hp
      dsimp only at hp
      refine .awaits ?_ hchild hall
      split at hp
      · cases hp
      · rename_i hbg
        dsimp only
        rw [if_neg hbg]
        exact hp
    | orphan hphase hw =>
      rw [hphase] at hp
      obtain rfl := Option.some.inj hp
      obtain ⟨c, hmem, hc⟩ := hchild
      exact absurd hc (Children.waitFor_absent hw c hmem)
    | await hphase hw =>
      rw [hphase] at hp
      obtain rfl := Option.some.inj hp
      obtain ⟨-, hmem, -⟩ := Children.waitFor_collected hw
      exact .keeps (hall _ hmem rfl).symm rfl
    | hold hphase | fork _ hphase | announce _ hphase | print _ hphase | change _ hphase
    | clear hphase | sweep hphase | pass hphase | conclude hphase =>
      rw [hphase] at hp
      cases hp
  | @keeps e he hp =>
    cases hadvances with
    | clear hphase | sweep hphase | pass hphase =>
      rw [hphase] at hp
      exact .keeps he hp
    | conclude hphase =>
      rw [hphase] at hp
      obtain rfl := Option.some.inj hp
      rw [concluded_eq]
      refine .tells he rfl fun status hstatus => ?_
      show s.lastStatus.following e.status = status
      rw [hstatus]
      rfl
    | hold hphase | fork _ hphase | group hphase | note hphase | unhold hphase
    | announce _ hphase | print _ hphase | change _ hphase | orphan hphase | await hphase =>
      rw [hphase] at hp
      cases hp
  | tells he hp =>
    rw [Shell.lineNeed, hp] at ht
    exact ht.elim

/-- A step brings the interpreter further with the end of its foreground job. -/
theorem Tells.leads (h : s.Tells pid ending) (hc : Controlled s) (ht : s.need.Leads t) :
    t.Tells pid ending := by
  unfold need at ht
  split at ht
  · exact h.lineNeed ht
  · rename_i hd rest hh
    have hphase := phase_of_handlerNeed ht
    have hstays := stays_of_handlerNeed ht
    cases h with
    | awaits hp hchild hall =>
      have hchildren := children_of_handlerNeed
        (ne_reaping_of_awaited hc hp (by rw [hh]; exact List.mem_cons_self)) ht
      exact .awaits (hphase ▸ hp) (hchildren ▸ hchild) (hchildren ▸ hall)
    | keeps he hp => exact .keeps he (hphase ▸ hp)
    | tells he hp hlast => exact .tells he (hphase ▸ hp) (hstays.lastStatus ▸ hlast)

/-- Only a wait for a foreground job makes the interpreter wait. -/
theorem waiting_of_blocked (h : s.need = .blocked) :
    ∃ leader, s.phase = .waiting leader ∧ ∃ c ∈ s.children, c.pid = leader ∧ c.ending = none := by
  cases h ▸ s.asks_need with
  | blocked _ hp hw => exact ⟨_, hp, Children.waitFor_alive hw⟩

/-- Once its leader has ended, the interpreter does not wait any more. -/
theorem Tells.ne_blocked (h : s.Tells pid (some e)) : s.need ≠ .blocked := by
  intro hb
  obtain ⟨leader, hphase, c, hmem, hc, hending⟩ := waiting_of_blocked hb
  cases h with
  | awaits hp hchild hall =>
    rw [hphase] at hp
    obtain rfl := Option.some.inj hp
    cases hending.symm.trans (hall c hmem hc)
  | keeps he hp =>
    rw [hphase] at hp
    cases hp
  | tells he hp => cases hphase.symm.trans hp

/-- When the line is over, the end of the job is the last status. -/
theorem Tells.of_rest {r : LineResult} (h : s.Tells pid ending) (hrest : s.need = .rest r) :
    ∃ e, ending = some e ∧ r = Phase.resultOf e.status ∧
      ∀ status, e.status = .ok status → s.lastStatus = status := by
  obtain ⟨-, hphase⟩ := rest_of_need hrest
  cases h with
  | awaits hp =>
    rcases hphase with hphase | hphase <;> rw [hphase] at hp <;> cases hp
  | keeps he hp =>
    rcases hphase with hphase | hphase <;> rw [hphase] at hp <;> cases hp
  | @tells e he hp hlast =>
    refine ⟨e, he, ?_, hlast⟩
    rcases hphase with hphase | hphase
    · cases hphase.symm.trans hp
    · exact Phase.finished.inj (hphase.symm.trans hp)

/-! ## The count of background jobs -/

theorem background_of_handlerNeed {h : Handler} {rest : List Handler}
    (hh : s.handlers = h :: rest) (ht : (s.handlerNeed h rest).Leads t) :
    t.tracker.background + s.releases.toNat = s.tracker.background := by
  unfold releases pass?
  rw [hh]
  cases handles_of_leads ht with
  | @passes pass =>
    dsimp only
    rw [Option.any_some]
    exact pass.background_step s.tracker s.children
  | returns hpass =>
    dsimp only
    rw [Option.any_some, Reap.releases_of_result? hpass]
    rfl
  | _ => rfl

variable {job : Job} {leader : Pid}

theorem background_of_lineNeed (h0 : s.handlers = []) (hc : s.phase.Carries job leader)
    (ht : s.lineNeed.Leads t) : t.phase.Carries job leader ∧
      t.tracker.background + s.releases.toNat + s.phase.counted job =
        s.tracker.background + t.phase.counted job := by
  unfold releases pass?
  rw [h0]
  dsimp only
  cases advances_of_leads ht with
  | group hp =>
    rw [hp] at hc ⊢
    exact ⟨hc, rfl⟩
  | @note j _ hp =>
    rw [hp] at hc ⊢
    obtain ⟨rfl, rfl⟩ := hc
    refine ⟨⟨rfl, rfl⟩, ?_⟩
    cases hbg : j.background <;>
      simp [Shell.note, hbg, Phase.counted, Tracker.addBackground, Tracker.setForeground]
  | @unhold j _ hp =>
    rw [hp] at hc ⊢
    obtain ⟨rfl, rfl⟩ := hc
    cases hbg : j.background <;> simp [hbg, Phase.Carries, Phase.counted]
  | announce r hp =>
    rw [hp]
    exact ⟨trivial, rfl⟩
  | orphan hp | await hp | clear hp | sweep hp =>
    rw [hp]
    exact ⟨trivial, rfl⟩
  | @pass pass result hp =>
    rw [hp]
    dsimp only
    rw [Option.any_some]
    exact ⟨trivial, congrArg (· + Phase.counted job (.reaping pass result))
      (pass.background_step s.tracker s.children)⟩
  | conclude hp hpass =>
    rw [hp, concluded_eq]
    dsimp only
    rw [Option.any_some, Reap.releases_of_result? hpass]
    exact ⟨trivial, rfl⟩
  | hold hp | fork _ hp | print _ hp | change _ hp =>
    rw [hp] at hc
    exact hc.elim

/-- A step notes the job, releases one that has been collected, or leaves the count as it is. -/
theorem background_of_leads (hc : s.phase.Carries job leader) (ht : s.need.Leads t) :
    t.phase.Carries job leader ∧
      t.tracker.background + s.releases.toNat + s.phase.counted job =
        s.tracker.background + t.phase.counted job := by
  unfold need at ht
  split at ht
  · rename_i h0
    exact background_of_lineNeed h0 hc ht
  · rename_i hh
    rw [phase_of_handlerNeed ht, background_of_handlerNeed hh ht]
    exact ⟨hc, rfl⟩

/-- A step that releases a job notes none. -/
theorem counted_of_releases (job : Job) (hr : s.releases = true) (ht : s.need.Leads t) :
    t.phase.counted job = s.phase.counted job := by
  unfold need at ht
  split at ht
  · rename_i h0
    unfold releases pass? at hr
    rw [h0] at hr
    dsimp only at hr
    split at hr
    · rename_i pass result hphase
      unfold lineNeed at ht
      rw [hphase] at ht ⊢
      dsimp only at ht
      split at ht
      · rename_i hpass
        rw [Option.any_some, Reap.releases_of_result? hpass] at hr
        cases hr
      · exact ht ▸ rfl
    · cases hr
  · rw [phase_of_handlerNeed ht]

/-- Nothing is refused to a job that has been forked. -/
theorem refused?_of_carries (hc : s.phase.Carries job leader) (r : Errno) : s.refused? r = none :=
  refused?_eq_none (by rintro job' h; rw [h] at hc; exact hc)
    (by rintro job' h; rw [h] at hc; exact hc) r

/-! ## Where an interrupt goes -/

/-- An interrupt is sent on to the leader, if to anybody. -/
structure Aims (s : Shell) (leader : Pid) : Prop where
  slot : ∀ pid, s.tracker.foreground = some pid → pid = leader
  forwards : ∀ pid, .forwarding pid ∈ s.handlers → pid = leader

theorem handlerOf_ne_forwarding (n : Nat) (pid : Pid) : handlerOf n ≠ .forwarding pid := by
  unfold handlerOf
  split <;> exact nofun

theorem Aims.of_lineNeed (h : s.Aims leader) (h0 : s.handlers = [])
    (hc : s.phase.Carries job leader) (ht : s.lineNeed.Leads t) : t.Aims leader := by
  have hsame {u : Shell} (hhandlers : u.handlers = s.handlers)
      (hforeground : u.tracker.foreground = s.tracker.foreground) : u.Aims leader :=
    ⟨fun pid hp => h.slot pid (by rw [← hforeground]; exact hp), by rw [hhandlers, h0]; exact nofun⟩
  cases advances_of_leads ht with
  | note hp =>
    rw [hp] at hc
    obtain ⟨-, rfl⟩ := hc
    refine ⟨fun q hq => ?_, by rw [h0]; exact nofun⟩
    unfold Shell.note at hq
    split at hq
    · exact h.slot q hq
    · unfold Tracker.setForeground at hq
      dsimp only at hq
      split at hq
      · cases hq
      · exact (Option.some.inj hq).symm
  | change r => cases r <;> exact hsame rfl rfl
  | clear => exact ⟨nofun, by rw [h0]; exact nofun⟩
  | pass _ hpass =>
    exact hsame rfl (Reap.moves_of_result? .line s.tracker s.children hpass).foreground_eq
  | @conclude _ result => cases result <;> exact hsame rfl rfl
  | hold | fork | group | unhold | announce | print | orphan | await | sweep => exact hsame rfl rfl

theorem Aims.of_handlerNeed (ha : s.Aims leader) {h : Handler} {rest : List Handler}
    (hh : s.handlers = h :: rest) (ht : (s.handlerNeed h rest).Leads t) : t.Aims leader := by
  have hslot (pid : Pid) (hp : t.tracker.foreground = some pid) : pid = leader :=
    ha.slot pid (by rw [← (stays_of_handlerNeed ht).foreground]; exact hp)
  have hrest (pid : Pid) (hmem : .forwarding pid ∈ rest) : pid = leader :=
    ha.forwards pid (by rw [hh]; exact List.mem_cons_of_mem h hmem)
  have hnext (h' : Handler) (hno : ∀ pid, h' = .forwarding pid → pid = leader)
      (heq : t.handlers = h' :: rest) : t.Aims leader := by
    refine ⟨hslot, fun pid hmem => ?_⟩
    rw [heq] at hmem
    rcases List.mem_cons.1 hmem with heq | hmem
    · exact hno pid heq.symm
    · exact hrest pid hmem
  have hend (heq : t.handlers = rest) : t.Aims leader :=
    ⟨hslot, fun pid hmem => hrest pid (heq ▸ hmem)⟩
  cases handles_of_leads ht with
  | writes => exact hnext .interrupting nofun rfl
  | @forwards q hf =>
    refine hnext (.forwarding q) (fun pid heq => ?_) rfl
    exact ha.slot pid (Handler.forwarding.inj heq ▸ hf)
  | leaves => exact hnext .leaving nofun rfl
  | starts => exact hnext (.reaping .start) nofun rfl
  | passes => exact hnext (.reaping _) nofun rfl
  | sends | ignores | returns => exact hend rfl

theorem Aims.leads (h : s.Aims leader) (hc : s.phase.Carries job leader)
    (ht : s.need.Leads t) : t.Aims leader := by
  unfold need at ht
  split at ht
  · rename_i h0
    exact h.of_lineNeed h0 hc ht
  · rename_i hh
    exact h.of_handlerNeed hh ht

end Shell

end JobShell
