import JobShell.Proofs.Chronicle.Endings
import JobShell.Proofs.Chronicle.Interrupt

/-!
# Where interrupts are sent

SIGINT is sent on to the process number that the tracker has. The system's table of children and the
tracker change one after the other, the table first, so there is a point in every foreground line at
which the number is that of no child any more.

* `Booked.exists_latest`: the job that is being launched is live and the latest.
* `Lingering`: after the wait, the tracker has the latest job, which that wait has collected.
* `Receives`: a job to which SIGINT may be sent on.
* `forwards_of_run`: which process SIGINT is sent to.
* `forwards_to_collected`: it is sent to a number that no child has.
-/

namespace JobShell

theorem Ledger.getLast?_amend (leader : Pid) (f : JobRecord → JobRecord) (jobs : Ledger) :
    (jobs.amend leader f).getLast? =
      jobs.getLast?.map fun j => if j.leader = leader then f j else j := by
  induction jobs with
  | nil => rfl
  | cons j rest ih =>
    unfold amend
    cases rest with
    | nil => by_cases hj : j.leader = leader <;> simp [hj, amend]
    | cons k rest =>
      split
      · rename_i hlatest
        -- the record changed is not the last one, which has another leader
        have hlast := List.getLast?_eq_some_getLast (List.cons_ne_nil k rest)
        have hne := hlatest.2 _ (List.mem_of_getLast? hlast)
        simp [List.getLast?_cons_cons, hlast, hne]
      · have hcons : (amend leader f (k :: rest)).getLast? =
            (j :: amend leader f (k :: rest)).getLast? := by
          unfold amend
          split <;> rw [List.getLast?_cons_cons]
        rw [← hcons, ih, List.getLast?_cons_cons]

/-- The job that is being launched is live and the latest. -/
theorem Booked.exists_latest {c : Chronicle} (hb : Booked c) (hl : Latest c) {pid : Pid}
    (hp : c.shell.phase.standing.leader? = some pid) :
    ∃ j, c.jobs.getLast? = some j ∧ j.isLive ∧ j.leader = pid ∧
      c.shell.phase.standing.Launches j := by
  obtain ⟨j, before, after, hat, rfl, hlaunch⟩ := hb.exists_at hp
  obtain rfl := hat.after_eq_nil (hl _ hp)
  exact ⟨j, by rw [hat.eq, List.getLast?_concat], hat.live, rfl, hlaunch⟩

/-! ## After the wait -/

/-- The tracker has this foreground job, which the wait for it has collected. -/
structure Lingers (slot : Option Pid) (j : JobRecord) : Prop where
  slot : slot = some j.leader
  foreground : j.background = false
  noted : j.noted
  collected : j.collectors = [.wait]

/-- From the end of the wait until the tracker is cleared, it has the latest job. -/
def Lingering (c : Chronicle) : Prop :=
  c.shell.phase.standing = .collected →
    ∃ j, c.jobs.getLast? = some j ∧ Lingers c.shell.tracker.foreground j

namespace Lingering

variable {c c' : Chronicle}

theorem start (handlers : Bool) (home : Option Bytes) :
    Lingering (Chronicle.start handlers home) :=
  nofun

theorem of_same {s : Shell} (h : Lingering c)
    (hs : s.phase.standing = .collected → c.shell.phase.standing = .collected)
    (ht : s.tracker.foreground = c.shell.tracker.foreground) :
    Lingering { c with shell := s } := by
  intro hst
  show ∃ j, c.jobs.getLast? = some j ∧ Lingers s.tracker.foreground j
  rw [ht]
  exact h (hs hst)

theorem of_ne {s : Shell} {jobs : Ledger} (hs : s.phase.standing ≠ .collected) :
    Lingering { shell := s, jobs } :=
  fun hst => absurd hst hs

theorem finish (h : Lingering c) (pid : Pid) (e : Ending) {s : Shell}
    (hs : s.phase = c.shell.phase) (ht : s.tracker = c.shell.tracker) :
    Lingering { shell := s, jobs := c.jobs.record (.ended pid e) } := by
  intro hst
  obtain ⟨j, hj, hlingers⟩ := h (by rw [← hs]; exact hst)
  refine ⟨_, (Ledger.getLast?_amend pid _ c.jobs).trans (congrArg _ hj), ?_⟩
  show Lingers s.tracker.foreground _
  rw [ht]
  dsimp only
  split
  · exact { hlingers with }
  · exact hlingers

/-- The wait collects the job that the tracker has. -/
theorem await (hk : Kept c) (hl : Latest c) {pid : Pid} (hp : c.shell.phase = .waiting pid)
    {s : Shell} (ht : s.tracker = c.shell.tracker) :
    Lingering { shell := s, jobs := c.jobs.record (.collected .wait pid) } := by
  intro _
  have hst : c.shell.phase.standing = .awaited pid := by rw [hp]; rfl
  obtain ⟨j, hj, hlive, rfl, hlaunch⟩ := hk.booked.exists_latest hl (by rw [hst]; rfl)
  have hslot := hk.controlled.slots
  rw [hst] at hlaunch hslot
  have hnone : j.collectors = [] := List.isEmpty_iff.1 hlive
  refine ⟨{ j with collectors := j.collectors ++ [.wait] }, ?_, ?_⟩
  · refine (Ledger.getLast?_amend j.leader _ c.jobs).trans ?_
    simp [hj]
  · show Lingers s.tracker.foreground _
    rw [ht]
    exact ⟨hslot, hlaunch.2.1, hlaunch.2.2, by simp [hnone]⟩

theorem step (h : Lingering c) (hk : Kept c) (hl : Latest c) (hs : c.Step c') : Lingering c' := by
  cases hs with
  | quiet status kept h0 hq => exact h.of_same (fun hst => hq.standing_eq.symm.trans hst) rfl
  | hold h0 hp => exact of_ne (by rintro ⟨⟩)
  | fork h0 hp hpos hnew => exact of_ne (by rintro ⟨⟩)
  | @note job pid h0 hp =>
    refine of_ne ?_
    cases hbg : job.background <;> simp [Phase.standing, hbg]
  | @unhold job pid h0 hp =>
    refine of_ne ?_
    cases hbg : job.background <;> simp [Phase.standing]
  | await h0 hp hw => exact await hk hl hp rfl
  | orphan h0 hp hw => exact absurd hw (hk.booked.not_orphaned hp)
  | clear h0 hp => exact of_ne (by rintro ⟨⟩)
  | linePass h0 hp hm => exact of_ne (by rintro ⟨⟩)
  | handlerPass hh hm =>
    have hst := hk.controlled.settled_of_reaping hh
    refine of_ne ?_
    show c.shell.phase.standing ≠ _
    rw [hst]
    rintro ⟨⟩
  | @finish pid e hc he => exact h.finish pid e rfl rfl
  | _ => exact h.of_same id rfl

end Lingering

/-! ## Sending -/

/-- A job to which SIGINT may be sent on: a foreground job that the tracker has been told of. It is
a child, unless the wait for it has just collected it. -/
structure Receives (c : Chronicle) (j : JobRecord) : Prop where
  foreground : j.background = false
  noted : j.noted
  child : (j.isLive ∧ j.child ∈ c.shell.children) ∨
    ((∃ result, c.shell.phase = .collected result) ∧ j.collectors = [.wait])

theorem Phase.eq_collected_of_standing {p : Phase} (h : p.standing = .collected) :
    ∃ result, p = collected result := by
  cases p with
  | collected result => exact ⟨result, rfl⟩
  | noted job pid => cases hbg : job.background <;> simp [standing, hbg] at h
  | _ => cases h

/-- Before the wait is over, the job that the tracker has is the one that is being launched. -/
theorem Kept.receives_of_launches {c : Chronicle} (hk : Kept c) (hl : Latest c) {pid : Pid}
    (hlead : c.shell.phase.standing.leader? = some pid)
    (hnoted : ∀ j, c.shell.phase.standing.Launches j → j.background = false ∧ j.noted) :
    ∃ j, c.jobs.getLast? = some j ∧ j.leader = pid ∧ Receives c j := by
  obtain ⟨j, hj, hlive, hleader, hlaunch⟩ := hk.booked.exists_latest hl hlead
  have hchild : j.child ∈ c.shell.children := by
    rw [hk.booked.children]
    exact Ledger.mem_children.2 ⟨j, List.mem_of_getLast? hj, hlive, rfl⟩
  exact ⟨j, hj, hleader, (hnoted j hlaunch).1, (hnoted j hlaunch).2, .inl ⟨hlive, hchild⟩⟩

/-- What the tracker has is the latest job. -/
theorem Kept.receives_of_foreground {c : Chronicle} (hk : Kept c) (hl : Latest c)
    (hg : Lingering c) {pid : Pid} (hslot : c.shell.tracker.foreground = some pid) :
    ∃ j, c.jobs.getLast? = some j ∧ j.leader = pid ∧ Receives c j := by
  have hslots := hk.controlled.slots
  cases hst : c.shell.phase.standing with
  | shielded q =>
    rw [hst] at hslots
    cases hslots.symm.trans hslot
    exact hk.receives_of_launches hl (by rw [hst]; rfl) fun j hj => (hst ▸ hj).2
  | awaited q =>
    rw [hst] at hslots
    cases hslots.symm.trans hslot
    exact hk.receives_of_launches hl (by rw [hst]; rfl) fun j hj => (hst ▸ hj).2
  | collected =>
    obtain ⟨j, hj, hlingers⟩ := hg hst
    exact ⟨j, hj, Option.some.inj (hlingers.slot.symm.trans hslot), hlingers.foreground,
      hlingers.noted, .inr ⟨Phase.eq_collected_of_standing hst, hlingers.collected⟩⟩
  | _ =>
    rw [hst] at hslots
    cases hslots.symm.trans hslot

theorem Shell.handlers_of_send {s t : Shell} {pid : Pid} {n : Nat} (h : s.need = .send pid n t) :
    n = Signal.interrupt ∧ ∃ rest, s.handlers = .forwarding pid :: rest := by
  obtain ⟨hn, rest, hh, -⟩ := send_of_need h
  exact ⟨hn, rest, hh⟩

namespace Chronicle

variable {handlers : Bool} {home : Option Bytes} {evs : List Event} {c : Chronicle}

/-- What is sent is SIGINT, and it goes to the leader of the latest job, a foreground job that the
tracker has been told of. The leader is a child that has not been collected, unless the wait for it
has just collected it and the tracker is still to be cleared. -/
theorem forwards_of_run (h : (start handlers home).run evs = some c) {pid : Pid} {n : Nat}
    {next : Shell} (hsend : c.shell.need = .send pid n next) :
    n = Signal.interrupt ∧
    ∃ j, c.jobs.getLast? = some j ∧ j.leader = pid ∧ j.background = false ∧ j.noted ∧
      ((j.isLive ∧ j.child ∈ c.shell.children) ∨
        ((∃ result, c.shell.phase = .collected result) ∧ j.collectors = [.wait])) := by
  obtain ⟨hk, hl, ha, hg⟩ := run_induction
    (P := fun c => Kept c ∧ Latest c ∧ Aimed c.shell ∧ Lingering c)
    (fun _ _ ⟨hk, hl, ha, hg⟩ hs => ⟨hk.step hs, hl.step hs, ha.step hs, hg.step hk hl hs⟩)
    ⟨.start handlers home, .start handlers home, .start handlers home, .start handlers home⟩ h
  obtain ⟨hn, rest, hh⟩ := Shell.handlers_of_send hsend
  have hslot : c.shell.tracker.foreground = some pid :=
    ha (.forwarding pid) (hh ▸ List.mem_cons_self)
  obtain ⟨j, hj, hleader, hr⟩ := hk.receives_of_foreground hl hg hslot
  exact ⟨hn, j, hj, hleader, hr.foreground, hr.noted, hr.child⟩

/-- SIGINT comes while a foreground job is waited for that has ended but has not been collected. -/
def beforeCollecting : List Event :=
  Event.launch [97] 6 ++
    [.raised Signal.interrupt, .ended 6 (.exited 0), .taken, .answered (.ok ()), .move]

theorem run_beforeCollecting :
    ((start true none).run beforeCollecting).map
      (fun c => (c.shell.handlers, c.shell.phase.standing)) =
        some ([.forwarding 6], .awaited 6) := by
  decide +kernel

theorem forwards_of_beforeCollecting :
    ∃ c next, (start true none).run beforeCollecting = some c ∧
      c.shell.need = .send 6 Signal.interrupt next ∧
      ∃ j, c.jobs.getLast? = some j ∧ j.leader = 6 ∧ j.isLive ∧ j.child ∈ c.shell.children := by
  obtain ⟨c, hc, heq⟩ := Option.map_eq_some_iff.1 run_beforeCollecting
  obtain ⟨hh, hst⟩ := Prod.mk.inj heq
  have hsend : c.shell.need = .send 6 Signal.interrupt { c.shell with handlers := [] } := by
    rw [Shell.need, hh]
    rfl
  obtain ⟨-, j, hj, hleader, -, -, hchild⟩ := forwards_of_run hc hsend
  refine ⟨c, _, hc, hsend, j, hj, hleader, hchild.resolve_right ?_⟩
  rintro ⟨⟨result, hp⟩, -⟩
  rw [hp] at hst
  cases hst

/-- SIGINT comes right after the wait for a foreground job has collected it. -/
def afterCollecting : List Event :=
  Event.launch [97] 6 ++
    [.ended 6 (.exited 0), .move, .raised Signal.interrupt, .taken, .answered (.ok ()), .move]

/-- The interpreter sends SIGINT to a process number that none of its children has: the wait has
collected the foreground job, and the tracker has not been cleared. -/
theorem forwards_to_collected :
    ∃ c next, (start true none).run afterCollecting = some c ∧
      c.shell.need = .send 6 Signal.interrupt next ∧ ∀ ch ∈ c.shell.children, ch.pid ≠ 6 := by
  have hrun : ((start true none).run afterCollecting).map
      (fun c => (c.shell.handlers, c.shell.children)) = some ([.forwarding 6], []) := by
    decide +kernel
  obtain ⟨c, hc, heq⟩ := Option.map_eq_some_iff.1 hrun
  obtain ⟨hh, hchildren⟩ := Prod.mk.inj heq
  refine ⟨c, { c.shell with handlers := [] }, hc, ?_, ?_⟩
  · rw [Shell.need, hh]
    rfl
  · rw [hchildren]
    exact List.forall_mem_nil _

end Chronicle

end JobShell
