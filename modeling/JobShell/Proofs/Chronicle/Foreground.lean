import JobShell.Proofs.Chronicle.Accounting

/-!
# Foreground jobs in a session

The passes over ended children ask for any child, so only the order of the steps of a launch keeps
them from the foreground job.

* `Phase.isOutside`: the points at which no job is being launched.
* `Unstolen`: the wait for a foreground job has not failed for want of the child.
* `foreground_of_run`: foreground jobs are collected by the wait for them, once each.
-/

namespace JobShell

/-- No job is being launched, and no pass follows one. -/
def Phase.isOutside : Phase → Bool
  | idle | launching _ | changing _ | printing | finished _ => true
  | _ => false

theorem Phase.standing_of_isOutside {p : Phase} (h : p.isOutside) : p.standing = .settled := by
  cases p <;> first | rfl | cases h

/-- The line has not heard that the foreground job is no child. -/
def Unstolen (p : Phase) : Prop := p.waitResult? ≠ some (.error .ECHILD)

namespace Unstolen

theorem of_none {p : Phase} (h : p.waitResult? = none) : Unstolen p := by
  unfold Unstolen
  rw [h]
  exact nofun

theorem quiet {p q : Phase} (h : Unstolen p) (hq : p.Quiet q) : Unstolen q := by
  cases hq with
  | begun hp hq =>
    rcases hq with ⟨job, rfl⟩ | ⟨path, rfl⟩ | rfl | ⟨r, rfl, hr⟩
    · exact of_none rfl
    · exact of_none rfl
    · exact of_none rfl
    · exact of_none hr
  | grouped job pid => exact of_none rfl
  | reap r => exact h
  | @concluded pass n r hp =>
    cases r with
    | ok status => exact of_none rfl
    | error e => exact h
  | answered hp hr => exact of_none hr

theorem step {c c' : Chronicle} (h : Unstolen c.shell.phase) (hk : Booked c) (hs : c.Step c') :
    Unstolen c'.shell.phase := by
  cases hs with
  | quiet status kept h0 hq => exact h.quiet hq
  | hold h0 hp => exact of_none rfl
  | fork h0 hp hpos hnew => exact of_none rfl
  | note h0 hp => exact of_none rfl
  | @unhold job pid h0 hp =>
    refine of_none ?_
    show Phase.waitResult? (if job.background then _ else _) = none
    cases job.background <;> rfl
  | @await pid e cs h0 hp hw =>
    intro heq
    have hstatus : e.status = .error .ECHILD := Option.some.inj heq
    cases Ending.eq_EINVAL_of_status hstatus
  | orphan h0 hp hw => exact absurd hw (hk.not_orphaned hp)
  | clear h0 hp =>
    rw [hp] at h
    exact h
  | linePass h0 hp hm =>
    rw [hp] at h
    exact h
  | _ => exact h

end Unstolen

namespace Chronicle

/-- After every course, no pass has collected a foreground job, no wait for one has failed for want
of the child, and outside a launch every foreground job has been collected once. -/
theorem foreground_of_run {handlers : Bool} {home : Option Bytes} {evs : List Event}
    {c : Chronicle} (h : (start handlers home).run evs = some c) :
    (∀ j ∈ c.jobs, j.background = false → ∀ who ∈ j.collectors, who = .wait) ∧
    c.shell.phase.waitResult? ≠ some (.error .ECHILD) ∧
    (c.shell.phase.isOutside →
      ∀ j ∈ c.jobs, j.background = false → j.collectors = [.wait]) := by
  obtain ⟨⟨-, hk, -⟩, hu⟩ := run_induction (P := fun c => Kept c ∧ Unstolen c.shell.phase)
    (fun _ _ ⟨hk, hu⟩ hs => ⟨hk.step hs, hu.step hk.booked hs⟩)
    ⟨.start handlers home, .of_none rfl⟩ h
  refine ⟨?_, hu, ?_⟩
  · intro j hj hfg who hwho
    rcases (hk.sound j hj).foreground hfg with hnone | hwait
    · rw [hnone] at hwho
      cases hwho
    · rw [hwait] at hwho
      exact List.mem_singleton.1 hwho
  · intro hout j hj hfg
    refine ((hk.sound j hj).foreground hfg).resolve_left fun hnone => ?_
    have hlive : j.isLive := by simp [JobRecord.isLive, hnone]
    have hbg := (hk.live_of_settled (Phase.standing_of_isOutside hout) hj hlive).1
    exact Bool.false_ne_true (hfg.symm.trans hbg)

/-- A background job ends together with a foreground job, which ends before anything has been done
about it; SIGCHLD is taken as soon as it can be. -/
def earlyEnd : List Event :=
  Event.launch [97, 32, 38] 5 ++ [.answered (.ok ())] ++
  [.line [97], .move, .forked 6, .ended 6 (.exited 3), .ended 5 (.exited 0), .move, .move, .move] ++
  .taken :: List.replicate 8 .move

theorem run_earlyEnd :
    ((start true none).run earlyEnd).map (fun c => (c.shell.phase.isOutside, c.jobs.length)) =
      some (true, 2) := by
  decide +kernel

theorem foreground_of_earlyEnd :
    ∃ c, (start true none).run earlyEnd = some c ∧ c.jobs.length = 2 ∧
      c.shell.phase.waitResult? ≠ some (.error .ECHILD) ∧
      ∀ j ∈ c.jobs, j.background = false → j.collectors = [.wait] := by
  obtain ⟨c, hc, heq⟩ := Option.map_eq_some_iff.1 run_earlyEnd
  obtain ⟨hout, hlength⟩ := Prod.mk.inj heq
  obtain ⟨-, hwait, hall⟩ := foreground_of_run hc
  exact ⟨c, hc, hlength, hwait, hall hout⟩

end Chronicle

end JobShell
