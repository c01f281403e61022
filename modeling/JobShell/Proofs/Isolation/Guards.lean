import Mathlib.Data.List.Induction
import JobShell.Interp.SignalControl

/-!
# Guards

What a sequence of creations and drops of guards does to SIGCHLD, with handlers installed and SIGINT
ignored in between.

* `Guarded.isHeld_step`: one step holds SIGCHLD back if it creates a guard, and lets it through
  if it drops one, whichever guards are left.
* `Guarded.isHeld_run`: so the latest creation or drop decides, and SIGCHLD is held back exactly
  while a guard lives only as long as guards are not nested.
-/

namespace JobShell

namespace GuardStep

/-- The step creates or drops a guard. -/
def isGuard : GuardStep → Bool
  | block | unblock => true
  | _ => false

/-- The latest creation or drop. -/
def latest? (steps : List GuardStep) : Option GuardStep := (steps.filter isGuard).getLast?

variable (steps : List GuardStep) {s : GuardStep}

theorem latest?_append_of_isGuard (h : s.isGuard) : latest? (steps ++ [s]) = some s := by
  rw [latest?, List.filter_append, List.filter_cons_of_pos h, List.filter_nil]
  exact List.getLast?_concat

theorem latest?_append_of_not_isGuard (h : ¬s.isGuard) :
    latest? (steps ++ [s]) = latest? steps := by
  rw [latest?, List.filter_append, List.filter_cons_of_neg h, List.filter_nil, List.append_nil]
  rfl

theorem latest?_eq :
    latest? steps = none ∨ latest? steps = some block ∨ latest? steps = some unblock := by
  cases h : latest? steps with
  | none => exact .inl rfl
  | some s =>
    have hs : s.isGuard := (List.mem_filter.1 (List.mem_of_getLast? h)).2
    cases s <;> simp_all [isGuard]

end GuardStep

namespace Guarded

variable {g : Guarded} {s : GuardStep} {steps : List GuardStep}

/-- SIGCHLD is held back. -/
def IsHeld (g : Guarded) : Prop := Signal.child ∈ g.signals.blocked

instance : Decidable g.IsHeld := inferInstanceAs (Decidable (_ ∈ _))

/-- The state after some steps. -/
def run (g : Guarded) (steps : List GuardStep) : Guarded := steps.foldl step g

theorem run_append_singleton : g.run (steps ++ [s]) = (g.run steps).step s := by
  rw [run, List.foldl_append]
  rfl

/-! ## One step -/

/-- No SIGCHLD is held back without a guard. -/
def Live (g : Guarded) : Prop := g.IsHeld → 0 < g.guards

theorem not_isHeld_release (h : g.Live) : ¬g.release.IsHeld := by
  unfold release
  split
  · rename_i hzero
    intro hheld
    have := h hheld
    omega
  · intro hheld
    exact (Signals.mem_blocked_unblock _ _ _).1 hheld |>.2 rfl

theorem isHeld_hold : g.hold.IsHeld := (Signals.mem_blocked_block _ _ _).2 (.inl rfl)

theorem isHeld_step (h : g.Live) (hs : s ≠ .resetInChild) :
    (g.step s).IsHeld ↔ s = .block ∨ s ≠ .unblock ∧ g.IsHeld := by
  cases s with
  | block => simp [step, isHeld_hold]
  | unblock => simp [step, not_isHeld_release h]
  | resetInChild => exact absurd rfl hs
  | install | ignoreInterrupt | nothing =>
    simp only [reduceCtorEq, ne_eq, not_false_eq_true, true_and, false_or]
    exact Iff.rfl

theorem guards_step :
    (g.step s).guards = match s with
      | .block => g.guards + 1
      | .unblock => g.guards - 1
      | _ => g.guards := by
  cases s with
  | unblock =>
    show g.release.guards = _
    unfold release
    split <;> simp [*]
  | _ => rfl

theorem Live.step (h : g.Live) (hs : s ≠ .resetInChild) : (g.step s).Live := by
  intro hheld
  rw [guards_step]
  rcases (isHeld_step h hs).1 hheld with rfl | ⟨hs', hheld⟩
  · exact Nat.succ_pos _
  · have := h hheld
    cases s with
    | unblock => exact absurd rfl hs'
    | block => exact Nat.succ_pos _
    | _ => exact this

/-! ## A run -/

/-- What holds of a state that is reached by steps from one without a guard. -/
structure Reached (g : Guarded) (steps : List GuardStep) : Prop where
  live : g.Live
  isHeld_iff : g.IsHeld ↔ GuardStep.latest? steps = some .block
  latest?_ne_none : 0 < g.guards → GuardStep.latest? steps ≠ none

theorem Reached.step (h : Reached g steps) (hs : s ≠ .resetInChild) :
    Reached (g.step s) (steps ++ [s]) := by
  have hiff := isHeld_step h.live hs
  by_cases hg : s.isGuard
  · have hlatest := GuardStep.latest?_append_of_isGuard steps hg
    refine ⟨h.live.step hs, ?_, ?_⟩
    · rw [hiff, hlatest, Option.some.injEq]
      cases s <;> simp_all [GuardStep.isGuard]
    · simp [hlatest]
  · have hlatest := GuardStep.latest?_append_of_not_isGuard steps hg
    refine ⟨h.live.step hs, ?_, ?_⟩
    · rw [hiff, hlatest, ← h.isHeld_iff]
      cases s <;> simp_all [GuardStep.isGuard]
    · rw [hlatest, guards_step]
      cases s <;> first | exact h.latest?_ne_none | exact absurd rfl hg

theorem Reached.run (hg : g.guards = 0) (hb : ¬g.IsHeld) (hr : .resetInChild ∉ steps) :
    Reached (g.run steps) steps := by
  induction steps using List.reverseRecOn with
  | nil => exact ⟨(absurd · hb), by simpa [Guarded.run, GuardStep.latest?] using hb, by
      simp [Guarded.run, hg]⟩
  | append_singleton steps s ih =>
    rw [run_append_singleton]
    simp only [List.mem_append, List.mem_singleton, not_or] at hr
    exact (ih hr.1).step (Ne.symm hr.2)

/-- If no two guards live at once, the latest drop leaves none. -/
theorem guards_eq_zero_of_latest? (hone : ∀ before, before <+: steps → (g.run before).guards ≤ 1)
    (hlatest : GuardStep.latest? steps = some .unblock) : (g.run steps).guards = 0 := by
  induction steps using List.reverseRecOn with
  | nil => cases hlatest
  | append_singleton steps s ih =>
    rw [run_append_singleton, guards_step]
    by_cases hs : s.isGuard
    · rw [GuardStep.latest?_append_of_isGuard steps hs] at hlatest
      obtain rfl := Option.some.inj hlatest
      have := hone steps (List.prefix_append steps [.unblock])
      show (g.run steps).guards - 1 = 0
      omega
    · rw [GuardStep.latest?_append_of_not_isGuard steps hs] at hlatest
      have hzero := ih (fun before h => hone before (h.trans (List.prefix_append _ _))) hlatest
      cases s <;> first | exact hzero | exact absurd rfl hs

/-- After every sequence of creations and drops that starts without a guard, SIGCHLD is held back
exactly if the latest of them was a creation. Then a guard lives; but one may live without SIGCHLD
being held back, and that is so exactly where the latest drop has left a guard. Where no two guards
live at once, SIGCHLD is held back exactly while one lives. -/
theorem isHeld_run (hg : g.guards = 0) (hb : ¬g.IsHeld) (hr : .resetInChild ∉ steps) :
    ((g.run steps).IsHeld ↔ GuardStep.latest? steps = some .block) ∧
    ((g.run steps).IsHeld → 0 < (g.run steps).guards) ∧
    (0 < (g.run steps).guards ∧ ¬(g.run steps).IsHeld ↔
      GuardStep.latest? steps = some .unblock ∧ 0 < (g.run steps).guards) ∧
    ((∀ before, before <+: steps → (g.run before).guards ≤ 1) →
      ((g.run steps).IsHeld ↔ 0 < (g.run steps).guards)) := by
  have hreached := Reached.run hg hb hr
  have hleft : 0 < (g.run steps).guards ∧ ¬(g.run steps).IsHeld ↔
      GuardStep.latest? steps = some .unblock ∧ 0 < (g.run steps).guards := by
    rw [hreached.isHeld_iff, and_comm]
    refine and_congr_left fun hlive => ?_
    rcases GuardStep.latest?_eq steps with hnone | hblock | hunblock
    · exact absurd hnone (hreached.latest?_ne_none hlive)
    · simp [hblock]
    · simp [hunblock]
  refine ⟨hreached.isHeld_iff, hreached.live, hleft, fun hone => ⟨hreached.live, fun hlive => ?_⟩⟩
  by_contra hheld
  have hzero := guards_eq_zero_of_latest? hone (hleft.1 ⟨hlive, hheld⟩).1
  omega

/-- A guard around a launch, SIGINT ignored under it, and a second one after it. -/
theorem isHeld_run_oneAfterAnother :
    (({} : Guarded).run [.install, .block, .ignoreInterrupt, .unblock, .block]).IsHeld ∧
      0 < (({} : Guarded).run [.install, .block, .ignoreInterrupt, .unblock, .block]).guards :=
  have hreset :
      .resetInChild ∉ [GuardStep.install, .block, .ignoreInterrupt, .unblock, .block] := by decide
  have h := isHeld_run (g := {}) rfl (by decide) hreset
  ⟨h.1.2 rfl, h.2.1 (h.1.2 rfl)⟩

/-- The drop of an inner guard lets SIGCHLD through under the outer one. -/
theorem not_isHeld_under_outer :
    ¬((({} : Guarded).run [.block, .block, .unblock]).IsHeld ↔
      0 < (({} : Guarded).run [.block, .block, .unblock]).guards) := by
  decide

end Guarded

end JobShell
