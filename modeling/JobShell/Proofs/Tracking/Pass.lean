import JobShell.Proofs.Chronicle.Accounting

/-!
# A whole pass over ended children

A pass that nothing disturbs asks for as many children as the tracker counts. It collects those that
have ended, the first started first, and the count is lowered for each that has a status.

* `Children.ended`: the children that have ended.
* `Children.named`: how many of them have not been ended by a real-time signal.
* `Reap.run_eq`: what a whole pass does.
-/

namespace JobShell

namespace Children

/-- The children that have ended, in the order they were started. -/
def ended (cs : Children) : Children := cs.filter (·.ending.isSome)

/-- The number of children that have not been ended by a real-time signal. -/
def named (cs : Children) : Nat := cs.countP fun ch => !ch.ending.any Ending.byRealTime

/-- The children without those that have the numbers of `gone`. -/
def without (cs gone : Children) : Children := cs.filter fun ch => ch.pid ∉ gone.map (·.pid)

/-- Children end in ways that processes can end in. -/
def Possible (cs : Children) : Prop := ∀ ch ∈ cs, ∀ e, ch.ending = some e → e.IsPossible

variable {cs rest : Children} {pid : Pid} {e : Ending}

theorem waitAny_of_ended (h : cs.ended = { pid, ending := some e } :: rest) :
    cs.waitAny = (.collected pid e, cs.filter (·.pid ≠ pid)) := by
  have hfind : cs.find? (·.ending.isSome) = some { pid, ending := some e } := by
    rw [← List.head?_filter]
    exact congrArg List.head? h
  have hne : cs.isEmpty = false := by
    cases cs with
    | nil => cases hfind
    | cons ch cs => rfl
  simp only [waitAny, hne, Bool.false_eq_true, if_false, hfind]

theorem snd_waitAny_of_running (h : cs.ended = []) :
    cs.waitAny = (.absent, cs) ∨ cs.waitAny = (.alive, cs) := by
  rcases cs.waitAny_cases with ⟨pid, e, hmem, -⟩ | ⟨-, hw⟩
  · have : ({ pid, ending := some e } : Child) ∈ cs.ended := List.mem_filter.2 ⟨hmem, rfl⟩
    rw [h] at this
    cases this
  · exact hw

/-- The first ended child is taken from the table, and the other ended ones stay. -/
theorem ended_filter_ne (hnodup : (cs.map (·.pid)).Nodup)
    (h : cs.ended = { pid, ending := some e } :: rest) :
    ended (cs.filter (·.pid ≠ pid)) = rest := by
  have hsub : (cs.ended.map (·.pid)).Nodup := hnodup.sublist (List.filter_sublist.map _)
  rw [h, List.map_cons, List.nodup_cons] at hsub
  have hrest : ∀ ch ∈ rest, decide (ch.pid ≠ pid) = true := by
    intro ch hch
    exact decide_eq_true fun heq => hsub.1 (List.mem_map.2 ⟨ch, hch, heq⟩)
  have hcomm : ended (cs.filter (·.pid ≠ pid)) = cs.ended.filter (·.pid ≠ pid) := by
    simp only [ended, List.filter_filter, Bool.and_comm]
  rw [hcomm, h, List.filter_cons_of_neg (by simp), List.filter_eq_self.2 hrest]

@[simp] theorem without_nil (cs : Children) : cs.without [] = cs :=
  List.filter_eq_self.2 fun _ _ => decide_eq_true (List.not_mem_nil)

theorem without_cons (gone : Children) (ch : Child) :
    cs.without (ch :: gone) = without (cs.filter (·.pid ≠ ch.pid)) gone := by
  simp only [without, List.filter_filter]
  refine List.filter_congr fun x _ => ?_
  simp [Bool.and_comm]

end Children

namespace Reap

open Children

/-- A pass that is over stays as it is. -/
theorem steps_over (n reaped : Nat) (t : Tracker) (cs : Children) :
    steps n (attempting 0 reaped) t cs = (attempting 0 reaped, t, cs) := by
  induction n with
  | zero => rfl
  | succ n ih => exact ih

section

variable {n left reaped : Nat} {t : Tracker} {cs rest : Children} {pid : Pid} {e : Ending}

/-- An attempt finds no child that has ended. -/
theorem steps_of_running (h : cs.ended = []) :
    steps (n + 1) (attempting (left + 1) reaped) t cs = steps n (attempting left reaped) t cs := by
  have hstep : step (attempting (left + 1) reaped) t cs = (attempting left reaped, t, cs) := by
    rcases snd_waitAny_of_running h with hw | hw <;> simp only [step, hw]
  rw [steps, hstep]

/-- An attempt collects a child that has no status. -/
theorem steps_of_error {err : Errno} (h : cs.ended = { pid, ending := some e } :: rest)
    (hs : e.status = .error err) :
    steps (n + 1) (attempting (left + 1) reaped) t cs =
      steps n (attempting left reaped) t (cs.filter (·.pid ≠ pid)) := by
  have hstep : step (attempting (left + 1) reaped) t cs =
      (attempting left reaped, t, cs.filter (·.pid ≠ pid)) := by
    simp only [step, waitAny_of_ended h, hs]
  rw [steps, hstep]

/-- An attempt collects a child that has a status, and it is no longer counted. -/
theorem steps_of_ok {status : Status} {b : Nat} (h : cs.ended = { pid, ending := some e } :: rest)
    (hs : e.status = .ok status) (hb : t.background = b + 1) :
    steps (n + 2) (attempting (left + 1) reaped) t cs =
      steps n (attempting left (reaped + 1)) { t with background := b }
        (cs.filter (·.pid ≠ pid)) := by
  have hstep : step (attempting (left + 1) reaped) t cs =
      (releasing left reaped, t, cs.filter (·.pid ≠ pid)) := by
    simp only [step, waitAny_of_ended h, hs]
  have hrelease : step (releasing left reaped) t (cs.filter (·.pid ≠ pid)) =
      (attempting left (reaped + 1), { t with background := b }, cs.filter (·.pid ≠ pid)) := by
    simp only [step, Tracker.releaseBackground, hb]
  rw [steps, hstep]
  dsimp only
  rw [steps, hrelease]

end

/-- What the rest of a pass does that still has `left` attempts: it goes through the children that
have ended, in their order. -/
theorem steps_attempting (left : Nat) {n reaped : Nat} {t : Tracker} {cs : Children}
    (hn : 2 * left ≤ n) (ht : left ≤ t.background) (hnodup : (cs.map (·.pid)).Nodup)
    (hpossible : cs.Possible) :
    steps n (attempting left reaped) t cs =
      (attempting 0 (reaped + named (cs.ended.take left)),
        { t with background := t.background - named (cs.ended.take left) },
        cs.without (cs.ended.take left)) := by
  induction left generalizing n reaped t cs with
  | zero =>
    rw [steps_over]
    simp [named]
  | succ left ih =>
    obtain ⟨n, rfl⟩ : ∃ m, n = m + 2 := ⟨n - 2, by omega⟩
    cases hended : cs.ended with
    | nil =>
      rw [steps_of_running hended, ih (by omega) (by omega) hnodup hpossible, hended]
      simp
    | cons ch rest =>
      have hmem : ch ∈ cs.ended := hended ▸ List.mem_cons_self
      obtain ⟨hch, hsome⟩ := List.mem_filter.1 hmem
      obtain ⟨pid, ending⟩ := ch
      obtain ⟨e, rfl⟩ := Option.isSome_iff_exists.1 hsome
      -- what is left is a pass with one attempt less over the other children
      have hnodup' : ((cs.filter (·.pid ≠ pid)).map (·.pid)).Nodup :=
        hnodup.sublist (List.filter_sublist.map _)
      have hpossible' : Possible (cs.filter (·.pid ≠ pid)) :=
        fun x hx => hpossible x (List.mem_filter.1 hx).1
      have hrt := Ending.byRealTime_eq (hpossible _ hch e rfl)
      have hrest := ended_filter_ne hnodup hended
      rw [List.take_succ_cons, without_cons, ← hrest]
      cases hs : e.status with
      | error err =>
        rw [hs] at hrt
        rw [steps_of_error hended hs, ih (by omega) (by omega) hnodup' hpossible']
        simp [named, hrt]
      | ok status =>
        rw [hs] at hrt
        obtain ⟨b, hb⟩ : ∃ b, t.background = b + 1 := ⟨t.background - 1, by omega⟩
        rw [steps_of_ok hended hs hb, ih (by omega) (by dsimp only; omega) hnodup' hpossible']
        simp only [named, List.countP_cons, Option.any_some, hrt, Bool.not_false, if_true, hb]
        rw [Nat.add_sub_add_right, Nat.add_right_comm, Nat.add_assoc reaped]

/-- A whole pass collects as many of the children that have ended as the tracker counts, and lowers
the count for those that have not been ended by a real-time signal. -/
theorem run_eq {t : Tracker} {cs : Children} (hnodup : (cs.map (·.pid)).Nodup)
    (hpossible : cs.Possible) :
    run t cs =
      (named (cs.ended.take t.background),
        { t with background := t.background - named (cs.ended.take t.background) },
        cs.without (cs.ended.take t.background)) := by
  have hsteps : steps (stepsLeft t start) start t cs =
      steps (2 * t.background) (attempting t.background 0) t cs := rfl
  rw [run, hsteps, steps_attempting t.background (Nat.le_refl _) (Nat.le_refl _) hnodup hpossible]
  simp [result?]

end Reap

end JobShell
