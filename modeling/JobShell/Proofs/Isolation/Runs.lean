import JobShell.Proofs.Isolation.Interpreter

/-!
# Runs are courses

`Machine.runUntil` gives the interpreter and the other processes turns, round by round. Each run is
one of the courses that happenings can take, so what holds after every course holds after every run.

* `Machine.Reaches`: some happenings, none of them a line, lead from a machine to another.
* `Machine.IsDriven`: the interpreter is not among the processes that rounds give turns to.
* `Machine.reaches_runUntil`: a run is a course; `Machine.runUntil_induction`: invariants of
  happenings are invariants of runs.
-/

namespace JobShell.Machine

/-- Some happenings, none of them a line, lead from `m` to `m'`. -/
def Reaches (m m' : Machine) : Prop :=
  ∃ evs, (∀ h ∈ evs, Happening.isLine h = false) ∧ m.course? evs = some m'

variable {m m' m'' : Machine} {h : Happening} {pid : Pid}

theorem course?_append (m : Machine) (evs evs' : List Happening) :
    m.course? (evs ++ evs') = (m.course? evs).bind (course? · evs') := by
  induction evs generalizing m with
  | nil => rfl
  | cons h rest ih =>
    rw [List.cons_append, course?, course?, Option.bind_assoc]
    exact congrArg _ (funext ih)

theorem Reaches.refl (m : Machine) : m.Reaches m := ⟨[], List.forall_mem_nil _, rfl⟩

theorem Reaches.trans (hm : m.Reaches m') (hm' : m'.Reaches m'') : m.Reaches m'' := by
  obtain ⟨evs, hevs, hcourse⟩ := hm
  obtain ⟨evs', hevs', hcourse'⟩ := hm'
  refine ⟨evs ++ evs', List.forall_mem_append.2 ⟨hevs, hevs'⟩, ?_⟩
  rw [course?_append, hcourse]
  exact hcourse'

theorem Reaches.single (hm : m.happen? h = some m') (hline : h.isLine = false) : m.Reaches m' := by
  refine ⟨[h], List.forall_mem_singleton.2 hline, ?_⟩
  rw [course?, hm]
  rfl


/-! ## Turns -/

theorem reaches_steps (n : Nat) (m : Machine) : m.Reaches (m.steps n).1 := by
  induction n generalizing m with
  | zero => exact .refl m
  | succ n ih =>
    have hstep : m.Reaches m.step.1 := .single (h := .works) rfl rfl
    rw [steps]
    split
    · rename_i m' hm'
      rw [hm'] at hstep
      split
      · exact hstep
      · exact hstep.trans (ih m')
    · exact hstep

theorem reaches_worldSteps (hpid : pid ≠ m.pid) (n : Nat) (w : World) :
    Reaches { m with world := w } { m with world := (w.steps n pid).1 } := by
  induction n generalizing w with
  | zero => exact .refl _
  | succ n ih =>
    have hstep : Reaches { m with world := w } { m with world := (w.step pid).1 } :=
      .single (h := .turn pid) (if_neg hpid) rfl
    rw [World.steps]
    split
    · rename_i w' hw'
      rw [hw'] at hstep
      exact hstep
    · rename_i w' hw'
      rw [hw'] at hstep
      exact hstep.trans (ih w')

theorem reaches_passes (m : Machine) (clock : Nat) :
    m.Reaches { m with world := { m.world with clock } } :=
  .single (h := .passes clock) rfl rfl

theorem reaches_turns (pids : List Pid) (hpids : m.pid ∉ pids) (w : World) (moved : Bool) :
    Reaches { m with world := w } { m with world := (pids.foldl (fun (w, moved) pid =>
      let (w, m) := w.steps World.turn pid
      (w, moved || m)) (w, moved)).1 } := by
  induction pids generalizing w moved with
  | nil => exact .refl _
  | cons pid rest ih =>
    have hne : pid ≠ m.pid := fun heq => hpids (heq ▸ List.mem_cons_self)
    have hrest : m.pid ∉ rest := fun hmem => hpids (List.mem_cons_of_mem pid hmem)
    exact (reaches_worldSteps hne World.turn w).trans (ih hrest _ _)

theorem reaches_round (hpid : m.pid ∉ m.world.runners) :
    m.Reaches { m with world := m.world.round.1 } :=
  (reaches_turns m.world.runners hpid m.world false).trans (reaches_passes _ _)

theorem reaches_next {world : World} (hpid : m.pid ∉ m.world.runners)
    (hnext : m.world.next? = some world) : m.Reaches { m with world } := by
  have hround := reaches_round hpid
  unfold World.next? at hnext
  split at hnext <;> rename_i w hw
  · rw [hw] at hround
    obtain rfl := Option.some.inj hnext
    exact hround
  · rw [hw] at hround
    obtain ⟨t, -, rfl⟩ := Option.map_eq_some_iff.1 hnext
    exact hround.trans (reaches_passes _ _)

/-! ## Runs -/

/-- The interpreter's process has no program that the system would carry out. -/
structure IsDriven (m : Machine) : Prop extends Numbered m where
  program : ∀ p, m.process? = some p → p.program = none

theorem IsDriven.happens (hd : m.IsDriven) (hm : m.Happens h m') : m'.IsDriven := by
  refine ⟨hd.toNumbered.happens hm, fun p' hp' => ?_⟩
  obtain ⟨p, hp, hfollows⟩ := hm.follows hd.keyed hd.known hp'
  rw [hfollows.program]
  exact hd.program p hp

theorem IsDriven.of_reaches (hd : m.IsDriven) (hm : m.Reaches m') : m'.IsDriven := by
  obtain ⟨evs, -, hcourse⟩ := hm
  exact course?_induction (fun _ _ _ _ hd hm => hd.happens (happens_of_happen? hd.keyed hm)) hd
    hcourse

theorem IsDriven.not_mem_runners (hd : m.IsDriven) : m.pid ∉ m.world.runners := by
  intro hmem
  obtain ⟨⟨pid, p⟩, hmem, rfl⟩ := List.mem_map.1 hmem
  obtain ⟨hmem, hprogram⟩ := List.mem_filter.1 hmem
  have hp : m.process? = some p := Std.TreeMap.mem_toList_iff_getElem?_eq_some.1 hmem
  rw [hd.program p hp] at hprogram
  cases hprogram

/-- A run of the interpreter among the other processes is a course. -/
theorem reaches_runUntil (hd : m.IsDriven) (done : World → Bool) (n : Nat) :
    m.Reaches (m.runUntil done n).1 := by
  induction n generalizing m with
  | zero => exact .refl m
  | succ n ih =>
    have hturn := reaches_steps turn m
    have hd' := hd.of_reaches hturn
    rw [runUntil]
    refine iteInduction (motive := fun r : Machine × Progress => m.Reaches r.1)
      (fun _ => hturn) fun _ => ?_
    dsimp only
    split
    · rename_i world _ hnext
      have hothers := reaches_next hd'.not_mem_runners hnext
      exact (hturn.trans hothers).trans (ih (hd'.of_reaches hothers))
    · exact hturn.trans (ih hd')
    · exact hturn

/-- What every happening keeps, every run keeps. -/
theorem runUntil_induction {P : Machine → Prop} (hd : m.IsDriven)
    (hstep : ∀ m m' h, Happening.isLine h = false → P m → m.happen? h = some m' → P m') (hm : P m)
    (done : World → Bool) (n : Nat) : P (m.runUntil done n).1 := by
  obtain ⟨evs, hevs, hcourse⟩ := reaches_runUntil hd done n
  exact course?_induction (fun m m' h hmem => hstep m m' h (hevs h hmem)) hm hcourse

end JobShell.Machine
