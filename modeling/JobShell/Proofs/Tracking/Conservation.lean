import JobShell.Interp.TrackerRun
import JobShell.Proofs.Tracking.Pass
import Mathlib.Data.List.Nodup

/-!
# Conservation over runs of the tracker

The count and the table of children are not tied to each other: a pass may collect children that
have not been counted, a wait may take one that has been, and a child ended by a real-time signal
uses up an attempt of a pass. What holds of each step:

* `Known`: the children in the table have the numbers of started children, and those that have ended
  have ended as planned.
* `TrackerRun.Reaps`: what a pass takes from the table, and what it answers.
* `TrackerRun.Waits`: the same for a wait.
* `TrackerRun.Spawns`, `TrackerRun.Finishes`: a child comes into the table, and ends there.
* `TrackerRun.background_step`, `TrackerRun.perm_step`, `TrackerRun.foreground_step`: what a step does
  to the count, to the numbers and to the foreground job.
* `TrackerRun.conserved`: all of this over every run.
-/

namespace JobShell

namespace Children

theorem map_pid_finish (cs : Children) (pid : Pid) (e : Ending) :
    (cs.finish pid e).map (·.pid) = cs.map (·.pid) := by
  rw [finish, List.map_map]
  refine List.map_congr_left fun ch _ => ?_
  dsimp only [Function.comp_apply]
  split <;> rfl

theorem mem_finish {cs : Children} {pid : Pid} {e : Ending} {ch : Child}
    (h : ch ∈ cs.finish pid e) :
    ∃ old ∈ cs, ch.pid = old.pid ∧
      (ch.ending = old.ending ∨ ch.pid = pid ∧ ch.ending = some e) := by
  obtain ⟨old, hold, rfl⟩ := List.mem_map.1 h
  refine ⟨old, hold, ?_⟩
  split
  · rename_i heq
    exact ⟨rfl, .inr ⟨heq.1, rfl⟩⟩
  · exact ⟨rfl, .inl rfl⟩

theorem map_pid_filter (cs : Children) (p : Pid → Bool) :
    (cs.filter fun ch => p ch.pid).map (·.pid) = (cs.map (·.pid)).filter p := by
  rw [List.filter_map]
  rfl

/-- Some of the children are those with their numbers. -/
theorem filter_mem_of_sublist {cs some : Children} (h : some.Sublist cs)
    (hnodup : (cs.map (·.pid)).Nodup) :
    (cs.filter fun ch => ch.pid ∈ some.map (·.pid)) = some := by
  induction h with
  | slnil => rfl
  | cons ch hrest ih =>
    rw [List.map_cons, List.nodup_cons] at hnodup
    rw [List.filter_cons_of_neg, ih hnodup.2]
    exact fun hin => hnodup.1 ((hrest.map _).subset (of_decide_eq_true hin))
  | @cons_cons some cs ch hrest ih =>
    rw [List.map_cons, List.nodup_cons] at hnodup
    rw [List.filter_cons_of_pos (by simp)]
    refine congrArg (ch :: ·) (Eq.trans (List.filter_congr fun x hx => ?_) (ih hnodup.2))
    have hne : x.pid ≠ ch.pid := fun heq => hnodup.1 (heq ▸ List.mem_map_of_mem hx)
    simp [hne]

/-- No child with this number runs. -/
def HasEnded (cs : Children) (pid : Pid) : Prop := ∀ ch ∈ cs, ch.pid = pid → ch.ending.isSome

theorem hasEnded_finish (cs : Children) (pid : Pid) (e : Ending) :
    (cs.finish pid e).HasEnded pid := by
  intro ch hch hpid
  obtain ⟨old, -, rfl⟩ := List.mem_map.1 hch
  by_cases hold : old.pid = pid ∧ old.ending = none
  · rw [if_pos hold]
    rfl
  · rw [if_neg hold] at hpid ⊢
    exact Option.isSome_iff_ne_none.2 fun hnone => hold ⟨hpid, hnone⟩

theorem HasEnded.finish {cs : Children} {pid : Pid} (h : cs.HasEnded pid) (q : Pid) (e : Ending) :
    (cs.finish q e).HasEnded pid := by
  intro ch hch hpid
  obtain ⟨old, hold, heq, hend | ⟨-, hend⟩⟩ := mem_finish hch
  · rw [hend]
    exact h old hold (heq.symm.trans hpid)
  · rw [hend]
    rfl

end Children

/-- What a wait gives for a process that ended this way: its exit code, or the signal that ended it.
The real-time signals have no name. -/
inductive Ending.Gives : Ending → Except Errno Status → Prop where
  | exited (code : UInt8) : Gives (.exited code) (.ok (.exited code.toNat))
  | signaled {n : Nat} {s : Signal} (hs : s.number = n) : Gives (.killed n) (.ok (.signaled s))
  | realTime {n : Nat} (hn : 32 ≤ n ∧ n ≤ 64) : Gives (.killed n) (.error .EINVAL)

theorem Ending.gives_status {e : Ending} (he : e.IsPossible) : e.Gives e.status := by
  cases e with
  | exited code => exact .exited code
  | killed n =>
    by_cases hn : n ≤ 31
    · have hs : Signal.ofNumber? n = some ⟨n, he.1, hn⟩ := dif_pos ⟨he.1, hn⟩
      rw [status, hs]
      exact .signaled rfl
    · have hs : Signal.ofNumber? n = none := dif_neg fun h => hn h.2
      rw [status, hs]
      exact .realTime ⟨by omega, he.2⟩

theorem ChildPlan.isPossible_ending (p : ChildPlan) : p.ending.IsPossible := by
  unfold ending
  cases hs : p.signal with
  | none => trivial
  | some n =>
    dsimp only
    split
    · rename_i hn
      exact ⟨hn.1, hn.2.1⟩
    · trivial

/-- The jobs that a step released, by its answer. -/
def TrackerAnswer.released : TrackerAnswer → Nat
  | reaped n => n
  | _ => 0

/-- What a step makes of the foreground job. -/
def TrackerStep.foreground : TrackerStep → Option Pid → Option Pid
  | setForeground pid, _ => if pid = 0 then none else some pid
  | clearForeground, _ => none
  | _, slot => slot

namespace TrackerRun

theorem pidOf_inj {i j : Nat} : pidOf i = pidOf j ↔ i = j := by
  refine ⟨fun h => ?_, congrArg pidOf⟩
  have h : (1000 : Int) + i = 1000 + j := h
  omega

/-! ## The children of a run -/

/-- The children in the table are among those started, each once, and have ended as planned if they
have ended. -/
structure Known (started : List StartedChild) (cs : Children) : Prop where
  planned : ∀ ch ∈ cs, ∃ i c, started[i]? = some c ∧ ch.pid = pidOf i ∧
    (ch.ending = none ∨ ch.ending = some c.plan.ending)
  nodup : (cs.map (·.pid)).Nodup

namespace Known

variable {started : List StartedChild} {cs cs' : Children} {i : Nat} {c : StartedChild}

theorem sublist (h : Known started cs) (hs : cs'.Sublist cs) : Known started cs' where
  planned := fun ch hch => h.planned ch (hs.subset hch)
  nodup := h.nodup.sublist (hs.map _)

theorem finish (h : Known started cs) (hc : started[i]? = some c) :
    Known started (cs.finish (pidOf i) c.plan.ending) where
  planned := by
    intro ch hch
    obtain ⟨old, hold, hpid, hend⟩ := Children.mem_finish hch
    obtain ⟨j, d, hd, hj, hold⟩ := h.planned old hold
    rcases hend with hend | ⟨hi, hend⟩
    · exact ⟨j, d, hd, hpid.trans hj, hend ▸ hold⟩
    · exact ⟨i, c, hc, hi, .inr hend⟩
  nodup := by
    rw [Children.map_pid_finish]
    exact h.nodup

/-- A child is told when to end. -/
theorem told (h : Known started cs) (hc : started[i]? = some c) {d : StartedChild}
    (hplan : d.plan = c.plan) : Known (started.set i d) cs where
  planned := by
    intro ch hch
    obtain ⟨j, e, he, hj, hend⟩ := h.planned ch hch
    obtain ⟨hlt, -⟩ := List.getElem?_eq_some_iff.1 hc
    by_cases hij : i = j
    · subst hij
      cases hc.symm.trans he
      exact ⟨i, d, List.getElem?_set_self hlt, hj, by rwa [hplan]⟩
    · exact ⟨j, e, by rwa [List.getElem?_set_ne hij], hj, hend⟩
  nodup := h.nodup

theorem add (h : Known started cs) (c : StartedChild) :
    Known (started ++ [c]) (cs.add (pidOf started.length)) where
  planned := by
    intro ch hch
    rcases List.mem_append.1 hch with hch | hch
    · obtain ⟨j, d, hd, hj, hend⟩ := h.planned ch hch
      obtain ⟨hlt, -⟩ := List.getElem?_eq_some_iff.1 hd
      exact ⟨j, d, by rwa [List.getElem?_append_left hlt], hj, hend⟩
    · obtain rfl := List.mem_singleton.1 hch
      exact ⟨started.length, c, List.getElem?_concat_length, rfl, .inl rfl⟩
  nodup := by
    rw [Children.add, List.map_append, List.nodup_append]
    refine ⟨h.nodup, by simp, ?_⟩
    rintro _ hpid _ hnew rfl
    obtain ⟨ch, hch, heq⟩ := List.mem_map.1 hpid
    obtain ⟨j, d, hd, hj, -⟩ := h.planned ch hch
    obtain ⟨hlt, -⟩ := List.getElem?_eq_some_iff.1 hd
    have hlen := pidOf_inj.1 (hj.symm.trans (heq.trans (List.mem_singleton.1 hnew)))
    omega

theorem possible (h : Known started cs) : cs.Possible := by
  intro ch hch e he
  obtain ⟨i, c, -, -, hend⟩ := h.planned ch hch
  rw [he] at hend
  obtain rfl := Option.some.inj (hend.resolve_left nofun)
  exact c.plan.isPossible_ending

end Known

/-! ## Time passes -/

/-- What the passing of time does to the children, as far as one of them is concerned. -/
def settle (now : Nat) (cs : Children) (x : StartedChild × Nat) : Children :=
  if x.1.due.any (· ≤ now) then cs.finish (pidOf x.2) x.1.plan.ending else cs

theorem children_advance (r : TrackerRun) (t : Nat) :
    (r.advance t).children = r.started.zipIdx.foldl (settle (max r.now t)) r.children := rfl

variable {r : TrackerRun} {i : Nat} {c : StartedChild}

theorem Known.settle {started : List StartedChild} {cs : Children} {l : List (StartedChild × Nat)}
    (now : Nat) (h : Known started cs) (hl : ∀ x ∈ l, started[x.2]? = some x.1) :
    Known started (l.foldl (TrackerRun.settle now) cs) := by
  induction l generalizing cs with
  | nil => exact h
  | cons x rest ih =>
    refine ih ?_ fun y hy => hl y (List.mem_cons_of_mem x hy)
    unfold TrackerRun.settle
    split
    · exact h.finish (hl x List.mem_cons_self)
    · exact h

theorem numbers_settle (now : Nat) (l : List (StartedChild × Nat)) (cs : Children) :
    (l.foldl (settle now) cs).map (·.pid) = cs.map (·.pid) := by
  induction l generalizing cs with
  | nil => rfl
  | cons x rest ih =>
    rw [List.foldl_cons, ih, settle]
    split
    · exact cs.map_pid_finish _ _
    · rfl

theorem hasEnded_settle {now : Nat} {pid : Pid} {cs : Children} (l : List (StartedChild × Nat))
    (h : cs.HasEnded pid) : Children.HasEnded (l.foldl (settle now) cs) pid := by
  induction l generalizing cs with
  | nil => exact h
  | cons x rest ih =>
    refine ih ?_
    unfold settle
    split
    · exact h.finish _ _
    · exact h

/-- A child that is due has ended. -/
theorem hasEnded_of_due {now : Nat} {l : List (StartedChild × Nat)} (hmem : (c, i) ∈ l)
    (hdue : c.due.any (· ≤ now)) (cs : Children) :
    Children.HasEnded (l.foldl (settle now) cs) (pidOf i) := by
  obtain ⟨before, after, rfl⟩ := List.append_of_mem hmem
  rw [List.foldl_append, List.foldl_cons]
  refine hasEnded_settle after ?_
  unfold settle
  rw [if_pos hdue]
  exact Children.hasEnded_finish _ _ _

theorem Known.advance (h : Known r.started r.children) (t : Nat) :
    Known (r.advance t).started (r.advance t).children := by
  rw [children_advance]
  exact h.settle _ fun x hx => List.mem_zipIdx_iff_getElem?.1 hx

/-! ## Steps -/

/-- The numbers of the children in the table. -/
def numbers (r : TrackerRun) : List Pid := r.children.map (·.pid)

theorem numbers_advance (r : TrackerRun) (t : Nat) : (r.advance t).numbers = r.numbers :=
  numbers_settle _ _ _

/-- A child is told when to end, and time passes until then. -/
theorem finish_eq (h : r.started[i]? = some c) :
    ∃ due, r.finish i =
      { r with started := r.started.set i { c with due := some due } }.advance due := by
  refine ⟨c.due.getD (r.now + c.plan.duration), ?_⟩
  simp only [finish, h]

theorem Known.finish_run (h : Known r.started r.children) (i : Nat) :
    Known (r.finish i).started (r.finish i).children := by
  cases hc : r.started[i]? with
  | none =>
    rw [TrackerRun.finish, hc]
    exact h
  | some c =>
    obtain ⟨due, heq⟩ := finish_eq hc
    rw [heq]
    exact Known.advance (h.told hc (d := { c with due := some due }) rfl) due

theorem numbers_finish (r : TrackerRun) (i : Nat) : (r.finish i).numbers = r.numbers := by
  cases hc : r.started[i]? with
  | none => rw [finish, hc]
  | some c =>
    obtain ⟨due, heq⟩ := finish_eq hc
    rw [heq, numbers_advance]
    rfl

theorem started_finish (r : TrackerRun) (i : Nat) :
    (r.finish i).started.length = r.started.length := by
  cases hc : r.started[i]? with
  | none => rw [finish, hc]
  | some c =>
    obtain ⟨due, heq⟩ := finish_eq hc
    rw [heq]
    exact List.length_set

theorem tracker_finish (r : TrackerRun) (i : Nat) : (r.finish i).tracker = r.tracker := by
  cases hc : r.started[i]? with
  | none => rw [finish, hc]
  | some c =>
    obtain ⟨due, heq⟩ := finish_eq hc
    rw [heq]
    rfl

/-- What a child has ended with that was told to end. -/
theorem ending_finish (h : Known r.started r.children) (hc : r.started[i]? = some c) {ch : Child}
    (hch : ch ∈ (r.finish i).children) (hpid : ch.pid = pidOf i) :
    ch.ending = some c.plan.ending := by
  obtain ⟨due, heq⟩ := finish_eq hc
  have hknown := h.finish_run i
  rw [heq] at hch hknown
  obtain ⟨hlt, -⟩ := List.getElem?_eq_some_iff.1 hc
  have hset : (r.started.set i { c with due := some due })[i]? = some { c with due := some due } :=
    List.getElem?_set_self hlt
  have hended : ch.ending.isSome :=
    hasEnded_of_due (List.mem_zipIdx_iff_getElem?.2 hset)
      (decide_eq_true (Nat.le_max_right r.now due)) r.children ch hch hpid
  obtain ⟨j, d, hd, hj, hend⟩ := hknown.planned ch hch
  obtain rfl := pidOf_inj.1 (hpid.symm.trans hj)
  cases hset.symm.trans hd
  refine hend.resolve_left fun hnone => ?_
  rw [hnone] at hended
  cases hended

/-! ### A pass -/

/-- The children that a pass takes from the table. -/
def reapable (r : TrackerRun) : Children := r.children.ended.take r.tracker.background

theorem step_reap (h : Known r.started r.children) :
    r.step .reap =
      (.reaped r.reapable.named,
        { r with
          tracker := { r.tracker with background := r.tracker.background - r.reapable.named }
          children := r.children.without r.reapable }) := by
  simp only [step, Reap.run_eq h.nodup h.possible, reapable]

/-! ### A wait -/

/-- A child that is not in the table cannot be waited for. -/
theorem step_wait_absent (hi : pidOf i ∉ r.numbers) :
    r.step (.wait i) = (.waited (.error .ECHILD), r) := by
  have hfind : r.children.find? (·.pid = pidOf i) = none := by
    refine List.find?_eq_none.2 fun ch hch heq => hi ?_
    exact List.mem_map.2 ⟨ch, hch, of_decide_eq_true heq⟩
  have hwait : r.children.waitFor (pidOf i) = (.absent, r.children) := by
    simp only [Children.waitFor, hfind]
  simp only [step, waitAnswers, hfind, Option.isSome_none, Bool.false_eq_true, if_false, hwait]
  rfl

/-- A wait for a child in the table tells it to end and collects it. -/
theorem step_wait_present (h : Known r.started r.children) (hi : pidOf i ∈ r.numbers) :
    ∃ c, r.started[i]? = some c ∧
      r.step (.wait i) =
        (.waited c.plan.ending.status,
          { r.finish i with
            children := (r.finish i).children.filter (·.pid ≠ pidOf i) }) := by
  obtain ⟨ch, hch, hpid⟩ := List.mem_map.1 hi
  obtain ⟨j, c, hc, hj, -⟩ := h.planned ch hch
  obtain rfl := pidOf_inj.1 (hpid.symm.trans hj)
  refine ⟨c, hc, ?_⟩
  have hsome (cs : Children) (hmem : pidOf i ∈ cs.map (·.pid)) :
      ∃ found, cs.find? (·.pid = pidOf i) = some found := by
    obtain ⟨x, hx, heq⟩ := List.mem_map.1 hmem
    exact Option.isSome_iff_exists.1 (List.find?_isSome.2 ⟨x, hx, decide_eq_true heq⟩)
  obtain ⟨found, hfound⟩ := hsome r.children hi
  obtain ⟨child, hchild⟩ := hsome (r.finish i).children
    (by rw [← numbers, numbers_finish]; exact hi)
  have hend := ending_finish h hc (List.mem_of_find?_eq_some hchild)
    (by simpa using List.find?_some hchild)
  have hwait : (r.finish i).children.waitFor (pidOf i) =
      (.collected (pidOf i) c.plan.ending,
        (r.finish i).children.filter (·.pid ≠ pidOf i)) := by
    simp only [Children.waitFor, hchild, hend]
  -- the wait is interrupted only while the child runs
  obtain ⟨interrupted, hasked, hagain⟩ : ∃ interrupted : List WaitAnswer,
      r.waitAnswers i = (interrupted ++ [.ofEnding c.plan.ending],
        { r.finish i with children := (r.finish i).children.filter (·.pid ≠ pidOf i) }) ∧
      ∀ a ∈ interrupted, a.verdict? = none := by
    obtain ⟨pid, ending⟩ := found
    simp only [waitAnswers, hfound, hc, Option.isSome_some, if_true, hwait]
    refine ⟨_, rfl, fun a ha => ?_⟩
    cases ending with
    | none =>
      obtain rfl := List.eq_of_mem_replicate ha
      rfl
    | some e => cases ha
  simp only [step, hasked, await_append hagain (WaitAnswer.verdict?_ofEnding c.plan.ending)]

/-! ### What a step collects -/

/-- The children that a step takes from the table. -/
def gone (r : TrackerRun) (s : TrackerStep) : Children :=
  r.children.filter fun ch => ch.pid ∉ (r.step s).2.numbers

theorem map_pid_gone {s : TrackerStep} {p : Pid → Bool}
    (h : (r.step s).2.numbers = r.numbers.filter p) :
    (r.gone s).map (·.pid) = r.numbers.filter fun n => !p n := by
  have hmap : (r.gone s).map (·.pid) = r.numbers.filter fun n => n ∉ (r.step s).2.numbers :=
    r.children.map_pid_filter fun n => n ∉ (r.step s).2.numbers
  rw [hmap, h]
  refine List.filter_congr fun n hn => ?_
  cases hp : p n <;> simp [hn, hp]

theorem gone_eq_nil {s : TrackerStep} (h : r.numbers ⊆ (r.step s).2.numbers) : r.gone s = [] := by
  refine List.filter_eq_nil_iff.2 fun ch hch hnot => ?_
  exact of_decide_eq_true hnot (h (List.mem_map_of_mem hch))

theorem Known.step (h : Known r.started r.children) (s : TrackerStep) :
    Known (r.step s).2.started (r.step s).2.children := by
  cases s with
  | setForeground pid => exact h
  | clearForeground => exact h
  | addBackground => exact h
  | finish i => exact h.finish_run i
  | spawn plan => exact Known.advance (h.add _) r.now
  | reap =>
    rw [step_reap h]
    exact h.sublist List.filter_sublist
  | wait i =>
    by_cases hi : pidOf i ∈ r.numbers
    · obtain ⟨c, -, hstep⟩ := step_wait_present h hi
      rw [hstep]
      exact (h.finish_run i).sublist List.filter_sublist
    · rw [step_wait_absent hi]
      exact h

theorem step_spawn (r : TrackerRun) (plan : ChildPlan) :
    (r.step (.spawn plan)).2.numbers = r.numbers ++ [pidOf r.started.length] ∧
      (r.step (.spawn plan)).2.started.length = r.started.length + 1 := by
  refine ⟨(numbers_advance _ _).trans ?_, List.length_append⟩
  exact List.map_append

/-- A step that starts no child leaves some of the numbers in the table. -/
theorem numbers_step (h : Known r.started r.children) {s : TrackerStep}
    (hs : ∀ plan, s ≠ .spawn plan) :
    (∃ p, (r.step s).2.numbers = r.numbers.filter p) ∧
      (r.step s).2.started.length = r.started.length := by
  have hall {ns : List Pid} (hns : ns = r.numbers) : ∃ p, ns = r.numbers.filter p :=
    ⟨fun _ => true, hns.trans (List.filter_eq_self.2 fun _ _ => rfl).symm⟩
  cases s with
  | setForeground pid => exact ⟨hall rfl, rfl⟩
  | clearForeground => exact ⟨hall rfl, rfl⟩
  | addBackground => exact ⟨hall rfl, rfl⟩
  | finish i => exact ⟨hall (r.numbers_finish i), r.started_finish i⟩
  | spawn plan => exact absurd rfl (hs plan)
  | reap =>
    rw [step_reap h]
    exact ⟨⟨_, r.children.map_pid_filter fun n => n ∉ r.reapable.map Child.pid⟩, rfl⟩
  | wait i =>
    by_cases hi : pidOf i ∈ r.numbers
    · obtain ⟨c, -, hstep⟩ := step_wait_present h hi
      rw [hstep]
      rw [← numbers_finish r i]
      exact ⟨⟨_, (r.finish i).children.map_pid_filter (· ≠ pidOf i)⟩, r.started_finish i⟩
    · rw [step_wait_absent hi]
      exact ⟨hall rfl, rfl⟩

theorem named_reapable_le (r : TrackerRun) : r.reapable.named ≤ r.tracker.background :=
  Nat.le_trans List.countP_le_length (List.length_take_le _ _)

theorem tracker_wait (h : Known r.started r.children) (i : Nat) :
    (r.step (.wait i)).2.tracker = r.tracker ∧ (r.step (.wait i)).1.released = 0 := by
  by_cases hi : pidOf i ∈ r.numbers
  · obtain ⟨c, -, hstep⟩ := step_wait_present h hi
    rw [hstep]
    exact ⟨r.tracker_finish i, rfl⟩
  · rw [step_wait_absent hi]
    exact ⟨rfl, rfl⟩

theorem background_step (h : Known r.started r.children) (s : TrackerStep) :
    (r.step s).2.tracker.background + (r.step s).1.released =
      r.tracker.background + if s == .addBackground then 1 else 0 := by
  cases s with
  | setForeground pid => rfl
  | clearForeground => rfl
  | addBackground => rfl
  | finish i => exact congrArg Tracker.background (r.tracker_finish i)
  | spawn plan => rfl
  | reap =>
    rw [step_reap h]
    exact Nat.sub_add_cancel r.named_reapable_le
  | wait i =>
    obtain ⟨htracker, hreleased⟩ := tracker_wait h i
    rw [htracker, hreleased]
    rfl

theorem foreground_step (h : Known r.started r.children) (s : TrackerStep) :
    (r.step s).2.tracker.foreground = s.foreground r.tracker.foreground := by
  cases s with
  | setForeground pid => rfl
  | clearForeground => rfl
  | addBackground => rfl
  | finish i => exact congrArg Tracker.foreground (r.tracker_finish i)
  | spawn plan => rfl
  | reap =>
    rw [step_reap h]
    rfl
  | wait i => exact congrArg Tracker.foreground (tracker_wait h i).1

/-! ## Runs -/

/-- Where a run stands after these steps. -/
def after (r : TrackerRun) : List TrackerStep → TrackerRun
  | [] => r
  | s :: rest => (r.step s).2.after rest

/-- The jobs that all passes of a run have released. -/
def released (r : TrackerRun) : List TrackerStep → Nat
  | [] => 0
  | s :: rest => (r.step s).1.released + (r.step s).2.released rest

/-- The numbers of the children that a run has collected, in order. -/
def collected (r : TrackerRun) : List TrackerStep → List Pid
  | [] => []
  | s :: rest => (r.gone s).map (·.pid) ++ (r.step s).2.collected rest

/-- The numbers of all children started. -/
def issued (r : TrackerRun) : List Pid := (List.range r.started.length).map pidOf

theorem Known.after (h : Known r.started r.children) (steps : List TrackerStep) :
    Known (r.after steps).started (r.after steps).children := by
  induction steps generalizing r with
  | nil => exact h
  | cons s rest ih => exact ih (h.step s)

theorem background_after (h : Known r.started r.children) (steps : List TrackerStep) :
    (r.after steps).tracker.background + r.released steps =
      r.tracker.background + steps.count .addBackground := by
  induction steps generalizing r with
  | nil => rfl
  | cons s rest ih =>
    have hstep := background_step h s
    have hrest := ih (h.step s)
    rw [after, released, List.count_cons]
    omega

theorem foreground_after (h : Known r.started r.children) (steps : List TrackerStep) :
    (r.after steps).tracker.foreground =
      steps.foldl (fun slot s => s.foreground slot) r.tracker.foreground := by
  induction steps generalizing r with
  | nil => rfl
  | cons s rest ih => rw [after, List.foldl_cons, ih (h.step s), foreground_step h]

/-- Every child started is in the table or has been collected, and not both. -/
theorem perm_step (h : Known r.started r.children) (s : TrackerStep) (before : List Pid)
    (hperm : (before ++ r.numbers).Perm r.issued) :
    (before ++ (r.gone s).map (·.pid) ++ (r.step s).2.numbers).Perm (r.step s).2.issued := by
  by_cases hs : ∃ plan, s = .spawn plan
  · obtain ⟨plan, rfl⟩ := hs
    obtain ⟨hnumbers, hlen⟩ := r.step_spawn plan
    have hgone : r.gone (.spawn plan) = [] :=
      gone_eq_nil (hnumbers ▸ List.subset_append_left _ _)
    rw [hgone, hnumbers, issued, hlen, List.range_succ, List.map_append, List.map_nil,
      List.append_nil, ← List.append_assoc]
    exact hperm.append_right _
  · obtain ⟨⟨p, hp⟩, hlen⟩ := numbers_step h fun plan heq => hs ⟨plan, heq⟩
    rw [map_pid_gone hp, hp, issued, hlen, List.append_assoc]
    refine List.Perm.trans (List.Perm.append_left before ?_) hperm
    exact List.perm_append_comm.trans (List.filter_append_perm p r.numbers)

theorem perm_after (h : Known r.started r.children) (steps : List TrackerStep)
    (before : List Pid) (hperm : (before ++ r.numbers).Perm r.issued) :
    (before ++ r.collected steps ++ (r.after steps).numbers).Perm (r.after steps).issued := by
  induction steps generalizing r before with
  | nil =>
    rw [collected, List.append_nil]
    exact hperm
  | cons s rest ih =>
    have hrest := ih (h.step s) _ (perm_step h s before hperm)
    rwa [List.append_assoc before] at hrest

/-! ## What is conserved -/

/-- A pass collects as many of the ended children as there are background jobs, leaves the others as
they are, and answers how many of those it collected have not been ended by a real-time signal. -/
structure Reaps (r : TrackerRun) : Prop where
  answer : (r.step .reap).1 = .reaped (r.gone .reap).named
  length : (r.gone .reap).length = min r.tracker.background r.children.ended.length
  ended : ∀ ch ∈ r.gone .reap, ch.ending.isSome
  rest : (r.step .reap).2.children = r.children.without (r.gone .reap)

/-- A wait for a child in the table collects that child and gives how it ended. A wait for another
fails and changes nothing. -/
structure Waits (r : TrackerRun) (i : Nat) : Prop where
  present : pidOf i ∈ r.numbers → ∃ c result, r.started[i]? = some c ∧
    (∀ ch ∈ r.children, ch.pid = pidOf i → ch.ending = none ∨ ch.ending = some c.plan.ending) ∧
    c.plan.ending.Gives result ∧ (r.step (.wait i)).1 = .waited result ∧
    (r.gone (.wait i)).map (·.pid) = [pidOf i]
  absent : pidOf i ∉ r.numbers → r.step (.wait i) = (.waited (.error .ECHILD), r)

/-- A spawn puts its child into the table, behind those that are there. -/
structure Spawns (r : TrackerRun) (plan : ChildPlan) : Prop where
  table : (r.step (.spawn plan)).2.numbers = r.numbers ++ [pidOf r.started.length]
  planned : ∃ c, (r.step (.spawn plan)).2.started = r.started ++ [c] ∧ c.plan = plan
  gone : r.gone (.spawn plan) = []

/-- A child that is told to finish has ended as planned. -/
structure Finishes (r : TrackerRun) (i : Nat) : Prop where
  ended : ∀ c, r.started[i]? = some c → ∀ ch ∈ (r.step (.finish i)).2.children,
    ch.pid = pidOf i → ch.ending = some c.plan.ending
  gone : r.gone (.finish i) = []

/-- What each step collects, and what else it does to the children. -/
def Collects (r : TrackerRun) : TrackerStep → Prop
  | .reap => r.Reaps
  | .wait i => r.Waits i
  | .spawn plan => r.Spawns plan
  | .finish i => r.Finishes i
  | s => r.gone s = []

theorem gone_reap (h : Known r.started r.children) : r.gone .reap = r.reapable := by
  have hsub : r.reapable.Sublist r.children :=
    (List.take_sublist _ _).trans List.filter_sublist
  have hnumbers : (r.step .reap).2.numbers = r.numbers.filter (· ∉ r.reapable.map Child.pid) := by
    rw [step_reap h]
    exact r.children.map_pid_filter fun n => n ∉ r.reapable.map Child.pid
  refine Eq.trans (List.filter_congr fun ch hch => ?_)
    (Children.filter_mem_of_sublist hsub h.nodup)
  have hmem : ch.pid ∈ r.numbers := List.mem_map_of_mem hch
  simp [hnumbers, hmem]

theorem reaps (h : Known r.started r.children) : r.Reaps := by
  have hgone := gone_reap h
  exact {
    answer := by rw [hgone, step_reap h]
    length := by rw [hgone, reapable, List.length_take]
    ended := by
      intro ch hch
      rw [hgone] at hch
      exact (List.mem_filter.1 (List.mem_of_mem_take hch)).2
    rest := by rw [hgone, step_reap h] }

theorem waits (h : Known r.started r.children) (i : Nat) : r.Waits i where
  present := by
    intro hi
    obtain ⟨c, hc, hstep⟩ := step_wait_present h hi
    have hnumbers : (r.step (.wait i)).2.numbers = r.numbers.filter (· ≠ pidOf i) := by
      rw [hstep, ← numbers_finish r i]
      exact (r.finish i).children.map_pid_filter (· ≠ pidOf i)
    refine ⟨c, _, hc, fun ch hch hpid => ?_, Ending.gives_status c.plan.isPossible_ending,
      by rw [hstep], ?_⟩
    · obtain ⟨j, d, hd, hj, hend⟩ := h.planned ch hch
      obtain rfl := pidOf_inj.1 (hpid.symm.trans hj)
      cases hc.symm.trans hd
      exact hend
    · have hself : r.numbers.filter (fun n => !decide (n ≠ pidOf i)) =
          r.numbers.filter (· == pidOf i) :=
        List.filter_congr fun n _ => by simp [BEq.beq]
      have hone : r.numbers.count (pidOf i) = 1 := List.count_eq_one_of_mem h.nodup hi
      rw [map_pid_gone hnumbers, hself, List.filter_beq, hone, List.replicate_one]
  absent := step_wait_absent

theorem collects (h : Known r.started r.children) (s : TrackerStep) : r.Collects s := by
  cases s with
  | setForeground pid => exact gone_eq_nil fun _ hn => hn
  | clearForeground => exact gone_eq_nil fun _ hn => hn
  | addBackground => exact gone_eq_nil fun _ hn => hn
  | finish i =>
    exact ⟨fun c hc ch hch hpid => ending_finish h hc hch hpid,
      gone_eq_nil (r.numbers_finish i ▸ fun _ hn => hn)⟩
  | spawn plan =>
    have hnumbers := (r.step_spawn plan).1
    exact ⟨hnumbers, ⟨_, rfl, rfl⟩, gone_eq_nil (hnumbers ▸ List.subset_append_left _ _)⟩
  | reap => exact reaps h
  | wait i => exact waits h i

/-- Over every run of a fresh tracker: the count is the number of background jobs added less those
that passes have released; what each next step would do to the children is as described; every child
started is either still in the table or has been collected once; and the foreground job is what the
steps that name it have left. -/
theorem conserved (steps : List TrackerStep) :
    (after {} steps).tracker.background + released {} steps = steps.count .addBackground ∧
      (∀ s, (after {} steps).Collects s) ∧
      (collected {} steps ++ (after {} steps).numbers).Perm (after {} steps).issued ∧
      (after {} steps).issued.Nodup ∧
      (after {} steps).tracker.foreground = steps.foldl (fun slot s => s.foreground slot) none := by
  have hknown : Known ({} : TrackerRun).started ({} : TrackerRun).children :=
    { planned := nofun, nodup := List.nodup_nil }
  refine ⟨?_, collects (hknown.after steps), perm_after hknown steps [] .rfl, ?_,
    foreground_after hknown steps⟩
  · rw [background_after hknown]
    exact Nat.zero_add _
  · exact List.nodup_range.map fun _ _ => pidOf_inj.1

/-- A child ended by a real-time signal uses up the attempt of its pass, and the job stays counted. -/
example :
    released {} [.addBackground, .spawn { signal := some 40 }, .spawn {}, .reap] = 0 ∧
      collected {} [.addBackground, .spawn { signal := some 40 }, .spawn {}, .reap] = [1000] := by
  decide

end TrackerRun

end JobShell
