import JobShell.Proofs.Isolation.Attendance

/-!
# The processes that a process forks

* `Doings.forks`: the processes that have been forked, with their programs.
* `Machine.Runs`: a process has done this with its program, and has still to do what is left of it.
* `World.forked_step`: a fork makes a process that has all of its program before it.
* `Machine.Runs.crew`: so it is with every process that a process has forked.
* `Machine.Runs.parts`, `Machine.Runs.crew_parts`: how long it keeps its farewell, and which of them
  have none.
-/

namespace JobShell

/-- The process it forks, with its program. -/
def Doing.fork? : Doing → Option (Act × Pid)
  | forked child (.ok pid) => some (child, pid)
  | _ => none

/-- The processes that have been forked, one after another. -/
def Doings.forks (ds : Doings) : List (Act × Pid) := ds.filterMap Doing.fork?

theorem Doings.mem_forks {ds : Doings} {child : Act} {pid : Pid} :
    (child, pid) ∈ ds.forks ↔ .forked child (.ok pid) ∈ ds := by
  refine List.mem_filterMap.trans ⟨?_, fun h => ⟨_, h, rfl⟩⟩
  rintro ⟨d, hd, heq⟩
  unfold Doing.fork? at heq
  split at heq
  · obtain ⟨rfl, rfl⟩ := Prod.mk.inj (Option.some.inj heq)
    exact hd
  · cases heq

theorem Doings.map_fst_forks (ds : Doings) : ds.forks.map Prod.fst = ds.starts := by
  unfold forks starts
  rw [List.map_filterMap]
  congr 1
  funext d
  cases d with
  | forked child reply => cases reply <;> rfl
  | _ => rfl

namespace World

variable {w : World} {pid q : Pid} {child : Act} {p : Process}

/-- A step that forks makes a copy of the process as it is after its signals. -/
theorem forked_step (hk : w.Keyed) (hknown : pid < w.nextPid)
    (h : w.doing? pid = some (.forked child (.ok q))) :
    q = w.nextPid ∧ q < (w.step pid).1.nextPid ∧
      ∃ p, (w.takeSignals signalCount pid).process? pid = some p ∧
        (w.step pid).1.process? q = some (p.forked q child) := by
  have hleaves := leaves_takeSignals hk signalCount pid
  have hkeyed := hleaves.keyed hk
  rcases w.doing?_cases pid with ⟨-, ⟨hd, -⟩ | ⟨hd, -⟩⟩ | ⟨p, hp, hstep, hd⟩
  · cases hd.symm.trans h
  · rw [hd] at h
    cases hp : w.process? pid with
    | none =>
      rw [hp] at h
      cases h
    | some p =>
      rw [hp] at h
      cases h
  · rw [hd] at h
    have hpid := hkeyed.pid_eq hp
    have hnext := hleaves.nextPid_eq
    generalize w.takeSignals signalCount pid = w₁ at *
    have hdue : ∃ next, p.due? = some (.fork child next) ∧ q = w₁.nextPid := by
      have hadvances := w₁.advances p
      rw [h] at hadvances
      generalize (w₁.advance p).1 = w' at hadvances
      cases hadvances with
      | forks hdue => exact ⟨_, hdue, rfl⟩
    obtain ⟨next, hdue, rfl⟩ := hdue
    have hne : w₁.nextPid ≠ p.pid := by
      rw [hpid, hnext]
      exact Int.ne_of_gt hknown
    have hkeyed₁ : World.Keyed { w₁ with nextPid := w₁.nextPid + 1 } := hkeyed
    have hset := keyed_setProcess hkeyed₁ (p.forked w₁.nextPid child)
    have hfork := (grows_fork hkeyed p child).keyed hkeyed
    refine ⟨hnext, ?_, p, hp, ?_⟩
    · have hstays := leaves_modifyProcess hfork p.pid
        (f := fun q => { q with program := some (next (.ok w₁.nextPid)) }) fun _ => rfl
      have hforked : (w₁.fork p child).2.nextPid = w₁.nextPid + 1 :=
        (leavesAll_fork hkeyed p child).nextPid_eq
      rw [hstep, advance_fork hdue, hstays.nextPid_eq, hforked]
      exact Int.lt_succ _
    · have hmake := process?_modifyProcess_of_ne hset
        (f := fun q => { q with children := q.children.add w₁.nextPid }) (fun _ => rfl) hne
      have hkeep := process?_modifyProcess_of_ne hfork
        (f := fun q => { q with program := some (next (.ok w₁.nextPid)) }) (fun _ => rfl) hne
      rw [hstep, advance_fork hdue, hkeep, fork_snd, hmake, process?_setProcess,
        if_pos (Process.pid_forked _ _ _)]

/-- A process that is not there does nothing. -/
theorem doing?_of_none (h : w.process? pid = none) : w.doing? pid = none := by
  unfold doing?
  rw [takeSignals_of_none h]
  dsimp only
  rw [h]
  rfl

end World

namespace Machine

variable {m m' m₁ : Machine} {is : List Incident} {i : Incident} {pid q : Pid} {a child : Act}
  {ds : Doings}

/-- Another process than the interpreter has done this with its program, and has still to do what is
left of it. -/
structure Runs (m : Machine) (pid : Pid) (a : Act) (ds : Doings) : Prop where
  kindred : m.Kindred
  other : pid ≠ m.pid
  known : pid < m.world.nextPid
  travels : m.world.Travels pid a ds

theorem Launched.runs {pipeline : Pipeline} {leader : Pid} (hl : Launched pipeline leader ds m) :
    m.Runs leader (Launch.leader m.env pipeline).run ds :=
  ⟨hl.kindred, hl.other, hl.known, hl.travels⟩

theorem Runs.meets (hr : m.Runs pid a ds) (hm : m.Meets i m') :
    m'.Runs pid a (ds.then (m.doing? pid i)) where
  kindred := hm.kindred hr.kindred
  other := by
    rw [hm.pid_eq]
    exact hr.other
  known := Int.lt_of_lt_of_le hr.known (hm.grows hr.kindred.toNumbered).nextPid
  travels := hm.travels hr.kindred.toNumbered hr.other hr.known hr.travels

theorem Runs.course (hr : m.Runs pid a []) (h : m.meets? is = some m') :
    m'.Runs pid a (m.doings pid is) := by
  refine meets?_induction (P := fun is m' => m'.Runs pid a (m.doings pid is)) hr ?_ h
  intro is i m₁ m₂ hpre hm₁ hm
  rw [doings_concat pid i hpre]
  exact hm₁.meets (meets_of_meet? hm₁.kindred.keyed hm)

/-- A process that is not there does nothing. -/
theorem doing?_of_none (h : m.world.process? pid = none) (i : Incident) : m.doing? pid i = none := by
  unfold doing?
  split
  · rw [World.doing?_of_none h, ite_self]
  · have hdenied (e : Errno) : m.world.denied? pid e = none := by
      unfold World.denied?
      rw [h]
    rw [hdenied, Option.map_none, ite_self]
  · rfl

/-- What a process forks in an incident has all of its program before it. -/
theorem Runs.forked (hr : m.Runs pid a ds) (hm : m.Meets i m')
    (hd : m.doing? pid i = some (.forked child (.ok q))) :
    q = m.world.nextPid ∧ m'.Runs q child [] := by
  rcases of_doing? hd with ⟨rfl, hturn⟩ | ⟨e, rfl, hdenied⟩
  · have hworld : m'.world = (m.world.step pid).1 := by
      cases hm with
      | happens hm => cases hm with | turn => rfl
    obtain ⟨rfl, hnext, p, -, hq⟩ := World.forked_step hr.kindred.keyed hr.known hturn
    rw [← hworld] at hnext hq
    refine ⟨rfl, hm.kindred hr.kindred, ?_, hnext, .going (.start _) ?_⟩
    · rw [hm.pid_eq]
      exact Int.ne_of_gt hr.kindred.known
    · rw [World.program?_eq_some hq]
      rfl
  · cases hdenied

/-- A process keeps its farewell no longer than `World.Parts` says. -/
theorem Runs.parts {text? : Option Bytes} (hr : m.Runs pid a []) (hp : m.world.Parts pid text? [])
    (h : m.meets? is = some m') : m'.world.Parts pid text? (m.doings pid is) := by
  refine meets?_induction (P := fun is m' => m'.world.Parts pid text? (m.doings pid is)) hp ?_ h
  intro is i m₁ m₂ hpre hp₁ hm
  have hr₁ := hr.course hpre
  rw [doings_concat pid i hpre]
  exact (meets_of_meet? hr₁.kindred.keyed hm).parts hr₁.kindred.toNumbered hr₁.other hr₁.known hp₁

/-- What is forked by a process that has set what is done about a SIGINT takes no leave. -/
theorem Runs.forked_parts {text? : Option Bytes} (hr : m.Runs pid a ds)
    (hp : m.world.Parts pid text? ds) (hm : m.Meets i m')
    (hd : m.doing? pid i = some (.forked child (.ok q))) (hany : ds.any Doing.isLast = false)
    (hresets : ∀ ds o, a.Path ds o → .forked child (.ok q) ∈ ds → ds.any Doing.resets) :
    m'.world.Parts q none [] := by
  have hset : ds.any Doing.resets := by
    have htravels := (hr.meets hm).travels
    rw [hd, Doings.then, if_neg (by rw [hany]; exact Bool.false_ne_true), Option.toList_some]
      at htravels
    rcases htravels.path_or with ⟨o, hpath⟩ | ⟨_, front, _, _, _, heq⟩
    · obtain ⟨d, hmem, hd⟩ := List.any_eq_true.1 (hresets _ _ hpath List.mem_concat_self)
      rcases List.mem_append.1 hmem with hmem | hmem
      · exact List.any_eq_true.2 ⟨d, hmem, hd⟩
      · rw [List.mem_singleton.1 hmem] at hd
        cases hd
    · cases List.append_inj_right' heq rfl
  refine .nil fun text htext => ?_
  rcases of_doing? hd with ⟨rfl, hturn⟩ | ⟨e, rfl, hdenied⟩
  · obtain ⟨-, -, p, hp₁, hq⟩ := World.forked_step hr.kindred.keyed hr.known hturn
    have hworld : m'.world = (m.world.step pid).1 := by
      cases hm with
      | happens hm => cases hm with | turn => rfl
    rw [hworld, World.farewell_eq hq] at htext
    have hbefore := World.fades_takeSignals hr.kindred.keyed World.signalCount pid text
      ((World.farewell_eq hp₁).trans htext)
    cases hset.symm.trans (hp.has text hbefore).2
  · cases hdenied

/-- A process that has not been made has done nothing. -/
theorem doings_unborn (hk : m.Kindred) (h : m.meets? is = some m') (hq : m'.world.nextPid ≤ q) :
    m.doings q is = [] := by
  refine meets?_induction
    (P := fun is m' => m'.Kindred ∧ (m'.world.nextPid ≤ q → m.doings q is = [])) ⟨hk, fun _ => rfl⟩
    ?_ h |>.2 hq
  intro is i m₁ m₂ hpre hm₁ hm
  have hmeets := meets_of_meet? hm₁.1.keyed hm
  refine ⟨hmeets.kindred hm₁.1, fun hq => ?_⟩
  have hbefore := Int.le_trans (hmeets.grows hm₁.1.toNumbered).nextPid hq
  have hnone : m₁.world.process? q = none := by
    by_contra hne
    obtain ⟨p, hp⟩ := Option.ne_none_iff_exists'.1 hne
    exact absurd (hm₁.1.given q p hp) (Int.not_lt.2 hbefore)
  rw [doings_concat q i hpre, hm₁.2 hbefore, doing?_of_none hnone]
  rfl

/-- What is forked next has done nothing in the course so far, and does nothing in this incident. -/
theorem Runs.doings_next (hr : m.Runs pid a []) (hpre : m.meets? is = some m₁) (i : Incident) :
    (m.doings m₁.world.nextPid is).then (m₁.doing? m₁.world.nextPid i) = [] := by
  have hk₁ := (hr.course hpre).kindred
  have hnone : m₁.world.process? m₁.world.nextPid = none := by
    by_contra hne
    obtain ⟨p, hp⟩ := Option.ne_none_iff_exists'.1 hne
    exact absurd (hk₁.given _ p hp) (Int.lt_irrefl _)
  rw [doings_unborn hr.kindred hpre (Int.le_refl _), doing?_of_none hnone]
  rfl

/-- Every process that a process has forked has done what it has done with the program it was forked
for. -/
theorem Runs.crew (hr : m.Runs pid a []) (h : m.meets? is = some m')
    (hq : (child, q) ∈ (m.doings pid is).forks) :
    pid < q ∧ m'.Runs q child (m.doings q is) := by
  refine meets?_induction
    (P := fun is m' => ∀ child q, (child, q) ∈ (m.doings pid is).forks →
      pid < q ∧ m'.Runs q child (m.doings q is)) ?_ ?_ h child q hq
  · intro child q hq
    cases hq
  · intro is i m₁ m₂ hpre hcrew hm child q hq
    have hr₁ := hr.course hpre
    have hmeets := meets_of_meet? hr₁.kindred.keyed hm
    rw [doings_concat pid i hpre] at hq
    rw [doings_concat q i hpre]
    rcases Doings.mem_then (Doings.mem_forks.1 hq) with hold | ⟨hd, -⟩
    · obtain ⟨hlt, hq₁⟩ := hcrew child q (Doings.mem_forks.2 hold)
      exact ⟨hlt, hq₁.meets hmeets⟩
    · obtain ⟨rfl, hnew⟩ := hr₁.forked hmeets hd
      rw [hr.doings_next hpre]
      exact ⟨hr₁.known, hnew⟩

/-- None of them takes its leave, if the process sets what is done about a SIGINT before it forks. -/
theorem Runs.crew_parts {text? : Option Bytes} (hr : m.Runs pid a [])
    (hp : m.world.Parts pid text? [])
    (hresets : ∀ ds o child q, a.Path ds o → .forked child (.ok q) ∈ ds → ds.any Doing.resets)
    (h : m.meets? is = some m') (hq : (child, q) ∈ (m.doings pid is).forks) :
    m'.world.Parts q none (m.doings q is) := by
  refine meets?_induction
    (P := fun is m' => ∀ child q, (child, q) ∈ (m.doings pid is).forks →
      m'.world.Parts q none (m.doings q is)) ?_ ?_ h child q hq
  · intro child q hq
    cases hq
  · intro is i m₁ m₂ hpre hcrew hm child q hq
    have hr₁ := hr.course hpre
    have hmeets := meets_of_meet? hr₁.kindred.keyed hm
    rw [doings_concat pid i hpre] at hq
    rw [doings_concat q i hpre]
    rcases Doings.mem_then (Doings.mem_forks.1 hq) with hold | ⟨hd, hany⟩
    · obtain ⟨-, hq₁⟩ := hr.crew hpre (Doings.mem_forks.2 hold)
      exact hmeets.parts hq₁.kindred.toNumbered hq₁.other hq₁.known
        (hcrew child q (Doings.mem_forks.2 hold))
    · obtain ⟨rfl, -⟩ := hr₁.forked hmeets hd
      rw [hr.doings_next hpre]
      exact hr₁.forked_parts (hr.parts hp hpre) hmeets hd hany fun ds o => hresets ds o child _

end Machine

end JobShell
