import Mathlib.Data.List.Nodup
import JobShell.Proofs.Wiring.Course
import JobShell.Proofs.Wiring.Programs

/-!
# The invariant of a job while its processes are tied together

* `Plumbing.Laid`: what the recorded open files and pipes refer to, and that no other open file is
  an end of a pipe of the job.
* `World.Engaged`: a process still meets its duty, or it has executed its program as it asks.
* `Wiring.Tied`: both, for the leader and for each stage it has started.
-/

namespace JobShell

/-! ## Files and pipes -/

/-- The plumbing of a job that has been started in `w₀`, as the system has it now. -/
structure Plumbing.Laid (m : Plumbing) (w₀ w : World) : Prop where
  nextFile : w₀.nextFile ≤ w.nextFile
  nextPipe : w₀.nextPipe ≤ w.nextPipe
  fresh : ∀ (i : Nat) e, m.pipes[i]? = some e →
    w₀.nextPipe ≤ e.number ∧ w₀.nextFile ≤ e.read ∧ w₀.nextFile ≤ e.write
  ends : ∀ (i : Nat) e, m.pipes[i]? = some e →
    w.object? e.read = some (.readEnd e.number) ∧ w.object? e.write = some (.writeEnd e.number)
  /-- No other open file is an end of a pipe of the job. -/
  only : ∀ id o n, w.object? id = some o → o.pipe? = some n → w₀.nextPipe ≤ n →
    ∃ (i : Nat) (e : PipeEnds), m.pipes[i]? = some e ∧
      (id = e.read ∧ o = .readEnd e.number ∨ id = e.write ∧ o = .writeEnd e.number)
  distinct : (m.pipes.map PipeEnds.number).Nodup
  opened : ∀ o, m.opened = some o → w₀.nextFile ≤ o.file ∧
    ∃ ob, w.object? o.file = some ob ∧ ∀ n, ob.pipe? = some n → n < w₀.nextPipe

namespace Plumbing.Laid

variable {m m' : Plumbing} {w₀ w w' : World} {d : Duty} {pid : Pid} {t : Bindings} {ex : Bool}
  {who : Pid → Prop}

theorem start (hs : w.Sound) : Laid {} w w where
  nextFile := Nat.le_refl _
  nextPipe := Nat.le_refl _
  fresh i e h := by cases h
  ends i e h := by cases h
  only id o n ho hn hle := by
    have := hs.pipes id o n ho hn
    omega
  distinct := List.nodup_nil
  opened o h := by cases h

theorem of_objects (h : m.Laid w₀ w) (hobjects : ∀ id, w'.object? id = w.object? id)
    (hfile : w'.nextFile = w.nextFile) (hpipe : w'.nextPipe = w.nextPipe) : m.Laid w₀ w' where
  nextFile := hfile ▸ h.nextFile
  nextPipe := hpipe ▸ h.nextPipe
  fresh := h.fresh
  ends i e he := by
    rw [hobjects, hobjects]
    exact h.ends i e he
  only id o n ho := h.only id o n (hobjects id ▸ ho)
  distinct := h.distinct
  opened o ho := by
    rw [hobjects]
    exact h.opened o ho

theorem of_keeps (h : m.Laid w₀ w) (hk : w.Keeps w' who) : m.Laid w₀ w' :=
  h.of_objects hk.objects hk.nextFile hk.nextPipe

/-- What is recorded is there, so it is not changed when something is added. -/
theorem object?_of_adds {os : List Object} {k id : Nat} {o : Object} (hs : w.Sound)
    (ha : w.Adds w' who os k) (ho : w.object? id = some o) : w'.object? id = some o := by
  rw [ha.old id (hs.files id o ho), ho]

theorem opens {o : Object} {new : Opened} (h : m.Laid w₀ w) (hm : m.pipes = [])
    (hfile : new.file = w.nextFile)
    (ho : ∀ n, o.pipe? = some n → ∃ id o', w.object? id = some o' ∧ o'.pipe? = some n)
    (ha : w.Adds w' who [o] 0) : Laid { m with opened := some new } w₀ w' := by
  have hold : ∀ id o n, w.object? id = some o → o.pipe? = some n → n < w₀.nextPipe := by
    intro id o n hid hn
    by_contra hle
    obtain ⟨i, e, he, -⟩ := h.only id o n hid hn (Nat.le_of_not_lt hle)
    rw [hm] at he
    cases he
  have hnew : ∀ n, o.pipe? = some n → n < w₀.nextPipe := by
    intro n hn
    obtain ⟨id, o', hid, hn'⟩ := ho n hn
    exact hold id o' n hid hn'
  exact {
    nextFile := by
      rw [ha.nextFile]
      exact Nat.le_succ_of_le h.nextFile
    nextPipe := by
      rw [ha.nextPipe]
      exact h.nextPipe
    fresh := h.fresh
    ends := fun i e he => by
      rw [hm] at he
      cases he
    only := fun id ob n hob hn hle => by
      exfalso
      rcases ha.object_cases hob with ⟨-, hob⟩ | ⟨i, -, hi⟩
      · exact Nat.not_lt.2 hle (hold id ob n hob hn)
      · have hmem := List.mem_of_getElem? hi
        rw [List.mem_singleton] at hmem
        subst hmem
        exact Nat.not_lt.2 hle (hnew n hn)
    distinct := h.distinct
    opened := fun o' ho' => by
      cases ho'
      rw [hfile]
      exact ⟨h.nextFile, o, ha.new 0, hnew⟩ }

theorem pipes {e : PipeEnds} (h : m.Laid w₀ w) (hs : w.Sound)
    (he : e = { number := w.nextPipe, read := w.nextFile, write := w.nextFile + 1 })
    (ha : w.Adds w' who [.readEnd w.nextPipe, .writeEnd w.nextPipe] 1) :
    Laid { m with pipes := m.pipes ++ [e] } w₀ w' where
  nextFile := by
    rw [ha.nextFile]
    exact Nat.le_add_right_of_le h.nextFile
  nextPipe := by
    rw [ha.nextPipe]
    exact Nat.le_add_right_of_le h.nextPipe
  fresh i e' hi := by
    have hfile := h.nextFile
    have hpipe := h.nextPipe
    rcases List.mem_append.1 (List.mem_of_getElem? hi) with hmem | hmem
    · obtain ⟨i', hi'⟩ := List.getElem?_of_mem hmem
      exact h.fresh i' e' hi'
    · rw [List.mem_singleton] at hmem
      rw [hmem, he]
      exact ⟨hpipe, hfile, Nat.le_succ_of_le hfile⟩
  ends i e' hi := by
    rcases List.mem_append.1 (List.mem_of_getElem? hi) with hmem | hmem
    · obtain ⟨i', hi'⟩ := List.getElem?_of_mem hmem
      obtain ⟨hr, hw⟩ := h.ends i' e' hi'
      exact ⟨object?_of_adds hs ha hr, object?_of_adds hs ha hw⟩
    · rw [List.mem_singleton] at hmem
      rw [hmem, he]
      exact ⟨ha.new 0, ha.new 1⟩
  only id o n ho hn hle := by
    rcases ha.object_cases ho with ⟨-, ho⟩ | ⟨i, rfl, hi⟩
    · obtain ⟨i, e', hi, hends⟩ := h.only id o n ho hn hle
      refine ⟨i, e', ?_, hends⟩
      exact (List.getElem?_append_left (List.getElem?_eq_some_iff.1 hi).1).trans hi
    · refine ⟨m.pipes.length, e, List.getElem?_concat_length, ?_⟩
      match i with
      | 0 =>
        cases hi
        rw [he]
        exact .inl ⟨rfl, rfl⟩
      | 1 =>
        cases hi
        rw [he]
        exact .inr ⟨rfl, rfl⟩
      | i + 2 => cases hi
  distinct := by
    rw [List.map_append, List.map_singleton]
    refine List.nodup_append.2 ⟨h.distinct, List.nodup_singleton _, fun n hn n' hn' => ?_⟩
    rw [List.mem_singleton] at hn'
    obtain ⟨e', hmem, rfl⟩ := List.mem_map.1 hn
    obtain ⟨i, hi⟩ := List.getElem?_of_mem hmem
    -- the older pipes have ends, so their numbers have been given
    have hlt := hs.pipes _ _ _ (h.ends i e' hi).1 rfl
    rw [hn', he]
    exact Nat.ne_of_lt hlt
  opened o ho := by
    obtain ⟨hle, ob, hob, hn⟩ := h.opened o ho
    exact ⟨hle, ob, object?_of_adds hs ha hob, hn⟩

theorem move (h : m.Laid w₀ w) (hs : w.Sound) (hm : w.Moves d pid t m w' m' ex) :
    m'.Laid w₀ w' := by
  cases hm with
  | ends hk => exact h.of_keeps hk
  | goes hk => exact h.of_keeps hk
  | executes hk => exact h.of_keeps hk
  | opens _ hpipes _ hopened ho ha => exact h.opens hpipes hopened ho ha
  | pipes _ _ _ ha => exact h.pipes hs rfl ha
  | forks _ _ hf hk =>
    have hlaid := (h.of_objects hf.objects hf.nextFile hf.nextPipe).of_keeps hk
    exact { hlaid with }

/-- Pipes are told apart by their numbers. -/
theorem index_eq (h : m.Laid w₀ w) {i i' : Nat} {e e' : PipeEnds} (hi : m.pipes[i]? = some e)
    (hi' : m.pipes[i']? = some e') (hnumber : e.number = e'.number) : i = i' := by
  have hmap {n : Nat} {e : PipeEnds} (hn : m.pipes[n]? = some e) :
      (m.pipes.map PipeEnds.number)[n]? = some e.number := by
    rw [List.getElem?_map, hn]
    rfl
  obtain ⟨hlt, -⟩ := List.getElem?_eq_some_iff.1 (hmap hi)
  refine (List.getElem?_inj hlt h.distinct).1 ?_
  rw [hmap hi, hmap hi', hnumber]

theorem eq_read (h : m.Laid w₀ w) {i id : Nat} {e : PipeEnds} (hi : m.pipes[i]? = some e)
    (hid : w.object? id = some (.readEnd e.number)) : id = e.read := by
  obtain ⟨i', e', hi', ⟨hread, heq⟩ | ⟨-, heq⟩⟩ := h.only id _ _ hid rfl (h.fresh i e hi).1
  · cases h.index_eq hi hi' (Object.readEnd.inj heq)
    cases hi.symm.trans hi'
    exact hread
  · cases heq

theorem eq_write (h : m.Laid w₀ w) {i id : Nat} {e : PipeEnds} (hi : m.pipes[i]? = some e)
    (hid : w.object? id = some (.writeEnd e.number)) : id = e.write := by
  obtain ⟨i', e', hi', ⟨-, heq⟩ | ⟨hwrite, heq⟩⟩ := h.only id _ _ hid rfl (h.fresh i e hi).1
  · cases heq
  · cases h.index_eq hi hi' (Object.writeEnd.inj heq)
    cases hi.symm.trans hi'
    exact hwrite

theorem read_inj (h : m.Laid w₀ w) {i i' : Nat} {e e' : PipeEnds} (hi : m.pipes[i]? = some e)
    (hi' : m.pipes[i']? = some e') (heq : e.read = e'.read) : i = i' := by
  have hobject := (h.ends i e hi).1
  rw [heq, (h.ends i' e' hi').1] at hobject
  exact h.index_eq hi hi' (Object.readEnd.inj (Option.some.inj hobject)).symm

theorem write_inj (h : m.Laid w₀ w) {i i' : Nat} {e e' : PipeEnds} (hi : m.pipes[i]? = some e)
    (hi' : m.pipes[i']? = some e') (heq : e.write = e'.write) : i = i' := by
  have hobject := (h.ends i e hi).2
  rw [heq, (h.ends i' e' hi').2] at hobject
  exact h.index_eq hi hi' (Object.writeEnd.inj (Option.some.inj hobject)).symm

/-- An end of a pipe is not the file of the redirection. -/
theorem file_ne (h : m.Laid w₀ w) {i : Nat} {e : PipeEnds} {o : Opened} (hi : m.pipes[i]? = some e)
    (ho : m.opened = some o) : o.file ≠ e.read ∧ o.file ≠ e.write := by
  obtain ⟨-, ob, hob, hpipe⟩ := h.opened o ho
  obtain ⟨hread, hwrite⟩ := h.ends i e hi
  have hfresh := (h.fresh i e hi).1
  constructor
  · intro heq
    rw [heq, hread] at hob
    cases hob
    exact Nat.not_lt.2 hfresh (hpipe _ rfl)
  · intro heq
    rw [heq, hwrite] at hob
    cases hob
    exact Nat.not_lt.2 hfresh (hpipe _ rfl)

theorem read_ne_write (h : m.Laid w₀ w) {i i' : Nat} {e e' : PipeEnds} (hi : m.pipes[i]? = some e)
    (hi' : m.pipes[i']? = some e') : e.read ≠ e'.write := by
  intro heq
  have hobject := (h.ends i e hi).1
  rw [heq, (h.ends i' e' hi').2] at hobject
  cases hobject

end Plumbing.Laid

/-! ## Processes -/

/-- A process meets its duty or has ended, as long as it has not executed a program; if it has, it
did so as it should. -/
structure World.Engaged (w : World) (d : Duty) (pid : Pid) (m : Plumbing) (executed : Prop) :
    Prop where
  going : ¬executed → w.grip? pid = none ∨ ∃ t, w.Goes d pid t m
  done : executed → ∃ a t, w.grip? pid = some { pid, program := a, bindings := t.kept } ∧ d.exec t m

namespace World.Engaged

variable {w w' : World} {d : Duty} {pid : Pid} {m m' : Plumbing} {executed executed' : Prop}

theorem of_moves {t : Bindings} {ex : Bool} (h : w.Moves d pid t m w' m' ex)
    (hex : executed ↔ ex = true) : w'.Engaged d pid m' executed := by
  cases h with
  | ends _ hg => exact ⟨fun _ => .inl hg, fun h => by cases hex.1 h⟩
  | goes _ _ hg => exact ⟨fun _ => .inr ⟨_, hg⟩, fun h => by cases hex.1 h⟩
  | executes _ hx hg =>
    obtain ⟨a, hg⟩ := hg
    exact ⟨fun h => absurd (hex.2 rfl) h, fun _ => ⟨a, t, hg, hx⟩⟩
  | opens _ _ _ _ _ _ hg => exact ⟨fun _ => .inr ⟨_, hg⟩, fun h => by cases hex.1 h⟩
  | pipes _ _ _ _ hg => exact ⟨fun _ => .inr ⟨_, hg⟩, fun h => by cases hex.1 h⟩
  | forks _ _ _ _ hg => exact ⟨fun _ => .inr ⟨_, hg⟩, fun h => by cases hex.1 h⟩

theorem of_grip (h : w.Engaged d pid m executed) (hgrip : w'.grip? pid = w.grip? pid)
    (hex : executed' ↔ executed) : w'.Engaged d pid m executed' where
  going hne := by
    unfold Goes
    rw [hgrip]
    exact h.going (mt hex.2 hne)
  done he := by
    rw [hgrip]
    exact h.done (hex.1 he)

/-- What is made for the job does not matter to a stage. -/
theorem follow {goal : Bindings} (h : w.Engaged (.follow goal) pid m executed) (m' : Plumbing) :
    w.Engaged (.follow goal) pid m' executed where
  going hne := (h.going hne).imp_right fun ⟨t, a, hg, ha⟩ => ⟨t, a, hg, ha.follow m'⟩
  done := h.done

end World.Engaged

/-! ## The invariant -/

/-- What stage `k` is to have that feeds another. -/
def Plumbing.goal (m : Plumbing) (t₀ : Bindings) (pl : Pipeline) (k : Nat) : Bindings :=
  m.feeding (m.redirected pl.redirect t₀) k

/-- A new pipe does not matter to the stages that have one. -/
theorem Plumbing.goal_new {m : Plumbing} {t₀ : Bindings} {pl : Pipeline} {k : Nat} {e : PipeEnds}
    (hk : k < m.pipes.length) :
    goal { m with pipes := m.pipes ++ [e] } t₀ pl k = m.goal t₀ pl k := by
  have hstdin : ∀ b, stdin { m with pipes := m.pipes ++ [e] } b k = m.stdin b k := by
    intro b
    cases k with
    | zero => rfl
    | succ k =>
      exact congrArg (Option.map PipeEnds.reader) (List.getElem?_append_left (Nat.lt_of_succ_lt hk))
  unfold goal feeding ending
  rw [hstdin, List.getElem?_append_left hk]
  rfl

namespace Wiring

/-- The job has been started in `w₀` by a leader with bindings `t₀`. -/
structure Tied (j : Wiring) (w₀ : World) (t₀ : Bindings) (pl : Pipeline) : Prop where
  sound : j.world.Sound
  laid : j.made.Laid w₀ j.world
  nodup : j.members.Nodup
  given : ∀ pid ∈ j.members, pid < j.world.nextPid
  recorded : ∀ pid ∈ j.executed, pid ∈ j.members
  /-- Who is not of the job holds what has been there before. -/
  outsiders : ∀ pid g, pid ∉ j.members → j.world.grip? pid = some g →
    g.bindings.Below w₀.nextFile
  leader : j.world.Engaged (.lead t₀ pl) j.leader j.made (j.leader ∈ j.executed)
  stages : ∀ (k : Nat) pid, j.made.started[k]? = some pid →
    j.made.Opens pl.redirect ∧ k < j.made.pipes.length ∧ k + 1 < pl.stages.length ∧
    j.world.Engaged (.follow (j.made.goal t₀ pl k)) pid j.made (pid ∈ j.executed)

theorem mem_moved_self {j : Wiring} {pid : Pid} {w : World} {m : Plumbing} {ex : Bool}
    (h : pid ∉ j.executed) : pid ∈ (j.moved pid w m ex).executed ↔ ex = true := by
  unfold moved
  cases ex <;> simp [h]

theorem mem_moved_of_ne {j : Wiring} {pid q : Pid} {w : World} {m : Plumbing} {ex : Bool}
    (h : q ≠ pid) : q ∈ (j.moved pid w m ex).executed ↔ q ∈ j.executed := by
  unfold moved
  cases ex <;> simp [h]

namespace Tied

variable {j : Wiring} {w₀ w' : World} {t₀ t : Bindings} {pl : Pipeline} {m' : Plumbing} {ex : Bool}
  {pid : Pid}

theorem mem_of_started {k : Nat} (h : j.made.started[k]? = some pid) : pid ∈ j.members :=
  List.mem_cons_of_mem _ (List.mem_of_getElem? h)

theorem leader_not_mem (h : j.Tied w₀ t₀ pl) : j.leader ∉ j.made.started :=
  (List.nodup_cons.1 h.nodup).1

theorem ne_leader (h : j.Tied w₀ t₀ pl) {k : Nat} (hk : j.made.started[k]? = some pid) :
    pid ≠ j.leader := by
  rintro rfl
  exact h.leader_not_mem (List.mem_of_getElem? hk)

theorem stage_inj (h : j.Tied w₀ t₀ pl) {k k' : Nat} (hk : j.made.started[k]? = some pid)
    (hk' : j.made.started[k']? = some pid) : k = k' := by
  obtain ⟨hlt, -⟩ := List.getElem?_eq_some_iff.1 hk
  exact (List.getElem?_inj hlt (List.nodup_cons.1 h.nodup).2).1 (hk.trans hk'.symm)

theorem recorded_moved (h : j.Tied w₀ t₀ pl) (hpid : pid ∈ j.members)
    (hstarted : ∀ q ∈ j.made.started, q ∈ m'.started) :
    ∀ q ∈ (j.moved pid w' m' ex).executed, q ∈ (j.moved pid w' m' ex).members := by
  have hmembers : ∀ q ∈ j.members, q ∈ (j.moved pid w' m' ex).members := by
    intro q hq
    rcases List.mem_cons.1 hq with rfl | hq
    · exact List.mem_cons_self
    · exact List.mem_cons_of_mem _ (hstarted q hq)
  intro q hq
  by_cases hqp : q = pid
  · exact hmembers q (hqp ▸ hpid)
  · exact hmembers q (h.recorded q ((mem_moved_of_ne hqp).1 hq))

/-- A call of a stage. -/
theorem move_stage (h : j.Tied w₀ t₀ pl) {k : Nat} (hk : j.made.started[k]? = some pid)
    (hex : pid ∉ j.executed) (ht : t.Below j.world.nextFile)
    (hm : j.world.Moves (.follow (j.made.goal t₀ pl k)) pid t j.made w' m' ex) :
    (j.moved pid w' m' ex).Tied w₀ t₀ pl := by
  have hmem := mem_of_started hk
  obtain rfl : m' = j.made := hm.made_eq id
  exact {
    sound := hm.sound h.sound (h.given pid hmem) ht
    laid := h.laid.move h.sound hm
    nodup := h.nodup
    given := fun q hq => Int.lt_of_lt_of_le (h.given q hq) hm.nextPid_le
    recorded := h.recorded_moved hmem fun _ hq => hq
    outsiders := fun q g hq hg => by
      have hne : q ≠ pid := by
        rintro rfl
        exact hq hmem
      rw [moved, hm.others hne (.inr fun hstarted => hq (List.mem_cons_of_mem _ hstarted))] at hg
      exact h.outsiders q g hq hg
    leader := h.leader.of_grip (hm.others (h.ne_leader hk).symm (.inr h.leader_not_mem))
      (mem_moved_of_ne (h.ne_leader hk).symm)
    stages := fun k' q hk' => by
      obtain ⟨hopens, hpipes, hlen, hengaged⟩ := h.stages k' q hk'
      refine ⟨hopens, hpipes, hlen, ?_⟩
      by_cases hq : q = pid
      · subst hq
        obtain rfl := h.stage_inj hk hk'
        exact .of_moves hm (mem_moved_self hex)
      · have hold := Int.ne_of_lt (h.given q (mem_of_started hk'))
        exact hengaged.of_grip (hm.others hq (.inl hold)) (mem_moved_of_ne hq) }

theorem outsiders_moved (h : j.Tied w₀ t₀ pl) (hstarted : ∀ q ∈ j.made.started, q ∈ m'.started)
    (hm : j.world.Moves (.lead t₀ pl) j.leader t j.made w' m' ex) (q : Pid) (g : Grip)
    (hq : q ∉ j.leader :: m'.started) (hg : w'.grip? q = some g) :
    g.bindings.Below w₀.nextFile := by
  rw [hm.others (List.ne_of_not_mem_cons hq) (.inr (List.not_mem_of_not_mem_cons hq))] at hg
  refine h.outsiders q g (fun hmem => hq ?_) hg
  rcases List.mem_cons.1 hmem with rfl | hmem
  · exact List.mem_cons_self
  · exact List.mem_cons_of_mem _ (hstarted q hmem)

/-- A stage that has been started before, after a call of the leader. -/
theorem stage_moved (h : j.Tied w₀ t₀ pl)
    (hm : j.world.Moves (.lead t₀ pl) j.leader t j.made w' m' ex) {k : Nat} {q : Pid}
    (hk : j.made.started[k]? = some q) :
    m'.Opens pl.redirect ∧ k < m'.pipes.length ∧ k + 1 < pl.stages.length ∧
    w'.Engaged (.follow (m'.goal t₀ pl k)) q m' (q ∈ (j.moved j.leader w' m' ex).executed) := by
  obtain ⟨hopens, hpipes, hlen, hengaged⟩ := h.stages k q hk
  have hgrip : w'.grip? q = j.world.grip? q :=
    hm.others (h.ne_leader hk) (.inl (Int.ne_of_lt (h.given q (mem_of_started hk))))
  have hex : q ∈ (j.moved j.leader w' m' ex).executed ↔ q ∈ j.executed :=
    mem_moved_of_ne (h.ne_leader hk)
  have hkept := hengaged.of_grip hgrip hex
  cases hm with
  | ends => exact ⟨hopens, hpipes, hlen, hkept⟩
  | goes => exact ⟨hopens, hpipes, hlen, hkept⟩
  | executes => exact ⟨hopens, hpipes, hlen, hkept⟩
  | opens _ hnone =>
    rw [hnone] at hpipes
    cases hpipes
  | pipes =>
    refine ⟨hopens, ?_, hlen, ?_⟩
    · rw [List.length_append]
      exact Nat.lt_add_right _ hpipes
    · rw [Plumbing.goal_new hpipes]
      exact hkept.follow _
  | forks => exact ⟨hopens, hpipes, hlen, hkept.follow _⟩

/-- The numbers of the members when one more stage has been started. -/
theorem members_started (h : j.Tied w₀ t₀ pl) (hnext : w'.nextPid = j.world.nextPid + 1) :
    (j.members ++ [j.world.nextPid]).Nodup ∧
      ∀ q ∈ j.members ++ [j.world.nextPid], q < w'.nextPid := by
  constructor
  · refine List.nodup_append.2 ⟨h.nodup, List.nodup_singleton _, fun q hq q' hq' heq => ?_⟩
    rw [List.mem_singleton] at hq'
    exact Int.ne_of_lt (h.given q hq) (heq.trans hq')
  · intro q hq
    rcases List.mem_append.1 hq with hq | hq
    · rw [hnext]
      exact Int.lt_trans (h.given q hq) (Int.lt_succ _)
    · rw [List.mem_singleton] at hq
      rw [hq, hnext]
      exact Int.lt_succ _

/-- A stage, one that has been started before or the one that the leader starts now. -/
theorem stage_started (h : j.Tied w₀ t₀ pl)
    (hmade : m' = { j.made with started := j.made.started ++ [j.world.nextPid] })
    (hm : j.world.Moves (.lead t₀ pl) j.leader t j.made w' m' false) {a : Act}
    (hchild : (Duty.lead t₀ pl).child a t j.made)
    (hgrip : w'.grip? j.world.nextPid =
      some { pid := j.world.nextPid, program := some a, bindings := t }) {k : Nat} {q : Pid}
    (hk : m'.started[k]? = some q) :
    m'.Opens pl.redirect ∧ k < m'.pipes.length ∧ k + 1 < pl.stages.length ∧
    w'.Engaged (.follow (m'.goal t₀ pl k)) q m' (q ∈ (j.moved j.leader w' m' false).executed) := by
  rw [hmade, List.getElem?_append] at hk
  split at hk
  · exact h.stage_moved hm hk
  · subst hmade
    obtain ⟨hopens, hpipes, hlen, hmeets⟩ := hchild
    obtain ⟨hzero, rfl⟩ : k - j.made.started.length = 0 ∧ j.world.nextPid = q := by
      simpa [List.getElem?_singleton] using hk
    obtain rfl : k = j.made.started.length := by omega
    refine ⟨hopens, Nat.lt_of_lt_of_eq (Nat.lt_succ_self _) hpipes.symm, hlen,
      ⟨fun _ => .inr ⟨t, a, hgrip, hmeets.follow _⟩, fun he => ?_⟩⟩
    -- who has executed a program had a number before
    exact absurd (h.given _ (h.recorded _ he)) (Int.lt_irrefl _)

/-- A call of the leader. -/
theorem move_leader (h : j.Tied w₀ t₀ pl) (hex : j.leader ∉ j.executed)
    (ht : t.Below j.world.nextFile)
    (hm : j.world.Moves (.lead t₀ pl) j.leader t j.made w' m' ex) :
    (j.moved j.leader w' m' ex).Tied w₀ t₀ pl := by
  have hsound := hm.sound h.sound (h.given _ List.mem_cons_self) ht
  have hlaid := h.laid.move h.sound hm
  have hengaged : w'.Engaged (.lead t₀ pl) j.leader m'
      (j.leader ∈ (j.moved j.leader w' m' ex).executed) :=
    .of_moves hm (mem_moved_self hex)
  rcases hm.started_cases (h.given _ List.mem_cons_self) with
    hstarted | ⟨hmade, hnext, rfl, a, hchild, hgrip⟩
  · have hsub : ∀ q ∈ j.made.started, q ∈ m'.started := fun q hq => hstarted ▸ hq
    have hmembers : (j.moved j.leader w' m' ex).members = j.members :=
      congrArg (j.leader :: ·) hstarted
    exact {
      sound := hsound
      laid := hlaid
      nodup := hmembers ▸ h.nodup
      given := fun q hq => Int.lt_of_lt_of_le (h.given q (hmembers ▸ hq)) hm.nextPid_le
      recorded := h.recorded_moved List.mem_cons_self hsub
      outsiders := h.outsiders_moved hsub hm
      leader := hengaged
      stages := fun k q hk => h.stage_moved hm (by rw [← hstarted]; exact hk) }
  · have hstarted : m'.started = j.made.started ++ [j.world.nextPid] := by rw [hmade]
    have hsub : ∀ q ∈ j.made.started, q ∈ m'.started := fun q hq =>
      hstarted ▸ List.mem_append_left _ hq
    have hmembers : (j.moved j.leader w' m' false).members = j.members ++ [j.world.nextPid] :=
      congrArg (j.leader :: ·) hstarted
    obtain ⟨hnodup, hgiven⟩ := h.members_started hnext
    exact {
      sound := hsound
      laid := hlaid
      nodup := hmembers ▸ hnodup
      given := fun q hq => hgiven q (hmembers ▸ hq)
      recorded := h.recorded_moved List.mem_cons_self hsub
      outsiders := h.outsiders_moved hsub hm
      leader := hengaged
      stages := fun k q hk => h.stage_started hmade hm hchild hgrip hk }

/-- A process of the job that has not executed a program has a duty, and its calls keep the job tied
as long as it meets it. -/
theorem duty (h : j.Tied w₀ t₀ pl) (hpid : pid ∈ j.members) (hex : pid ∉ j.executed) :
    ∃ d, (j.world.grip? pid = none ∨ ∃ t, j.world.Goes d pid t j.made) ∧
      ∀ t w' m' ex, t.Below j.world.nextFile → j.world.Moves d pid t j.made w' m' ex →
        (j.moved pid w' m' ex).Tied w₀ t₀ pl := by
  rcases List.mem_cons.1 hpid with rfl | hstarted
  · exact ⟨_, h.leader.going hex, fun t w' m' ex ht hm => h.move_leader hex ht hm⟩
  · obtain ⟨k, hk⟩ := List.getElem?_of_mem hstarted
    obtain ⟨-, -, -, hengaged⟩ := h.stages k pid hk
    exact ⟨_, hengaged.going hex, fun t w' m' ex ht hm => h.move_stage hk hex ht hm⟩

/-- The signals that wait for a process of the job. -/
theorem signals (h : j.Tied w₀ t₀ pl) (hpid : pid ∈ j.members) (hex : pid ∉ j.executed) (n : Nat) :
    Tied { j with world := j.world.takeSignals n pid } w₀ t₀ pl := by
  obtain ⟨d, hgoing, hmove⟩ := h.duty hpid hex
  have hspares := World.spares_takeSignals h.sound.keyed n pid
  rcases hspares.self, hgoing with ⟨hself | hself, hnone | ⟨t, a, hgrip, ha⟩⟩
  · exact hmove (fun _ => none) _ _ false (fun fd b hb => by cases hb)
      (.ends hspares.keeps (hself.trans hnone))
  · have hbelow := h.sound.held pid _ hgrip
    exact hmove t _ _ false hbelow (.goes hspares.keeps hbelow ⟨a, hself.trans hgrip, ha⟩)
  · exact hmove (fun _ => none) _ _ false (fun fd b hb => by cases hb) (.ends hspares.keeps hself)
  · exact hmove (fun _ => none) _ _ false (fun fd b hb => by cases hb) (.ends hspares.keeps hself)

theorem step (h : j.Tied w₀ t₀ pl) (hpid : pid ∈ j.members) (hex : pid ∉ j.executed) :
    (j.step pid).Tied w₀ t₀ pl := by
  have h' := h.signals hpid hex World.signalCount
  unfold Wiring.step
  dsimp only
  cases hp : (j.world.takeSignals World.signalCount pid).process? pid with
  | none => exact h'
  | some p =>
    dsimp only
    split
    · exact h'
    · obtain ⟨d, hgoing, hmove⟩ := h'.duty hpid hex
      obtain rfl : p.pid = pid := h'.sound.keyed.pid_eq hp
      have hgrip := World.grip?_of_process? hp
      rcases hgoing with hnone | ⟨t, a, hg, ha⟩
      · rw [hgrip] at hnone
        cases hnone
      · rw [hgrip] at hg
        obtain ⟨hprogram, rfl, -⟩ : p.program = some a ∧ p.bindings = t ∧ p.tidy = true := by
          simpa [Process.grip] using hg
        exact hmove _ _ _ _ (World.below_bindings h'.sound hp)
          (World.moves_advance h'.sound hp hprogram ha)

theorem turn (h : j.Tied w₀ t₀ pl) (pid : Pid) : (j.turn pid).Tied w₀ t₀ pl := by
  unfold Wiring.turn
  split
  · rename_i hpid
    exact h.step hpid.1 hpid.2
  · exact h

theorem run (h : j.Tied w₀ t₀ pl) (schedule : List Pid) : (j.run schedule).Tied w₀ t₀ pl :=
  run_induction (P := fun j => j.Tied w₀ t₀ pl) (fun _ pid h => turn h pid) h schedule

/-- The leader of a job has just been forked. -/
theorem start {p : Process} {env : List Bytes} (hs : w₀.Sound) (hp : w₀.process? p.pid = some p)
    (hprogram : p.program = some (Launch.leader env pl).run) (h0 : (p.bindings 0).isSome)
    (h1 : (p.bindings 1).isSome) : (Wiring.start w₀ p.pid).Tied w₀ p.bindings pl where
  sound := hs
  laid := .start hs
  nodup := List.nodup_singleton _
  given pid hpid := by
    obtain rfl := List.mem_singleton.1 hpid
    exact hs.pids _ _ (World.grip?_of_process? hp)
  recorded pid hpid := by cases hpid
  outsiders pid g _ hg := hs.held pid g hg
  leader := ⟨fun _ => .inr ⟨p.bindings, _, hs.grip? hp hprogram,
    Launch.meets_leader h0 h1⟩, fun h => by cases h⟩
  stages k pid hk := by cases hk

end Tied

end Wiring

end JobShell
