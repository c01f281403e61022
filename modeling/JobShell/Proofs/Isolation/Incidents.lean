import Mathlib.Data.List.Induction
import JobShell.Proofs.Isolation.Sight
import JobShell.Proofs.Isolation.Trace

/-!
# Happenings and refusals

A file that may not be opened, a table of descriptors that is full, a process too many: the system
may refuse any other process what it asks for next, at any point of a course.

* `Incident`: a happening or such a refusal. `Machine.meets?`: what comes of a list of them;
  `Machine.ComesTo`: what one of them, again and again, comes to.
* `Machine.doings`: what a process does in their course, up to the last thing it does with its
  program.
* `World.Travels`: this is a path of its program, and it has still to do what is left of it;
  `Machine.Meets.travels` says that every incident keeps it so.
* `Machine.Meets.kindred`, `Machine.Meets.undisturbed`: what happenings keep, refusals keep too.
-/

namespace JobShell

/-- What happens next, refusals included. -/
inductive Incident where
  | happens (h : Happening)
  /-- The system refuses another process the file, the pipe or the process it asks for. -/
  | denied (pid : Pid) (e : Errno)
  deriving DecidableEq, Repr

/-- The interpreter is given a line. -/
def Incident.isLine : Incident → Bool
  | happens h => h.isLine
  | denied .. => false

/-- Another thing is done, unless the process has done its last. -/
def Doings.then (ds : Doings) (d? : Option Doing) : Doings :=
  if ds.any Doing.isLast then ds else ds ++ d?.toList

/-! ## Refusals -/

namespace World

variable {w w' : World} {pid r : Pid} {a : Act} {d : Doing} {ds : Doings} {e : Errno}

theorem leaves_denied (hk : w.Keyed) (h : w.denied? pid e = some (d, w')) :
    w.Leaves w' (· ≠ pid) := by
  obtain ⟨p, a, b, hp, -, -, rfl⟩ := denied?_eq_some h
  have hpid : p.pid = pid := hk.pid_eq hp
  exact leaves_setProcess w hpid

theorem process?_denied (hk : w.Keyed) (h : w.denied? pid e = some (d, w')) (hr : r ≠ pid) :
    w'.process? r = w.process? r := by
  obtain ⟨p, a, b, hp, -, -, rfl⟩ := denied?_eq_some h
  rw [process?_setProcess, if_neg]
  show p.pid ≠ r
  rw [hk.pid_eq hp]
  exact Ne.symm hr

theorem takes_denied (hk : w.Keyed) (h : w.denied? pid e = some (d, w'))
    (ha : w.program? pid = some a) : w'.Takes pid a (some d) := by
  obtain ⟨p, a', b, hp, hprogram, hdenied, rfl⟩ := denied?_eq_some h
  obtain rfl := Option.some.inj (ha.symm.trans ((program?_eq_some hp).trans hprogram))
  have hpid : p.pid = pid := hk.pid_eq hp
  refine .goes (Act.does_of_denied? hdenied) ?_
  rw [program?, process?_setProcess, if_pos hpid]
  rfl

theorem akin_denied (hk : w.Keyed) (h : w.denied? pid e = some (d, w')) (r : Pid) :
    w.Akin w' r := by
  obtain ⟨p, a, b, hp, -, -, rfl⟩ := denied?_eq_some h
  refine Akin.of_kin? (fun r => ?_) r
  rw [kin?_setProcess]
  split
  · rename_i hr
    have hr : p.pid = r := hr
    rw [← hr, hk.pid_eq hp, kin?_eq_some hp]
    rfl
  · rfl

theorem tree_denied (h : w.denied? pid e = some (d, w')) : w'.tree = w.tree := by
  obtain ⟨p, a, b, -, -, -, rfl⟩ := denied?_eq_some h
  rfl

/-! ## Paths -/

/-- Process `pid`, which was to carry out program `a`, has done this, and has still to do what is
left. -/
inductive Travels (w : World) (pid : Pid) (a : Act) (ds : Doings) : Prop where
  | going {b : Act} (hpath : a.Path ds (some b)) (h : w.program? pid = some b) :
      Travels w pid a ds
  | finished {d : Doing} (hpath : a.Path ds none) (hd : ds.getLast? = some d)
      (h : d.executes = false → w.process? pid = none) : Travels w pid a ds
  /-- It has taken its leave. -/
  | left {b : Act} {front : Doings} {text : Bytes} {reply : Except Errno Nat}
      (hpath : a.Path front (some b)) (hds : ds = front ++ [.interrupted text reply])
      (h : w.process? pid = none) : Travels w pid a ds

/-- What a process has done that has not taken its leave is a path of its program. -/
theorem Travels.path_or (h : w.Travels pid a ds) : (∃ o, a.Path ds o) ∨
    ∃ b front text reply, a.Path front (some b) ∧ ds = front ++ [.interrupted text reply] := by
  cases h with
  | going hpath | finished hpath => exact .inl ⟨_, hpath⟩
  | left hpath hds => exact .inr ⟨_, _, _, _, hpath, hds⟩

/-- Nothing that a process has done that goes on with its program is its last. -/
theorem any_isLast_of_path {b : Act} (hpath : a.Path ds (some b)) : ds.any Doing.isLast = false := by
  rw [List.any_eq_false]
  intro d hmem hl
  cases (hpath.of_isLast hmem hl).2

theorem Travels.takes {d? : Option Doing} (h : w.Travels pid a ds)
    (ht : ∀ b, w.program? pid = some b → w'.Takes pid b d?)
    (hgone : w.process? pid = none → w'.process? pid = none) :
    w'.Travels pid a (ds.then d?) := by
  -- nothing is done after the last thing
  have hthen {d : Doing} (hmem : d ∈ ds) (hl : d.isLast) : ds.then d? = ds :=
    if_pos (List.any_eq_true.2 ⟨d, hmem, hl⟩)
  cases h with
  | going hpath hb =>
    unfold Doings.then
    rw [any_isLast_of_path hpath, if_neg Bool.false_ne_true]
    cases ht _ hb with
    | waits h =>
      rw [Option.toList_none, List.append_nil]
      exact .going hpath h
    | goes hd h => exact .going (hpath.snoc hd) h
    | ends hd h => exact .finished (hpath.snoc hd) List.getLast?_concat h
    | quits h => exact .left hpath rfl h
  | finished hpath hd h =>
    obtain ⟨d', hlast, hl⟩ := hpath.exists_last
    rw [hthen (List.mem_of_getLast? hlast) hl]
    exact .finished hpath hd fun hexecutes => hgone (h hexecutes)
  | left hpath hds h =>
    rw [hthen (d := .interrupted _ _) (by rw [hds]; exact List.mem_concat_self) rfl]
    exact .left hpath hds (hgone h)

theorem program?_of_own? (h : w'.own? pid = w.own? pid) : w'.program? pid = w.program? pid := by
  have hprogram (w : World) : w.program? pid = (w.own? pid).bind Process.program := by
    unfold program? own?
    cases w.process? pid <;> rfl
  rw [hprogram, hprogram, h]

theorem isSome_of_own? (h : w'.own? pid = w.own? pid) :
    (w'.process? pid).isSome = (w.process? pid).isSome := by
  have hsome (w : World) : (w.process? pid).isSome = (w.own? pid).isSome := by
    unfold own?
    rw [Option.isSome_map]
  rw [hsome, hsome, h]

/-- A process that has ended takes no step. -/
theorem step_of_none (h : w.process? pid = none) : w.step pid = (w, true) := by
  unfold step
  rw [takeSignals_of_none h]
  dsimp only
  rw [h]

/-- A process that has ended with a code is gone. -/
theorem Travels.gone {d : Doing} {code : UInt8} (h : w.Travels pid a ds) (hmem : d ∈ ds)
    (hcode : d.code? = some code) : w.process? pid = none := by
  have hl : d.isLast := by cases d <;> first | rfl | cases hcode
  cases h with
  | going hpath h => cases (hpath.of_isLast hmem hl).2
  | finished hpath hlast h =>
    obtain ⟨hd, -⟩ := hpath.of_isLast hmem hl
    obtain rfl := Option.some.inj (hd.symm.trans hlast)
    exact h (by cases d <;> first | rfl | cases hcode)
  | left _ _ h => exact h

end World

/-! ## Courses with refusals -/

namespace Machine

/-- What comes of an incident, if it can happen. -/
def meet? (m : Machine) : Incident → Option Machine
  | .happens h => m.happen? h
  | .denied pid e =>
    if pid = m.pid then none else (m.world.denied? pid e).map fun (_, world) => { m with world }

/-- What comes of some incidents, one after another. -/
def meets? (m : Machine) : List Incident → Option Machine
  | [] => some m
  | i :: rest => (m.meet? i).bind (meets? · rest)

/-- What a process does at an incident. -/
def doing? (m : Machine) (pid : Pid) : Incident → Option Doing
  | .happens (.turn q) => if q = pid then m.world.doing? pid else none
  | .denied q e => if q = pid then (m.world.denied? pid e).map Prod.fst else none
  | _ => none

/-- What a process does in the course of some incidents, up to the last thing that it does with its
program. -/
def doings (m : Machine) (pid : Pid) : List Incident → Doings
  | [] => []
  | i :: rest =>
    let later := (m.meet? i).elim [] (doings · pid rest)
    match m.doing? pid i with
    | none => later
    | some d => if d.isLast then [d] else d :: later

/-- What an incident comes to. -/
inductive Meets (m : Machine) : Incident → Machine → Prop where
  | happens {h : Happening} {m' : Machine} (hm : m.Happens h m') : Meets m (.happens h) m'
  | denied {pid : Pid} {e : Errno} {d : Doing} {world : World} (hpid : m.pid ≠ pid)
      (hd : m.world.denied? pid e = some (d, world)) : Meets m (.denied pid e) { m with world }

variable {m m₁ m₂ m' m₀ : Machine} {p p' p₀ : Process} {i : Incident} {is : List Incident}
  {pid : Pid} {a : Act} {ds : Doings} {job : Job}

theorem meets_of_meet? (hk : m.world.Keyed) (hm : m.meet? i = some m') : m.Meets i m' := by
  cases i with
  | happens h => exact .happens (happens_of_happen? hk hm)
  | denied pid e =>
    unfold meet? at hm
    dsimp only at hm
    split at hm
    · cases hm
    · rename_i hpid
      obtain ⟨⟨d, world⟩, hd, rfl⟩ := Option.map_eq_some_iff.1 hm
      exact .denied (Ne.symm hpid) hd

theorem of_doing? {d : Doing} (hd : m.doing? pid i = some d) :
    i = .happens (.turn pid) ∧ m.world.doing? pid = some d ∨
      ∃ e, i = .denied pid e ∧ d.IsDenied e := by
  unfold doing? at hd
  split at hd
  · split at hd
    · rename_i heq
      exact .inl ⟨by rw [heq], hd⟩
    · cases hd
  · split at hd
    · rename_i e heq
      obtain ⟨⟨d', world⟩, hdenied, rfl⟩ := Option.map_eq_some_iff.1 hd
      obtain ⟨p, a, b, -, -, hact, -⟩ := World.denied?_eq_some hdenied
      exact .inr ⟨e, by rw [heq], Act.isDenied_of_denied? hact⟩
    · cases hd
  · cases hd

theorem meets?_concat (m : Machine) (is : List Incident) (i : Incident) :
    m.meets? (is ++ [i]) = (m.meets? is).bind (·.meet? i) := by
  induction is generalizing m with
  | nil => simp [meets?]
  | cons j rest ih =>
    show (m.meet? j).bind (meets? · (rest ++ [i])) = ((m.meet? j).bind (meets? · rest)).bind _
    rw [Option.bind_assoc]
    exact congrArg (m.meet? j).bind (funext fun m' => ih m')

/-- What holds at the start and is kept by every incident holds after all of them. -/
theorem meets?_induction {P : List Incident → Machine → Prop} (hm : P [] m)
    (hstep : ∀ is i m₁ m₂, m.meets? is = some m₁ → P is m₁ → m₁.meet? i = some m₂ →
      P (is ++ [i]) m₂) (h : m.meets? is = some m') : P is m' := by
  induction is using List.reverseRecOn generalizing m' with
  | nil =>
    obtain rfl := Option.some.inj h
    exact hm
  | append_singleton is i ih =>
    rw [meets?_concat] at h
    obtain ⟨m₁, hpre, hlast⟩ := Option.bind_eq_some_iff.1 h
    exact hstep is i m₁ m' hpre (ih hpre) hlast

theorem doings_concat (pid : Pid) (i : Incident) (h : m.meets? is = some m₁) :
    m.doings pid (is ++ [i]) = (m.doings pid is).then (m₁.doing? pid i) := by
  induction is generalizing m with
  | nil =>
    obtain rfl := Option.some.inj h
    have hlater : (m.meet? i).elim [] (doings · pid []) = [] := by
      cases m.meet? i <;> rfl
    show doings m pid [i] = Doings.then [] _
    unfold doings Doings.then
    rw [hlater]
    cases m.doing? pid i with
    | none => rfl
    | some d => cases hd : d.isLast <;> simp [hd]
  | cons j rest ih =>
    obtain ⟨m₂, hfirst, hrest⟩ := Option.bind_eq_some_iff.1 h
    rw [List.cons_append, doings, doings, hfirst]
    dsimp only [Option.elim]
    rw [ih hrest]
    cases m.doing? pid j with
    | none => rfl
    | some d =>
      dsimp only
      cases hd : d.isLast with
      | true => simp [Doings.then, hd]
      | false =>
        unfold Doings.then
        rw [if_neg Bool.false_ne_true, if_neg Bool.false_ne_true, List.any_cons, hd, Bool.false_or]
        split <;> rfl

/-- With this incident, again and again, and nothing else, this holds at last. -/
def ComesTo (m : Machine) (i : Incident) (P : Machine → Prop) : Prop :=
  ∃ n m', m.meets? (List.replicate n i) = some m' ∧ P m'

theorem ComesTo.now {P : Machine → Prop} (h : P m) : m.ComesTo i P := ⟨0, m, rfl, h⟩

theorem ComesTo.after {P : Machine → Prop} (hm : m.meet? i = some m') (h : m'.ComesTo i P) :
    m.ComesTo i P := by
  obtain ⟨n, m₁, hmeets, hend⟩ := h
  refine ⟨n + 1, m₁, ?_, hend⟩
  rw [List.replicate_succ, meets?, hm]
  exact hmeets

/-! ## What incidents keep -/

theorem Meets.pid_eq (hm : m.Meets i m') : m'.pid = m.pid := by
  cases hm with
  | happens hm => exact hm.pid_eq
  | denied => rfl

theorem Meets.grows (hm : m.Meets i m') (hn : m.Numbered) : m.world.Grows m'.world := by
  cases hm with
  | happens hm => exact hm.grows hn.keyed hn.known
  | denied hpid hd => exact (World.leaves_denied hn.keyed hd).toGrows

/-- Where a process does nothing, it is left as it is. -/
theorem Meets.own (hm : m.Meets i m') (hn : m.Numbered) (hpid : pid ≠ m.pid)
    (hknown : pid < m.world.nextPid) (hturn : i ≠ .happens (.turn pid))
    (hdenied : ∀ e, i ≠ .denied pid e) : m'.world.own? pid = m.world.own? pid := by
  cases hm with
  | @happens h m' hm => exact (hm.untouched hn.keyed hpid hknown fun h => hturn (h ▸ rfl)).own
  | @denied q e d world hq hd =>
    exact (World.leaves_denied hn.keyed hd).own pid fun heq => hdenied e (heq ▸ rfl)

theorem Meets.gone (hm : m.Meets i m') (hn : m.Numbered) (hpid : pid ≠ m.pid)
    (hknown : pid < m.world.nextPid) (h : m.world.process? pid = none) :
    m'.world.process? pid = none := by
  by_cases hturn : i = .happens (.turn pid)
  · subst hturn
    cases hm with
    | happens hm =>
      cases hm with
      | turn =>
        rw [World.step_of_none h]
        exact h
  · have hdenied (e : Errno) : i ≠ .denied pid e := by
      rintro rfl
      cases hm with
      | denied hq hd =>
        obtain ⟨p, -, -, hp, -⟩ := World.denied?_eq_some hd
        cases hp.symm.trans h
    have hsame := World.isSome_of_own? (hm.own hn hpid hknown hturn hdenied)
    rw [h] at hsame
    exact Option.not_isSome_iff_eq_none.1 (by rw [hsame]; exact Bool.false_ne_true)

/-- A process does nothing at an incident that is neither its turn nor a refusal. -/
theorem doing?_eq_none (hturn : i ≠ .happens (.turn pid)) (hdenied : ∀ e, i ≠ .denied pid e) :
    m.doing? pid i = none := by
  unfold doing?
  split
  · exact if_neg fun heq => hturn (by rw [heq])
  · exact if_neg fun heq => hdenied _ (by rw [heq])
  · rfl

theorem Meets.takes {b : Act} (hm : m.Meets i m') (hn : m.Numbered) (hpid : pid ≠ m.pid)
    (hknown : pid < m.world.nextPid) (hb : m.world.program? pid = some b) :
    m'.world.Takes pid b (m.doing? pid i) := by
  by_cases hturn : i = .happens (.turn pid)
  · subst hturn
    cases hm with
    | happens hm =>
      cases hm with
      | turn =>
        have h := World.takes_step hn.keyed hknown hb
        unfold doing?
        dsimp only
        rwa [if_pos rfl]
  by_cases hdenied : ∃ e, i = .denied pid e
  · obtain ⟨e, rfl⟩ := hdenied
    cases hm with
    | denied hq hd =>
      have h := World.takes_denied hn.keyed hd hb
      unfold doing?
      dsimp only
      rwa [if_pos rfl, hd]
  have hdenied (e : Errno) (heq : i = .denied pid e) : False := hdenied ⟨e, heq⟩
  rw [doing?_eq_none hturn hdenied]
  refine .waits ?_
  rw [World.program?_of_own? (hm.own hn hpid hknown hturn hdenied), hb]

/-- What a process has done stays a path of its program. -/
theorem Meets.travels (hm : m.Meets i m') (hn : m.Numbered) (hpid : pid ≠ m.pid)
    (hknown : pid < m.world.nextPid) (h : m.world.Travels pid a ds) :
    m'.world.Travels pid a (ds.then (m.doing? pid i)) :=
  h.takes (fun _ hb => hm.takes hn hpid hknown hb) (hm.gone hn hpid hknown)

theorem Meets.breeds (hm : m.Meets i m') (hn : m.Kindred) :
    ∃ pid d, m.world.Breeds pid d m'.world := by
  cases hm with
  | happens hm => exact hm.breeds hn
  | denied hpid hd => exact ⟨m.pid, none, .keeps (World.akin_denied hn.keyed hd m.pid)⟩

theorem Meets.numbered (hm : m.Meets i m') (hn : m.Numbered) : m'.Numbered := by
  have hgrows := hm.grows hn
  refine ⟨hgrows.keyed hn.keyed, ?_⟩
  rw [hm.pid_eq]
  exact Int.lt_of_lt_of_le hn.known hgrows.nextPid

theorem Meets.kindred (hm : m.Meets i m') (hn : m.Kindred) : m'.Kindred := by
  obtain ⟨pid, d, hb⟩ := hm.breeds hn
  have hgrows := hm.grows hn.toNumbered
  exact hn.of_breeds (hm.numbered hn.toNumbered) hm.pid_eq hgrows.nextPid hb

theorem process?_denied {q : Pid} {e : Errno} {d : Doing} {world : World} (hk : m.world.Keyed)
    (hq : m.pid ≠ q) (hd : m.world.denied? q e = some (d, world)) :
    { m with world }.process? = m.process? :=
  World.process?_denied hk hd hq

theorem Meets.undisturbed (hm : m.Meets i m') (hu : m₀.Undisturbed p₀ job m)
    (hline : i.isLine = false) : m₀.Undisturbed p₀ job m' := by
  have hg := hu.governed
  cases hm with
  | happens hm => exact hu.happens hm hline
  | @denied q e d world hq hd =>
    have hsame := process?_denied hg.keyed hq hd
    have hgrows := (World.leaves_denied hg.keyed hd).toGrows
    refine ⟨hu.pid, ⟨Meets.numbered (.denied hq hd) hg.toNumbered, fun p hp => ?_⟩, hu.serves,
      hu.grows.trans hgrows, fun p hp => ?_⟩
    · exact hg.guards p (by rw [← hsame]; exact hp)
    · exact hu.own p (by rw [← hsame]; exact hp)

end Machine

end JobShell
