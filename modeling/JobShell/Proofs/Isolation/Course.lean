import JobShell.Proofs.Isolation.Calls
import JobShell.Interp.Machine

/-!
# The interpreter and what happens around it

* `Happening`: what happens next to an interpreter among other processes. `Machine.course?` is what
  a list of happenings comes to, so each list is one interleaving.
* `Machine.Acts`: what the interpreter does when no signal comes first, with one constructor for each
  kind; `Machine.acts` says that the list is complete.
* `Machine.Works`: what one step of the interpreter comes to, with one constructor for each kind;
  `Machine.works_step` says that the list is complete.
* `Machine.Works.untouched`: the interpreter leaves the others what is their own.
* `Machine.Happens`: the same list for happenings. `Machine.course?_induction`: invariants of them
  hold after every course.
-/

namespace JobShell

/-- What happens next. -/
inductive Happening where
  /-- The interpreter, which rests, is given a line. -/
  | line (text : Bytes)
  /-- It takes a step. -/
  | works
  /-- The system refuses it a guard or a fork. -/
  | refused (e : Errno)
  /-- Another process takes a step. -/
  | turn (pid : Pid)
  /-- A process is sent a signal from outside. -/
  | sent (pid : Pid) (n : Nat)
  /-- The clock is set. -/
  | passes (clock : Nat)
  deriving DecidableEq, Repr

/-- The interpreter is given a line. -/
def Happening.isLine : Happening → Bool
  | line _ => true
  | _ => false

/-- The states that may follow when others are asked to act, but all keep what is their own. -/
def Need.Acts : Need → Shell → Prop
  | .group _ next, t => t = next
  | .write _ next, t => ∃ r, t = next r
  | .send _ _ next, t => t = next
  | _, _ => False

namespace Machine

/-- The interpreter has no line to carry out. -/
def isResting (m : Machine) : Bool :=
  match m.process? with
  | none => false
  | some p => match (m.current p).need with
    | .rest _ => true
    | _ => false

/-- What comes of something that happens, if it can happen. -/
def happen? (m : Machine) : Happening → Option Machine
  | .line text => if m.isResting then some (m.begin text) else none
  | .works => some m.step.1
  | .refused e => m.process?.bind fun p => ((m.current p).refused? e).map m.keep
  | .turn pid => if pid = m.pid then none else some { m with world := (m.world.step pid).1 }
  | .sent pid n => some { m with world := m.world.raise pid n }
  | .passes clock => some { m with world := { m.world with clock } }

/-- What comes of some happenings, one after another. -/
def course? (m : Machine) : List Happening → Option Machine
  | [] => some m
  | h :: rest => (m.happen? h).bind (course? · rest)

/-- What the interpreter does when no signal comes first, and what becomes of the machine. -/
inductive Acts (m : Machine) (p : Process) : Machine → Prop where
  | moves {s : Shell} (hneed : (m.current p).need = .step s) : m.Acts p (m.keep s)
  | forks {pipeline : Pipeline} {next : Pid → Shell}
      (hneed : (m.current p).need = .fork pipeline next) :
    m.Acts p { m.after (m.world.fork p (Launch.leader m.env pipeline).run).2 (next m.world.nextPid)
      with leader := some m.world.nextPid }
  | groups {pid : Pid} {s : Shell} (hneed : (m.current p).need = .group pid s) :
    m.Acts p (m.after (m.world.setGroup p pid pid).1 s)
  | sends {pid : Pid} {n : Nat} {s : Shell} (hneed : (m.current p).need = .send pid n s) :
    m.Acts p (m.after (m.world.kill p pid n).1 s)
  | writes {text : Bytes} {next : Except Errno Unit → Shell} {world : World}
      {r : Except Errno Nat} (hneed : (m.current p).need = .write text next)
      (h : m.world.write p 1 text = .done world r) :
    m.Acts p (m.after world (next (r.map fun _ => ())))
  | changes {path : Bytes} {next : Except Errno Unit → Shell} {world : World}
      {r : Except Errno Unit} (hneed : (m.current p).need = .changeDirectory path next)
      (heffect : m.world.Effect p (.chdir path) world) : m.Acts p (m.after world (next r))
  | leaves (hneed : (m.current p).need = .leave) :
    m.Acts p { m with world := m.world.finish m.pid (.exited 0) }
  | stands (hwhy : (m.current p).need = .blocked ∨ (∃ r, (m.current p).need = .rest r) ∨
      ∃ text next w, (m.current p).need = .write text next ∧ m.world.write p 1 text = .wait w) :
    m.Acts p m

theorem acts (m : Machine) (p : Process) : m.Acts p (m.act p).1 := by
  unfold act
  cases hneed : (m.current p).need with
  | step s => exact .moves hneed
  | fork pipeline next => exact .forks hneed
  | group pid s => exact .groups hneed
  | send pid n s => exact .sends hneed
  | write text next =>
    dsimp only
    rcases m.world.write_cases p 1 text with ⟨w', r, h⟩ | h
    · rw [h]
      exact .writes hneed h
    · rw [h]
      exact .stands (.inr (.inr ⟨text, next, _, hneed, h⟩))
  | changeDirectory path next =>
    dsimp only
    split
    · exact .changes hneed (.same _)
    · exact .changes hneed (World.effect_chdir path)
  | leave => exact .leaves hneed
  | blocked => exact .stands (.inl hneed)
  | rest r => exact .stands (.inr (.inl ⟨r, hneed⟩))

/-- What a step of the interpreter comes to. -/
inductive Works (m : Machine) : Machine → Prop where
  | stands : Works m m
  /-- It takes a signal that it handles. -/
  | takes {p : Process} {s : Shell} (hp : m.process? = some p)
      (hs : (m.current p).deliver? = some s) : Works m (m.keep s)
  /-- It takes a signal that it does not handle. -/
  | suffers {p : Process} {n : Nat} (hp : m.process? = some p)
      (hd : p.signals.disposition n ≠ .handled) :
      Works m { m with world := m.world.takeSignal p n }
  | moves {p : Process} {s : Shell} (hp : m.process? = some p)
      (hneed : (m.current p).need = .step s) : Works m (m.keep s)
  | forks {p : Process} {pipeline : Pipeline} {next : Pid → Shell} (hp : m.process? = some p)
      (hneed : (m.current p).need = .fork pipeline next) :
      Works m { m.after (m.world.fork p (Launch.leader m.env pipeline).run).2
        (next m.world.nextPid) with leader := some m.world.nextPid }
  | acts {p : Process} {s : Shell} {world : World} (hp : m.process? = some p)
      (ha : (m.current p).need.Acts s) (hw : m.world.LeavesAll world) : Works m (m.after world s)
  | changes {p : Process} {path : Bytes} {next : Except Errno Unit → Shell}
      {r : Except Errno Unit} {world : World} (hp : m.process? = some p)
      (hneed : (m.current p).need = .changeDirectory path next) (hw : m.world.Confined world p) :
      Works m (m.after world (next r))
  | ends : Works m { m with world := m.world.finish m.pid (.exited 0) }

variable {m m' : Machine} {p : Process} {h : Happening}

/-- A signal is taken by starting its handler, if it is handled. -/
theorem takeSignal?_cases (h : m.takeSignal? p = some m') :
    (∃ s, (m.current p).deliver? = some s ∧ m' = m.keep s) ∨
      ∃ n, p.signals.disposition n ≠ .handled ∧ m' = { m with world := m.world.takeSignal p n } := by
  unfold takeSignal? at h
  dsimp only at h
  split at h
  · rename_i s hs
    exact .inl ⟨s, hs, (Option.some.inj h).symm⟩
  · rename_i hs
    obtain ⟨n, hn, rfl⟩ := Option.map_eq_some_iff.1 h
    refine .inr ⟨n, fun hd => ?_, rfl⟩
    have hnext : (m.current p).signals.next? ((m.current p).handlers.map Handler.signal) = some n :=
      hn
    have hd : (m.current p).signals.disposition n = .handled := hd
    simp [Shell.deliver?, Shell.takes?, hnext, hd] at hs

theorem works_takeSignal? (hp : m.process? = some p) (h : m.takeSignal? p = some m') :
    m.Works m' := by
  rcases takeSignal?_cases h with ⟨s, hs, rfl⟩ | ⟨n, hd, rfl⟩
  · exact .takes hp hs
  · exact .suffers hp hd

theorem Acts.works (h : m.Acts p m') (hk : m.world.Keyed) (hp : m.process? = some p) :
    m.Works m' := by
  have hself : m.world.process? p.pid = some p := by rw [hk.pid_eq hp]; exact hp
  cases h with
  | moves hneed => exact .moves hp hneed
  | forks hneed => exact .forks hp hneed
  | groups hneed =>
    exact .acts hp (by rw [hneed]; rfl) ((World.effect_setGroup _ _).leavesAll hk rfl)
  | sends hneed => exact .acts hp (by rw [hneed]; rfl) ((World.effect_kill _ _).leavesAll hk rfl)
  | @writes text _ _ _ hneed h =>
    have heffect := World.effect_of_done (c := .write 1 text) h
    exact .acts hp (by rw [hneed]; exact ⟨_, rfl⟩) (heffect.leavesAll hk rfl)
  | changes hneed heffect => exact .changes hp hneed (heffect.confined hk hself rfl)
  | leaves => exact .ends
  | stands => exact .stands

theorem works_step (hk : m.world.Keyed) : m.Works m.step.1 := by
  unfold step
  split
  · exact .stands
  · rename_i p hp
    split
    · exact .stands
    · split
      · rename_i hsignal
        exact works_takeSignal? hp hsignal
      · exact (m.acts p).works hk hp

/-! ## What is left to the others -/

theorem leaves_keep (hk : m.world.Keyed) (s : Shell) :
    m.world.Leaves (m.keep s).world (· ≠ m.pid) :=
  World.leaves_modifyProcess hk m.pid fun _ => rfl

theorem Works.grows (h : m.Works m') (hk : m.world.Keyed) : m.world.Grows m'.world := by
  cases h with
  | stands => exact .refl m.world
  | takes hp hs => exact (leaves_keep hk _).toGrows
  | suffers hp hd => exact (World.leaves_takeSignal hk _ _).toGrows
  | moves hp hneed => exact (leaves_keep hk _).toGrows
  | forks hp hneed => exact World.grows_fork hk _ _
  | acts hp ha hw => exact hw.toGrows
  | changes hp hneed hw => exact hw.leaves.toGrows
  | ends => exact (World.leaves_finish hk _ _).toGrows

theorem Works.pid_eq (h : m.Works m') : m'.pid = m.pid := by
  cases h <;> rfl

/-- A step of the interpreter leaves the others what is their own. -/
theorem Works.untouched (h : m.Works m') (hk : m.world.Keyed) {r : Pid} (hr : r ≠ m.pid)
    (hnew : r ≠ m.world.nextPid) : m.world.Untouched m'.world r := by
  have hself {p : Process} (hp : m.process? = some p) : r ≠ p.pid := by rwa [hk.pid_eq hp]
  cases h with
  | stands => exact .refl m.world r
  | takes hp hs => exact (leaves_keep hk _).untouched hr
  | suffers hp hd => exact (World.leaves_takeSignal hk _ _).untouched (hself hp)
  | moves hp hneed => exact (leaves_keep hk _).untouched hr
  | forks hp hneed => exact World.untouched_fork hk _ _ hnew
  | acts hp ha hw => exact hw.untouched trivial
  | changes hp hneed hw => exact hw.leaves.untouched (hself hp)
  | ends => exact (World.leaves_finish hk _ _).untouched hr

/-- Only a fork makes a process. -/
theorem Works.forks_of_nextPid (h : m.Works m') (hk : m.world.Keyed)
    (hnew : m'.world.nextPid ≠ m.world.nextPid) :
    ∃ p pipeline next, m.process? = some p ∧ (m.current p).need = .fork pipeline next ∧
      m'.world = (m.world.fork p (Launch.leader m.env pipeline).run).2 := by
  cases h with
  | stands => exact absurd rfl hnew
  | takes hp hs => exact absurd (leaves_keep hk _).nextPid_eq hnew
  | suffers hp hd => exact absurd (World.leaves_takeSignal hk _ _).nextPid_eq hnew
  | moves hp hneed => exact absurd (leaves_keep hk _).nextPid_eq hnew
  | forks hp hneed => exact ⟨_, _, _, hp, hneed, rfl⟩
  | acts hp ha hw => exact absurd hw.nextPid_eq hnew
  | changes hp hneed hw => exact absurd hw.leaves.nextPid_eq hnew
  | ends => exact absurd (World.leaves_finish hk _ _).nextPid_eq hnew

/-! ## Happenings -/

/-- What a happening comes to. -/
inductive Happens (m : Machine) : Happening → Machine → Prop where
  | line (text : Bytes) (hrest : m.isResting) : Happens m (.line text) (m.begin text)
  | works (hw : m.Works m.step.1) : Happens m .works m.step.1
  | refused {e : Errno} {p : Process} {s : Shell} (hp : m.process? = some p)
      (hs : (m.current p).refused? e = some s) : Happens m (.refused e) (m.keep s)
  | turn {pid : Pid} (hpid : m.pid ≠ pid) :
      Happens m (.turn pid) { m with world := (m.world.step pid).1 }
  | sent (pid : Pid) (n : Nat) : Happens m (.sent pid n) { m with world := m.world.raise pid n }
  | passes (clock : Nat) : Happens m (.passes clock) { m with world := { m.world with clock } }

theorem happens_of_happen? (hk : m.world.Keyed) (hm : m.happen? h = some m') : m.Happens h m' := by
  unfold happen? at hm
  split at hm
  · split at hm
    · rename_i hrest
      obtain rfl := Option.some.inj hm
      exact .line _ hrest
    · cases hm
  · obtain rfl := Option.some.inj hm
    exact .works (works_step hk)
  · obtain ⟨p, hp, hkeep⟩ := Option.bind_eq_some_iff.1 hm
    obtain ⟨s, hs, rfl⟩ := Option.map_eq_some_iff.1 hkeep
    exact .refused hp hs
  · split at hm
    · cases hm
    · rename_i hpid
      obtain rfl := Option.some.inj hm
      exact .turn (Ne.symm hpid)
  · obtain rfl := Option.some.inj hm
    exact .sent _ _
  · obtain rfl := Option.some.inj hm
    exact .passes _

theorem Happens.pid_eq (hm : m.Happens h m') : m'.pid = m.pid := by
  cases hm with
  | works hw => exact hw.pid_eq
  | _ => rfl

theorem Happens.grows (hm : m.Happens h m') (hk : m.world.Keyed)
    (hknown : m.pid < m.world.nextPid) : m.world.Grows m'.world := by
  cases hm with
  | line text hrest => exact .refl m.world
  | works hw => exact hw.grows hk
  | refused hp hs => exact (leaves_keep hk _).toGrows
  | turn hpid => exact (World.untouched_step hk hpid hknown).toGrows
  | sent pid n => exact (World.leavesAll_raise hk pid n).toGrows
  | passes clock => exact (World.leavesAll_clock m.world clock).toGrows

/-- Processes go by their numbers, and the interpreter's is one that has been given. -/
structure Numbered (m : Machine) : Prop where
  keyed : m.world.Keyed
  known : m.pid < m.world.nextPid

theorem Numbered.happens (hn : m.Numbered) (hm : m.Happens h m') : m'.Numbered := by
  have hgrows := hm.grows hn.keyed hn.known
  refine ⟨hgrows.keyed hn.keyed, ?_⟩
  rw [hm.pid_eq]
  exact Int.lt_of_lt_of_le hn.known hgrows.nextPid

/-- Whatever happens leaves a process what is its own, but for its own turn. -/
theorem Happens.untouched (hm : m.Happens h m') (hk : m.world.Keyed) {r : Pid} (hr : r ≠ m.pid)
    (hnew : r < m.world.nextPid) (hturn : h ≠ .turn r) : m.world.Untouched m'.world r := by
  cases hm with
  | line text hrest => exact .refl m.world r
  | works hw => exact hw.untouched hk hr (Int.ne_of_lt hnew)
  | refused hp hs => exact (leaves_keep hk _).untouched hr
  | turn hpid => exact World.untouched_step hk (fun heq => hturn (by rw [heq])) hnew
  | sent pid n => exact (World.leavesAll_raise hk pid n).untouched trivial
  | passes clock => exact (World.leavesAll_clock m.world clock).untouched trivial

/-- What holds at the start and is kept by every happening holds after every course. -/
theorem course?_induction {P : Machine → Prop} {evs : List Happening}
    (hstep : ∀ m m' h, h ∈ evs → P m → m.happen? h = some m' → P m')
    (hm : P m) (h : m.course? evs = some m') : P m' := by
  induction evs generalizing m with
  | nil =>
    obtain rfl := Option.some.inj h
    exact hm
  | cons ev rest ih =>
    obtain ⟨m₁, hfirst, hrest⟩ := Option.bind_eq_some_iff.1 h
    have hm₁ := hstep m m₁ ev List.mem_cons_self hm hfirst
    exact ih (fun m m' h hmem => hstep m m' h (List.mem_cons_of_mem ev hmem)) hm₁ hrest

end Machine

end JobShell
