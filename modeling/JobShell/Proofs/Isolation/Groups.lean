import JobShell.Proofs.Isolation.Crew
import JobShell.Proofs.Isolation.Failure
import JobShell.Proofs.Isolation.Seats
import JobShell.Proofs.Wiring.Fates

/-!
# The group of a job

* `Machine.Reseats`: what an incident is to the seat of a process, the interpreter's own steps
  included; `Machine.Meets.reseats` says that the list is complete.
* `Machine.Launched.group_of_does`, `Machine.Attended.group_of_moved`: whichever side is first to move
  the leader, that is in a group of its own then.
* `Machine.Unmoved`: nobody else moves the processes of a job that have not executed their programs.
* `Machine.Grouped`: the processes that it forks are in its group; `Machine.Grouped.course` is the
  induction over the incidents.
-/

namespace JobShell.Machine

variable {m m' m₀ m₁ m₂ : Machine} {p p₀ q q' : Process} {i : Incident} {is : List Incident}
  {leader pid r : Pid} {job : Job} {ds : Doings}

/-- The process that another one than the interpreter moves, and the group that it is moved to. -/
def move? (m : Machine) : Incident → Option (Pid × Pid)
  | .happens (.turn pid) => (m.world.doing? pid).bind (Doing.move? pid)
  | _ => none

/-- What an incident is to the seat of a process, which is `q'` after it. -/
inductive Reseats (m : Machine) (i : Incident) (r : Pid) (q' : Process) : Prop where
  | keeps {q : Process} (hq : m.world.process? r = some q) (hseat : q'.seat = q.seat)
  /-- The interpreter moves a leader. -/
  | groups {q : Process} {job : Job} {pid : Pid} (hq : m.world.process? r = some q)
      (himage : q'.image = q.image) (hphase : m.shell.phase = .forked job pid)
      (hmoved : World.moved m.pid pid pid = (r, q'.group))
  | moves {q : Process} (hq : m.world.process? r = some q) (himage : q'.image = q.image)
      (hmove : m.move? i = some (r, q'.group))
  | becomes {q : Process} {path : Bytes} {args env : List Bytes} (hq : m.world.process? r = some q)
      (hgroup : q'.group = q.group) (hd : m.doing? r i = some (.executed path args env))
  | made {p : Process} {child : Act} {pid : Pid} (hp : m.world.process? pid = some p)
      (hseat : q'.seat = p.seat) (hr : r = m.world.nextPid)
      (hd : m.doing? pid i = some (.forked child (.ok r)))
  /-- The interpreter forks it. -/
  | launched {p : Process} (hp : m.process? = some p) (hseat : q'.seat = p.seat)
      (hr : r = m.world.nextPid) (hi : i = .happens .works)

/-! ## The interpreter -/

theorem steady_keep (hk : m.world.Keyed) (s : Shell) : m.world.Steady (m.keep s).world :=
  World.steady_modifyProcess hk m.pid (f := fun p =>
    { p with children := s.children, signals := s.signals }) (fun _ => rfl) fun _ => rfl

theorem Acts.reseats (h : m.Acts p m') (hk : m.world.Keyed) (hp : m.process? = some p)
    (hq' : m'.world.process? r = some q') : m.Reseats (.happens .works) r q' := by
  have hpid := hk.pid_eq hp
  have hself : m.world.process? p.pid = some p := by rw [hpid]; exact hp
  have hkeeps {w : World} (h : m.world.Steady w) (hq' : w.process? r = some q') :
      m.Reseats (.happens .works) r q' := by
    obtain ⟨q, hq, hseat⟩ := h r q' hq'
    exact .keeps hq hseat
  cases h with
  | @moves s => exact hkeeps (steady_keep hk s) hq'
  | forks =>
    cases World.reseats_fork hk hself hq' with
    | keeps hq hseat => exact .keeps hq hseat
    | moves hq himage hd hmove =>
      obtain rfl := Option.some.inj hd
      cases hmove
    | becomes hq hgroup hr hd => cases hd
    | made hp' hseat hr hd =>
      obtain rfl := Option.some.inj (hself.symm.trans hp')
      exact .launched hp hseat hr rfl
  | groups hneed =>
    obtain ⟨-, job, hphase, -⟩ := Shell.group_of_need hneed
    obtain ⟨q, hq, hseat | ⟨himage, -, hmoved⟩⟩ := World.of_setGroup hk hq'
    · exact .keeps hq hseat
    · rw [hpid] at hmoved
      exact .groups hq himage hphase hmoved
  | @sends pid n => exact hkeeps ((World.effect_kill pid n).steady hk hself rfl) hq'
  | @writes text _ _ _ _ h =>
    exact hkeeps ((World.effect_of_done (c := .write 1 text) h).steady hk hself rfl) hq'
  | changes _ heffect => exact hkeeps (heffect.steady hk hself rfl) hq'
  | leaves => exact hkeeps (World.steady_finish hk m.pid (.exited 0)) hq'
  | stands => exact .keeps hq' rfl

theorem reseats_works (hk : m.world.Keyed) (hq' : m.step.1.world.process? r = some q') :
    m.Reseats (.happens .works) r q' := by
  unfold step at hq'
  split at hq'
  · exact .keeps hq' rfl
  · rename_i p hp
    split at hq'
    · exact .keeps hq' rfl
    · split at hq'
      · rename_i hsignal
        rcases takeSignal?_cases hsignal with ⟨s, -, rfl⟩ | ⟨n, -, rfl⟩
        · obtain ⟨q, hq, hseat⟩ := steady_keep hk s r q' hq'
          exact .keeps hq hseat
        · obtain ⟨q, hq, hseat⟩ := World.steady_takeSignal hk hp n r q' hq'
          exact .keeps hq hseat
      · exact (m.acts p).reseats hk hp hq'

/-- What an incident is to the seat of a process. -/
theorem Meets.reseats (hm : m.Meets i m') (hk : m.world.Keyed)
    (hq' : m'.world.process? r = some q') : m.Reseats i r q' := by
  cases hm with
  | happens hm =>
    cases hm with
    | line | passes => exact .keeps hq' rfl
    | works => exact reseats_works hk hq'
    | @refused e p s hp hs =>
      obtain ⟨q, hq, hseat⟩ := steady_keep hk s r q' hq'
      exact .keeps hq hseat
    | @turn pid hpid =>
      cases World.reseats_step hk hq' with
      | keeps hq hseat => exact .keeps hq hseat
      | moves hq himage hd hmove =>
        refine .moves hq himage ?_
        show (m.world.doing? pid).bind (Doing.move? pid) = _
        rw [hd]
        exact hmove
      | becomes hq hgroup hr hd =>
        subst hr
        exact .becomes hq hgroup ((if_pos rfl).trans hd)
      | made hp hseat hr hd => exact .made hp hseat hr ((if_pos rfl).trans hd)
    | sent pid n =>
      obtain ⟨q, hq, hseat⟩ := World.steady_raise hk pid n r q' hq'
      exact .keeps hq hseat
  | @denied pid e d world hpid hd =>
    obtain ⟨p, a, b, hp, -, -, rfl⟩ := World.denied?_eq_some hd
    have hpid : p.pid = pid := hk.pid_eq hp
    have hsteady := World.steady_setProcess (q := { p with program := some b }) rfl hp hpid rfl
    obtain ⟨q, hq, hseat⟩ := hsteady r q' hq'
    exact .keeps hq hseat

end JobShell.Machine

namespace JobShell.Doings

variable {ds : Doings}

theorem any_of_then {f : Doing → Bool} {d? : Option Doing}
    (h : (ds.then d?).any f = false) : ds.any f = false := by
  unfold «then» at h
  split at h
  · exact h
  · rw [List.any_append, Bool.or_eq_false_iff] at h
    exact h.1

theorem then_eq_nil {d? : Option Doing} (h : ds.then d? = []) : ds = [] ∧ d? = none := by
  unfold «then» at h
  split at h
  · rename_i hany
    rw [h] at hany
    cases hany
  · obtain ⟨hnil, hd⟩ := List.append_eq_nil_iff.1 h
    exact ⟨hnil, Option.toList_eq_nil_iff.1 hd⟩

end JobShell.Doings

/-! ## Leaders that have been forked and not been moved -/

namespace JobShell.Shell

variable {s t : Shell} {job : Job} {pid : Pid}

theorem need_of_forked (h0 : s.handlers = []) (hphase : s.phase = .forked job pid) :
    s.need = .group pid { s with phase := .grouped job pid } := by
  have hline : s.need = s.lineNeed := by rw [need, h0]
  rw [hline, lineNeed, hphase]

/-- Only a fork brings a line so far. -/
theorem forked_of_leads (ht : s.need.Leads t) (hphase : t.phase = .forked job pid) :
    s.phase = .forked job pid ∨ ∃ pipeline next, s.need = .fork pipeline next := by
  unfold need at ht ⊢
  split at ht
  · cases advances_of_leads ht with
    | fork pid hp =>
      right
      rw [lineNeed, hp]
      exact ⟨_, _, rfl⟩
    | @unhold j =>
      dsimp only at hphase
      split at hphase <;> cases hphase
    | announce r | print r | change r => cases r <;> cases hphase
    | @conclude _ result => cases result <;> cases hphase
    | hold | group | note | orphan | await | clear | sweep | pass => cases hphase
  · rw [← phase_of_handlerNeed ht]
    exact .inl hphase

end JobShell.Shell

namespace JobShell.Machine

variable {m m' m₀ m₁ m₂ : Machine} {p p₀ p₁ q q' : Process} {i : Incident} {is : List Incident}
  {leader pid r : Pid} {job : Job} {ds : Doings}

theorem Works.forked (hw : m.Works m') (hk : m.world.Keyed)
    (hphase : m'.shell.phase = .forked job pid) :
    m.shell.phase = .forked job pid ∨
      pid = m.world.nextPid ∧ m'.world.nextPid = m.world.nextPid + 1 := by
  have hleads {p : Process} (hlead : (m.current p).need.Leads m'.shell)
      (hneed : ∀ pipeline next, (m.current p).need ≠ .fork pipeline next) :
      m.shell.phase = .forked job pid := by
    rcases Shell.forked_of_leads hlead hphase with h | ⟨pipeline, next, h⟩
    · exact h
    · exact absurd h (hneed pipeline next)
  cases hw with
  | stands | suffers | ends => exact .inl hphase
  | takes hp hs =>
    obtain ⟨n, -, rfl⟩ := Option.map_eq_some_iff.1 hs
    exact .inl hphase
  | moves hp hneed => exact .inl (hleads (p := _) (by rw [hneed]; rfl) (by rw [hneed]; exact nofun))
  | forks hp hneed =>
    obtain ⟨-, job', -, rfl⟩ := Shell.fork_of_need hneed
    cases hphase
    exact .inr ⟨rfl, (World.leavesAll_fork hk _ _).nextPid_eq⟩
  | acts hp ha hw =>
    refine .inl (hleads ha.leads fun pipeline next hneed => ?_)
    rw [hneed] at ha
    exact ha
  | changes hp hneed hw =>
    exact .inl (hleads (by rw [hneed]; exact ⟨_, rfl⟩) (by rw [hneed]; exact nofun))

theorem phaseOf_ne_forked (s : Shell) (request : Except LineError Request) :
    s.phaseOf request ≠ .forked job pid := by
  intro h
  have hstanding := s.standing_phaseOf request
  rw [h] at hstanding
  cases hstanding

/-- The leader of a line that has forked one and not moved it is the leader it had before, or a new
process. -/
theorem Meets.forked (hm : m.Meets i m') (hk : m.world.Keyed)
    (hphase : m'.shell.phase = .forked job pid) :
    m.shell.phase = .forked job pid ∨ i = .happens .works ∧
      pid = m.world.nextPid ∧ m'.world.nextPid = m.world.nextPid + 1 := by
  cases hm with
  | denied => exact .inl hphase
  | happens hm =>
    cases hm with
    | line text hrest => exact absurd hphase (phaseOf_ne_forked _ _)
    | works hw => exact (hw.forked hk hphase).imp_right fun h => ⟨rfl, h⟩
    | @refused e p s hp hs =>
      have hs : (m.current p).refused? e = some s := hs
      unfold Shell.refused? at hs
      split at hs <;> cases hs <;> cases hphase
    | turn | sent | passes => exact .inl hphase

/-- The interpreter takes up no line before it has moved a leader that it has forked. -/
theorem Meets.isLine_of_forked (hm : m.Meets i m') (hphase : m.shell.phase = .forked job pid) :
    i.isLine = false := by
  cases hm with
  | denied => rfl
  | happens hm =>
    cases hm with
    | line text hrest =>
      obtain ⟨p, r, hp, hneed⟩ := exists_of_isResting hrest
      have hstanding := Shell.standing_of_rest hneed
      rw [show (m.current p).phase = .forked job pid from hphase] at hstanding
      cases hstanding
    | _ => rfl

/-- The interpreter moves the leader, or its line stays where it is. -/
theorem step_of_forked (hphase : m.shell.phase = .forked job pid) :
    m.step.1.shell.phase = .forked job pid ∨ ∃ p s, m.process? = some p ∧
      m.step.1 = m.after (m.world.setGroup p pid pid).1 s := by
  unfold step
  split
  · exact .inl hphase
  · rename_i p hp
    split
    · exact .inl hphase
    · split
      · rename_i hsignal
        exact .inl ((phase_takeSignal? hsignal).trans hphase)
      · cases h0 : m.shell.handlers with
        | nil =>
          have hneed := Shell.need_of_forked (s := m.current p) h0 hphase
          refine .inr ⟨p, { m.current p with phase := .grouped job pid }, hp, ?_⟩
          unfold act
          rw [hneed]
        | cons h rest =>
          left
          have hact : m.act p = ((m.act p).1, (m.act p).2) := rfl
          rcases leads_of_act hact with heq | hlead
          · exact heq.trans hphase
          · have hneed : (m.current p).need = (m.current p).handlerNeed h rest := by
              rw [Shell.need, show (m.current p).handlers = h :: rest from h0]
            rw [hneed] at hlead
            exact (Shell.phase_of_handlerNeed hlead).trans hphase

/-! ## The leader -/

/-- A leader that has done nothing is to make a group of its own first. -/
theorem Runs.first {env : List Bytes} {pipeline : Pipeline}
    (hr : m.Runs leader (Launch.leader env pipeline).run []) :
    ∃ next, m.world.program? leader = some (.call (.setGroup 0 0) next) := by
  obtain ⟨next, hprogram⟩ : ∃ next, (Launch.leader env pipeline).run =
      .call (.setGroup 0 0) next := ⟨_, rfl⟩
  refine ⟨next, ?_⟩
  rw [← hprogram]
  cases hr.travels with
  | going hpath h => cases hpath with | start => exact h
  | finished hpath hlast => cases hlast
  | left _ hds => cases (List.append_eq_nil_iff.1 hds.symm).2

/-- It does not fork or execute anything else before that. -/
theorem Runs.ne_nil {d : Doing} {env : List Bytes} {pipeline : Pipeline}
    (hr : m.Runs leader (Launch.leader env pipeline).run ds) (hm : m.Meets i m')
    (hd : m.doing? leader i = some d) (hfirst : d.fork?.isSome ∨ d.isStart) : ds ≠ [] := by
  rintro rfl
  obtain ⟨next, hhere⟩ := hr.first
  have htakes := hm.takes hr.kindred.toNumbered hr.other hr.known hhere
  rw [hd] at htakes
  rcases htakes with _ | hdoes | hdoes | _
  · cases hdoes
    rcases hfirst with h | h <;> cases h
  · cases hdoes
    rcases hfirst with h | h <;> cases h
  · rcases hfirst with h | h <;> cases h

/-- Where a leader that has done nothing does something, it has a group of its own, if it lives. -/
theorem Launched.group_of_does {d : Doing} {pipeline : Pipeline}
    (hl : Launched pipeline leader [] m) (hm : m.Meets i m') (hd : m.doing? leader i = some d)
    (hq' : m'.world.process? leader = some q') : q'.group = leader := by
  obtain ⟨next, hhere⟩ := hl.runs.first
  rcases of_doing? hd with ⟨rfl, hturn⟩ | ⟨e, rfl, -⟩
  · cases hm with
    | happens hm =>
      cases hm with
      | turn =>
        exact World.group_step hl.kindred.keyed hl.positive hhere (by rw [hturn]; exact nofun) hq'
  · -- what it asks for is refused to nobody
    cases hm with
    | denied hpid hdenied =>
      obtain ⟨p, a, b, hp, ha, hact, -⟩ := World.denied?_eq_some hdenied
      obtain rfl := Option.some.inj (ha.symm.trans ((World.program?_eq_some hp).symm.trans hhere))
      cases hact

/-- Where the interpreter has just moved the leader, that has a group of its own, if it has done
nothing. -/
theorem Attended.group_of_moved {j : Job} (ha : m₀.Attended p₀ job leader ds m)
    (hm : m.Meets i m') (hphase : m.shell.phase = .forked j leader)
    (hleft : m'.shell.phase ≠ .forked j leader)
    (himage : ∀ p q, m.process? = some p → m.world.process? leader = some q → q.image = p.image)
    (hq' : m'.world.process? leader = some q') : q'.group = leader := by
  have hk := ha.kindred.keyed
  have hline := hm.isLine_of_forked hphase
  have hstays : m'.shell ≠ m.shell := fun heq => hleft (heq ▸ hphase)
  cases hm with
  | denied => exact absurd rfl hstays
  | happens hm =>
    cases hm with
    | line => cases hline
    | @refused e p s hp hs =>
      rw [Shell.refused?_of_carries (ha.attends p hp).carries] at hs
      cases hs
    | turn | sent | passes => exact absurd rfl hstays
    | works =>
      rcases step_of_forked hphase with h | ⟨p, s, hp, hstep⟩
      · exact absurd h hleft
      · rw [hstep] at hq'
        have hpid := hk.pid_eq hp
        obtain ⟨q, hq, -⟩ := World.of_setGroup hk hq'
        refine World.group_setGroup_child hk hq ha.positive ?_ (himage p q hp hq) hq'
        rw [hpid]
        exact ha.parent p q hp hq

/-! ## All processes of a job -/

/-- In this incident nobody moves the interpreter, and nobody but the interpreter moves a process of
the job with this leader to another group than the leader's, unless that runs its own program. -/
def Leaves (m : Machine) (leader : Pid) (pre : List Incident) (m₁ : Machine) (i : Incident) : Prop :=
  ∀ r group, m₁.move? i = some (r, group) → r ≠ m₁.pid ∧ (group ≠ leader → r ≠ leader ∧
    ∀ child, (child, r) ∈ (m.doings leader pre).forks → (m.doings r pre).any Doing.isStart)

/-- So it is with all these incidents. -/
def Unmoved (m : Machine) (leader : Pid) (is : List Incident) : Prop :=
  ∀ pre i post m₁, is = pre ++ i :: post → m.meets? pre = some m₁ → m.Leaves leader pre m₁ i

theorem Unmoved.of_concat (h : m.Unmoved leader (is ++ [i])) (hpre : m.meets? is = some m₁) :
    m.Unmoved leader is ∧ m.Leaves leader is m₁ i := by
  refine ⟨fun pre j post m₂ heq hm₂ => h pre j (post ++ [i]) m₂ ?_ hm₂, h is i [] m₁ rfl hpre⟩
  rw [heq, List.append_assoc]
  rfl

/-- The processes of a job in the course of the incidents since its leader was forked, by an
interpreter that was then `p₁`. -/
structure Grouped (m₀ : Machine) (p₀ p₁ : Process) (job : Job) (leader : Pid) (m : Machine)
    (is : List Incident) (m' : Machine) : Prop where
  runs : m'.Runs leader (Launch.leader m.env job.pipeline).run (m.doings leader is)
  older : m'.pid < leader
  /-- The leaders of later jobs are other processes. -/
  later : ∀ j pid, m'.shell.phase = .forked j pid → leader ≤ pid ∧ pid < m'.world.nextPid ∧
    ∀ child, (child, pid) ∉ (m.doings leader is).forks
  attended : ∀ j, m'.shell.phase = .forked j leader →
    m₀.Attended p₀ job leader (m.doings leader is) m'
  interpreter : ∀ p, m'.process? = some p → p.seat = p₁.seat
  idle : m.doings leader is = [] → ∀ q, m'.world.process? leader = some q → q.image = p₁.image
  /-- Once either side has moved it, the leader is in a group of its own. -/
  leads : m.doings leader is ≠ [] ∨ (∀ j, m'.shell.phase ≠ .forked j leader) →
    ∀ q, m'.world.process? leader = some q → q.group = leader
  /-- The others are in its group until they have become their programs. -/
  crew : ∀ child r q, (child, r) ∈ (m.doings leader is).forks →
    (m.doings r is).any Doing.isStart = false → m'.world.process? r = some q → q.group = leader

section

variable (hg : m₀.Grouped p₀ p₁ job leader m is m₁) (hm : m₁.Meets i m₂)
include hg hm

theorem Grouped.interpreter_of_meets (hleaves : m.Leaves leader is m₁ i)
    (hp : m₂.process? = some p) : p.seat = p₁.seat := by
  have hk := hg.runs.kindred
  have hp : m₂.world.process? m₁.pid = some p := by rw [← hm.pid_eq]; exact hp
  cases hm.reseats hk.keyed hp with
  | keeps hq hseat => exact hseat.trans (hg.interpreter _ hq)
  | @groups q j pid hq himage hphase hmoved =>
    -- it moves processes that are younger than itself
    have hlt := Int.lt_of_lt_of_le hg.older (hg.later j pid hphase).1
    rw [World.moved_self (Int.ne_of_gt (Int.lt_trans hk.positive hlt))] at hmoved
    exact absurd (congrArg Prod.fst hmoved) (Int.ne_of_gt hlt)
  | moves hq himage hmove => exact absurd rfl (hleaves _ _ hmove).1
  | becomes hq hgroup hd =>
    rcases of_doing? hd with ⟨rfl, -⟩ | ⟨e, rfl, hdenied⟩
    · cases hm with
      | happens hm => cases hm with | turn hpid => exact absurd rfl hpid
    · cases hdenied
  | made hp' hseat hr hd => exact absurd hr (Int.ne_of_lt hk.known)
  | launched hp' hseat hr hi => exact absurd hr (Int.ne_of_lt hk.known)

/-- A process of the job that is in its group and has not become its program stays there. -/
theorem Grouped.group_of_meets (hleaves : m.Leaves leader is m₁ i)
    (hr : r = leader ∨ (∃ child, (child, r) ∈ (m.doings leader is).forks) ∧
      (m.doings r is).any Doing.isStart = false)
    (hknown : r < m₁.world.nextPid)
    (hold : ∀ q, m₁.world.process? r = some q → q.group = leader)
    (hq' : m₂.world.process? r = some q') : q'.group = leader := by
  have hk := hg.runs.kindred
  cases hm.reseats hk.keyed hq' with
  | keeps hq hseat => exact (congrArg Prod.fst hseat).trans (hold _ hq)
  | @groups q j pid hq himage hphase hmoved =>
    obtain ⟨hle, -, hother⟩ := hg.later j pid hphase
    have hlt := Int.lt_of_lt_of_le hg.older hle
    rw [World.moved_self (Int.ne_of_gt (Int.lt_trans hk.positive hlt))] at hmoved
    obtain ⟨heq, hgroup⟩ := Prod.mk.inj hmoved
    rcases hr with rfl | ⟨⟨child, hmem⟩, -⟩
    · rw [← hgroup, heq]
    · exact absurd (heq ▸ hmem) (hother child)
  | moves hq himage hmove =>
    by_contra hne
    obtain ⟨hnot, hstarted⟩ := (hleaves _ _ hmove).2 hne
    rcases hr with rfl | ⟨⟨child, hmem⟩, hidle⟩
    · exact hnot rfl
    · rw [hstarted child hmem] at hidle
      cases hidle
  | becomes hq hgroup hd => exact hgroup.trans (hold _ hq)
  | made hp hseat hr hd => exact absurd hr (Int.ne_of_lt hknown)
  | launched hp hseat hr hi => exact absurd hr (Int.ne_of_lt hknown)

theorem Grouped.idle_of_meets (hd : m₁.doing? leader i = none)
    (hold : ∀ q, m₁.world.process? leader = some q → q.image = p₁.image)
    (hq' : m₂.world.process? leader = some q') : q'.image = p₁.image := by
  cases hm.reseats hg.runs.kindred.keyed hq' with
  | keeps hq hseat => exact (congrArg Prod.snd hseat).trans (hold _ hq)
  | groups hq himage | moves hq himage => exact himage.trans (hold _ hq)
  | becomes hq hgroup hd' => cases hd.symm.trans hd'
  | made hp hseat hr => exact absurd hr (Int.ne_of_lt hg.runs.known)
  | launched hp hseat hr => exact absurd hr (Int.ne_of_lt hg.runs.known)

theorem Grouped.leads_of_meets (hleaves : m.Leaves leader is m₁ i)
    (h : m.doings leader is ≠ [] ∨ m₁.doing? leader i ≠ none ∨
      ∀ j, m₂.shell.phase ≠ .forked j leader)
    (hq' : m₂.world.process? leader = some q') : q'.group = leader := by
  by_cases hmoved : m.doings leader is ≠ [] ∨ ∀ j, m₁.shell.phase ≠ .forked j leader
  · exact hg.group_of_meets hm hleaves (.inl rfl) hg.runs.known (hg.leads hmoved) hq'
  · -- neither side has moved it yet
    simp only [not_or, not_not, not_forall] at hmoved
    obtain ⟨hnil, j, hphase⟩ := hmoved
    have hat := hg.attended j hphase
    rw [hnil] at hat
    cases hd : m₁.doing? leader i with
    | some d => exact hat.group_of_does hm hd hq'
    | none =>
      have hleft := (h.resolve_left (not_not.2 hnil)).resolve_left (not_not.2 hd)
      refine hat.group_of_moved hm hphase (hleft j) (fun p q hp hq => ?_) hq'
      exact (hg.idle hnil q hq).trans (congrArg Prod.snd (hg.interpreter p hp)).symm

/-- A process that the leader has just forked is in the leader's group. -/
theorem Grouped.crew_of_meets {child : Act} (hd : m₁.doing? leader i = some (.forked child (.ok r)))
    (hq' : m₂.world.process? r = some q') : q'.group = leader := by
  have hr := hg.runs
  have hk := hr.kindred
  obtain ⟨rfl, -⟩ := hr.forked hm hd
  have hnew {q : Process} (hq : m₁.world.process? m₁.world.nextPid = some q) : False :=
    Int.lt_irrefl _ (hk.given _ q hq)
  cases hm.reseats hk.keyed hq' with
  | keeps hq | groups hq | moves hq | becomes hq => exact (hnew hq).elim
  | launched hp hseat _ hi =>
    subst hi
    cases hd
  | @made p child' pid hp hseat _ hd' =>
    have hpid : pid = leader := by
      rcases of_doing? hd with ⟨rfl, -⟩ | ⟨e, rfl, hdenied⟩
      · rcases of_doing? hd' with ⟨heq, -⟩ | ⟨e, heq, -⟩
        · exact (Happening.turn.inj (Incident.happens.inj heq)).symm
        · cases heq
      · cases hdenied
    subst hpid
    have hne := hr.ne_nil hm hd (.inl rfl)
    exact (congrArg Prod.fst hseat).trans (hg.leads (.inl hne) p hp)

end

theorem Grouped.meets (hg : m₀.Grouped p₀ p₁ job leader m is m₁)
    (hstart : m.Runs leader (Launch.leader m.env job.pipeline).run [])
    (hchild : p₀.signals.disposition Signal.child ≠ .ignored) (hpre : m.meets? is = some m₁)
    (hm : m₁.Meets i m₂) (hleaves : m.Leaves leader is m₁ i) :
    m₀.Grouped p₀ p₁ job leader m (is ++ [i]) m₂ := by
  have hr := hg.runs
  have hk := hr.kindred.keyed
  have hnext := (hm.grows hr.kindred.toNumbered).nextPid
  have hforks {child : Act} {pid : Pid} (h : (child, pid) ∈ (m.doings leader (is ++ [i])).forks) :
      (child, pid) ∈ (m.doings leader is).forks ∨
        m₁.doing? leader i = some (.forked child (.ok pid)) := by
    rw [doings_concat leader i hpre] at h
    exact (Doings.mem_then (Doings.mem_forks.1 h)).imp Doings.mem_forks.2 And.left
  have hknown {child : Act} {pid : Pid} (h : (child, pid) ∈ (m.doings leader is).forks) :
      pid < m₁.world.nextPid := (hstart.crew hpre h).2.known
  refine ⟨?_, hm.pid_eq ▸ hg.older, fun j pid hphase => ?_, fun j hphase => ?_, fun p hp => ?_,
    fun hnil q hq => ?_, fun h q hq => ?_, fun child r q hmem hidle hq => ?_⟩
  · rw [doings_concat leader i hpre]
    exact hr.meets hm
  · rcases hm.forked hk hphase with hold | ⟨rfl, rfl, hgrows⟩
    · obtain ⟨hle, hlt, hother⟩ := hg.later j pid hold
      refine ⟨hle, Int.lt_of_lt_of_le hlt hnext, fun child hmem => ?_⟩
      rcases hforks hmem with h | hd
      · exact hother child h
      · exact absurd (hr.forked hm hd).1 (Int.ne_of_lt hlt)
    · refine ⟨Int.le_of_lt hr.known, by rw [hgrows]; exact Int.lt_succ _, fun child hmem => ?_⟩
      rcases hforks hmem with h | hd
      · exact Int.lt_irrefl _ (hknown h)
      · cases hd
  · rcases hm.forked hk hphase with hold | ⟨-, heq, -⟩
    · rw [doings_concat leader i hpre]
      exact (hg.attended j hold).meets hm (hm.isLine_of_forked hold) hchild
    · exact absurd heq (Int.ne_of_lt hr.known)
  · exact hg.interpreter_of_meets hm hleaves hp
  · rw [doings_concat leader i hpre] at hnil
    obtain ⟨hnil, hd⟩ := Doings.then_eq_nil hnil
    exact hg.idle_of_meets hm hd (hg.idle hnil) hq
  · refine hg.leads_of_meets hm hleaves ?_ hq
    rw [doings_concat leader i hpre] at h
    by_contra hno
    simp only [not_or, not_not] at hno
    obtain ⟨hnil, hd, hleft⟩ := hno
    rw [hnil, hd] at h
    exact h.elim (fun hne => hne rfl) hleft
  · rw [doings_concat r i hpre] at hidle
    have hidle := Doings.any_of_then hidle
    rcases hforks hmem with h | hd
    · exact hg.group_of_meets hm hleaves (.inr ⟨⟨child, h⟩, hidle⟩) (hknown h)
        (hg.crew child r · h hidle) hq
    · exact hg.crew_of_meets hm hd hq

/-- So it is when the interpreter has forked the leader. -/
theorem Served.grouped (hs : m₀.Served p₀ job m) (hm : m.Happens .works m')
    (hp : m.process? = some p) (hchild : p₀.signals.disposition Signal.child ≠ .ignored)
    (hfork : m'.world.nextPid ≠ m.world.nextPid) :
    m₀.Grouped p₀ p job m.world.nextPid m' [] m' := by
  have hk := hs.kindred.keyed
  have hworks : m.Works m' := by cases hm with | works hw => exact hw
  have hat := hs.attended hm hchild hfork
  obtain ⟨p', hp', hworld, hphase, -⟩ := hs.forks hworks hfork
  obtain rfl := Option.some.inj (hp.symm.trans hp')
  have hself : m.world.process? p.pid = some p := by
    rw [hk.pid_eq hp]
    exact hp
  have hseat {r : Pid} {q : Process} (hr : r = m.pid ∨ r = m.world.nextPid)
      (hq : m'.world.process? r = some q) : q.seat = p.seat := by
    rw [hworld] at hq
    cases World.reseats_fork hk hself hq with
    | keeps hq₀ hseat =>
      rcases hr with rfl | rfl
      · obtain rfl := Option.some.inj (hp.symm.trans hq₀)
        exact hseat
      · exact absurd (hs.kindred.given _ _ hq₀) (Int.lt_irrefl _)
    | moves hq₀ himage hd hmove =>
      obtain rfl := Option.some.inj hd
      cases hmove
    | becomes hq₀ hgroup hr' hd => cases hd
    | made hp₀ hseat =>
      obtain rfl := Option.some.inj (hself.symm.trans hp₀)
      exact hseat
  have hpid := hworks.pid_eq
  have hnone (x : Act × Pid) : x ∉ (m'.doings m.world.nextPid []).forks := List.not_mem_nil
  refine ⟨hat.toLaunched.runs, ?_, fun j pid hj => ?_, fun _ _ => hat, fun q hq => ?_,
    fun _ q hq => congrArg Prod.snd (hseat (.inr rfl) hq), fun h => ?_,
    fun child r q hmem => absurd hmem (hnone _)⟩
  · rw [hpid]
    exact hs.kindred.known
  · obtain ⟨-, rfl⟩ := Phase.forked.inj (hphase.symm.trans hj)
    exact ⟨Int.le_refl _, hat.known, fun child => hnone _⟩
  · exact hseat (.inl hpid) hq
  · rcases h with h | h
    · exact absurd rfl h
    · exact absurd hphase (h job)

/-- So it stays, if nobody moves them. -/
theorem Grouped.course (hg : m₀.Grouped p₀ p₁ job leader m [] m)
    (hchild : p₀.signals.disposition Signal.child ≠ .ignored) (hun : m.Unmoved leader is)
    (h : m.meets? is = some m') : m₀.Grouped p₀ p₁ job leader m is m' := by
  refine meets?_induction
    (P := fun is m' => m.Unmoved leader is → m₀.Grouped p₀ p₁ job leader m is m')
    (fun _ => hg) ?_ h hun
  intro is i m₁ m₂ hpre hm₁ hm hun
  obtain ⟨hun, hleaves⟩ := hun.of_concat hpre
  have hg₁ := hm₁ hun
  have hmeets := meets_of_meet? hg₁.runs.kindred.keyed hm
  exact hg₁.meets hg.runs hchild hpre hmeets hleaves

end JobShell.Machine
