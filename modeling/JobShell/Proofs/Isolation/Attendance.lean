import JobShell.Proofs.Isolation.Farewell
import JobShell.Proofs.Isolation.Verdict

/-!
# A job and its interpreter

* `Machine.Launched`: the leader of a job has done this so far, and has still to do what is left of
  its program.
* `Machine.Attended`: the line of the job is still being carried out, and what the interpreter is
  told of the leader is what has become of it.
* `Machine.Attended.meets`: whatever happens, it stays so until the next line.
-/

namespace JobShell

namespace Shell

/-- What the interpreter is told of the leader is what has become of it. -/
def Told (s : Shell) (leader : Pid) (alive : Bool) (ds : Doings) : Prop :=
  ∃ ending, s.Tells leader ending ∧ (ending = none ↔ alive) ∧
    ∀ d ∈ ds, ∀ code, d.code? = some code → ending = some (.exited code)

/-- The interpreter carries out the line of a job with this leader. -/
structure Attends (s : Shell) (job : Job) (leader : Pid) (alive : Bool) (ds : Doings) : Prop where
  controlled : Controlled s
  carries : s.phase.Carries job leader
  aims : s.Aims leader
  told : job.background = false → s.Told leader alive ds

variable {s t : Shell} {job : Job} {leader : Pid} {alive alive' : Bool} {ds ds' : Doings}

theorem Told.congr (h : s.Told leader alive ds) (hphase : t.phase = s.phase)
    (hchildren : t.children = s.children) (hlast : t.lastStatus = s.lastStatus) :
    t.Told leader alive ds := by
  obtain ⟨ending, htells, hrest⟩ := h
  exact ⟨ending, htells.congr hphase hchildren hlast, hrest⟩

theorem Attends.of_like (h : s.Attends job leader alive ds) (hl : s.Like t) :
    t.Attends job leader alive ds where
  controlled := h.controlled.of_like hl
  carries := hl.phase ▸ h.carries
  aims := ⟨hl.tracker ▸ h.aims.slot, hl.handlers ▸ h.aims.forwards⟩
  told hbg := (h.told hbg).congr hl.phase hl.children hl.lastStatus

/-- A step of its own brings the interpreter further with its job. -/
theorem Attends.goes {ev : Event} (h : s.Attends job leader alive ds) (hev : s.next? ev = some t)
    (ht : s.need.Leads t) : t.Attends job leader alive ds where
  controlled := by
    obtain ⟨jobs, hstep⟩ := exists_step hev
    exact h.controlled.step hstep
  carries := (background_of_leads h.carries ht).1
  aims := h.aims.leads h.carries ht
  told hbg := by
    obtain ⟨ending, htells, hrest⟩ := h.told hbg
    exact ⟨ending, htells.leads h.controlled ht, hrest⟩

theorem Attends.takes (h : s.Attends job leader alive ds) (ht : s.deliver? = some t) :
    t.Attends job leader alive ds := by
  have hcontrolled : Controlled t := by
    obtain ⟨jobs, hstep⟩ := exists_step (next?_of_deliver? ht)
    exact h.controlled.step hstep
  obtain ⟨n, -, rfl⟩ := Option.map_eq_some_iff.1 ht
  refine ⟨hcontrolled, h.carries, ⟨h.aims.slot, fun pid hmem => ?_⟩,
    fun hbg => (h.told hbg).congr rfl rfl rfl⟩
  rcases List.mem_cons.1 hmem with heq | hmem
  · exact absurd heq.symm (handlerOf_ne_forwarding n pid)
  · exact h.aims.forwards pid hmem

/-- The leader has been forked, and has still to be moved to a group of its own. -/
theorem Attends.forked {cs : Children} (hcontrolled : Controlled s)
    (hphase : s.phase = .forked job leader) (h0 : s.handlers = [])
    (hchildren : s.children = cs.add leader) (hnew : ∀ c ∈ cs, c.pid ≠ leader) :
    s.Attends job leader true [] := by
  have hfree : s.tracker.foreground = none := by
    have hslots := hcontrolled.slots
    rw [hphase] at hslots
    exact hslots
  refine ⟨hcontrolled, by rw [hphase]; exact ⟨rfl, rfl⟩,
    ⟨by rw [hfree]; exact nofun, by rw [h0]; exact nofun⟩, fun hbg => ⟨none, .awaits ?_ ?_ ?_,
      ⟨fun _ => rfl, fun _ => rfl⟩, nofun⟩⟩
  · rw [hphase]
    exact if_neg (by rw [hbg]; exact Bool.false_ne_true)
  · rw [hchildren]
    exact ⟨_, List.mem_append_right _ List.mem_cons_self, rfl⟩
  · rw [hchildren]
    intro c hmem hc
    rcases List.mem_append.1 hmem with hmem | hmem
    · exact absurd hc (hnew c hmem)
    · rw [List.mem_singleton.1 hmem]

/-- A child ends. -/
theorem Attends.hears {pid : Pid} {e : Ending} (h : s.Attends job leader alive ds)
    (htold : job.background = false →
      { s with children := s.children.finish pid e }.Told leader alive' ds') :
    { s with children := s.children.finish pid e }.Attends job leader alive' ds' :=
  ⟨{ h.controlled with }, h.carries, ⟨h.aims.slot, h.aims.forwards⟩, htold⟩

end Shell

theorem Doings.mem_then {ds : Doings} {d : Doing} {d? : Option Doing} (h : d ∈ ds.then d?) :
    d ∈ ds ∨ d? = some d ∧ ds.any Doing.isLast = false := by
  unfold Doings.then at h
  split at h
  · exact .inl h
  · rename_i hany
    rcases List.mem_append.1 h with h | h
    · exact .inl h
    · exact .inr ⟨Option.mem_toList.1 h, Bool.not_eq_true _ ▸ hany⟩

/-- A process that has not done its last is there. -/
theorem World.Travels.alive {w : World} {pid : Pid} {a : Act} {ds : Doings}
    (h : w.Travels pid a ds) (hany : ds.any Doing.isLast = false) :
    ∃ p, w.process? pid = some p := by
  cases h with
  | going hpath hb =>
    obtain ⟨p, hp, -⟩ := exists_of_program? hb
    exact ⟨p, hp⟩
  | finished hpath hd h =>
    obtain ⟨d, hlast, hl⟩ := hpath.exists_last
    exact absurd hl (List.any_eq_false.1 hany d (List.mem_of_getLast? hlast))
  | left _ hds =>
    exact absurd rfl (List.any_eq_false.1 hany _ (hds ▸ List.mem_concat_self))

namespace Machine

variable {m m' m₀ : Machine} {p p' p₀ : Process} {i : Incident} {h : Happening} {leader : Pid}
  {ds : Doings} {job : Job} {pipeline : Pipeline}

/-- The leader of a job has done this. -/
structure Launched (pipeline : Pipeline) (leader : Pid) (ds : Doings) (m : Machine) : Prop where
  kindred : m.Kindred
  positive : 0 < leader
  other : leader ≠ m.pid
  known : leader < m.world.nextPid
  travels : m.world.Travels leader (Launch.leader m.env pipeline).run ds

/-- The line of a job is being carried out. -/
structure Served (m₀ : Machine) (p₀ : Process) (job : Job) (m : Machine) : Prop where
  undisturbed : m₀.Undisturbed p₀ job m
  kindred : m.Kindred
  controlled : ∀ p, m.process? = some p → Controlled (m.current p)

/-- The line of a job is being carried out whose leader has done this. -/
structure Attended (m₀ : Machine) (p₀ : Process) (job : Job) (leader : Pid) (ds : Doings)
    (m : Machine) : Prop extends Launched job.pipeline leader ds m where
  undisturbed : m₀.Undisturbed p₀ job m
  /-- It takes its leave as the interpreter does, or not at all. -/
  parts : m.world.Parts leader p₀.farewell ds
  /-- Nobody but the interpreter has it as a child. -/
  sole : m.world.Rears fun r child => child = leader → r = m.pid
  parent : ∀ p q, m.process? = some p → m.world.process? leader = some q → q.parent = m.pid
  attends : ∀ p, m.process? = some p →
    (m.current p).Attends job leader (m.world.process? leader).isSome ds

theorem Attended.served (ha : m₀.Attended p₀ job leader ds m) : m₀.Served p₀ job m :=
  ⟨ha.undisturbed, ha.kindred, fun p hp => (ha.attends p hp).controlled⟩

theorem Works.env_eq (hw : m.Works m') : m'.env = m.env := by
  cases hw <;> rfl

theorem Meets.env_eq (hm : m.Meets i m') : m'.env = m.env := by
  cases hm with
  | happens hm =>
    cases hm with
    | works hw => exact hw.env_eq
    | _ => rfl
  | denied => rfl

theorem Launched.meets (hl : Launched pipeline leader ds m) (hm : m.Meets i m') :
    Launched pipeline leader (ds.then (m.doing? leader i)) m' where
  kindred := hm.kindred hl.kindred
  positive := hl.positive
  other := by
    rw [hm.pid_eq]
    exact hl.other
  known := Int.lt_of_lt_of_le hl.known (hm.grows hl.kindred.toNumbered).nextPid
  travels := by
    rw [hm.env_eq]
    exact hm.travels hl.kindred.toNumbered hl.other hl.known hl.travels

/-! ## Between lines -/

/-- Between lines, with SIGCHLD let through and no foreground job. -/
structure Settled (m : Machine) (p : Process) : Prop where
  kindred : m.Kindred
  process : m.process? = some p
  resting : ∃ r, (m.current p).need = .rest r
  unheld : Signal.child ∉ p.signals.blocked
  free : m.shell.tracker.foreground = none
  handled : ∀ n, p.signals.disposition n = .handled → n = Signal.interrupt ∨ n = Signal.child
  /-- It is told of its children. -/
  heeds : p.signals.disposition Signal.child ≠ .ignored

theorem Settled.isResting (hm : m.Settled p) : m.isResting := by
  obtain ⟨r, hrest⟩ := hm.resting
  unfold Machine.isResting
  rw [hm.process]
  dsimp only
  rw [hrest]

/-- Whatever the next line is, it is taken up. -/
theorem Settled.begins (hm : m.Settled p) (text : Bytes) :
    m.meet? (.happens (.line text)) = some (m.begin text) := if_pos hm.isResting

theorem Settled.guards (hm : m.Settled p) : (m.current p).Guards := by
  obtain ⟨r, hrest⟩ := hm.resting
  refine ⟨?_, fun _ => hm.free⟩
  rw [Shell.standing_of_rest hrest]
  exact ⟨hm.unheld, False.elim⟩

theorem Settled.controlled (hm : m.Settled p) (text : Bytes) :
    Controlled ((m.begin text).current p) := by
  obtain ⟨r, hrest⟩ := hm.resting
  have hstanding : ((m.begin text).current p).phase.standing = .settled :=
    m.shell.standing_phaseOf _
  refine .of_line (Shell.rest_of_need hrest).1 ?_ ?_ ?_ hm.handled <;> rw [hstanding]
  · exact ⟨hm.unheld, False.elim⟩
  · exact hm.free
  · exact nofun

/-- A line for a job is taken up. -/
theorem Settled.served (hm : m.Settled p) {line : Bytes}
    (hline : Request.ofLine line = .ok (.launch job)) : m.Served p job (m.begin line) := by
  obtain ⟨r, hrest⟩ := hm.resting
  have hsame {q : Process} (hq : m.process? = some q) : q = p :=
    Option.some.inj (hq.symm.trans hm.process)
  have hgoverned : m.Governed := ⟨hm.kindred.toNumbered, fun q hq => hsame hq ▸ hm.guards⟩
  refine ⟨.begin hgoverned hm.process hrest hline,
    hm.kindred.happens (.line line hm.isResting), fun q hq => ?_⟩
  rw [hsame hq]
  exact hm.controlled line

theorem Undisturbed.disposition (hu : m₀.Undisturbed p₀ job m) (hp : m.process? = some p)
    (n : Nat) : p.signals.disposition n = p₀.signals.disposition n := by
  have h := congrArg (fun q : Process => q.signals.disposition n) (hu.own p hp)
  exact h

theorem Undisturbed.farewell (hu : m₀.Undisturbed p₀ job m) (hp : m.process? = some p) :
    p.farewell = p₀.farewell := by
  have h := congrArg (fun q : Process => q.farewell) (hu.own p hp)
  exact h

theorem Meets.exists_before (hm : m.Meets i m') (hn : m.Numbered) (hp' : m'.process? = some p') :
    ∃ p, m.process? = some p := by
  cases hm with
  | happens hm =>
    obtain ⟨p, hp, -⟩ := hm.follows hn.keyed hn.known hp'
    exact ⟨p, hp⟩
  | denied hpid hd => exact ⟨p', by rw [← process?_denied hn.keyed hpid hd]; exact hp'⟩

theorem Served.sees (hs : m₀.Served p₀ job m) (hm : m.Happens h m')
    (hchild : p₀.signals.disposition Signal.child ≠ .ignored) (hp : m.process? = some p)
    (hp' : m'.process? = some p') : m.Sees p h m' p' :=
  hm.sees hs.kindred hp (by rw [hs.undisturbed.disposition hp]; exact hchild) hp'

theorem Served.meets (hs : m₀.Served p₀ job m) (hm : m.Meets i m') (hline : i.isLine = false)
    (hchild : p₀.signals.disposition Signal.child ≠ .ignored) : m₀.Served p₀ job m' := by
  refine ⟨hm.undisturbed hs.undisturbed hline, hm.kindred hs.kindred, fun p' hp' => ?_⟩
  obtain ⟨p, hp⟩ := hm.exists_before hs.kindred.toNumbered hp'
  cases hm with
  | happens hm => exact (hs.sees hm hchild hp hp').controlled (hs.controlled p hp)
  | denied hpid hd =>
    rw [process?_denied hs.kindred.keyed hpid hd] at hp'
    exact hs.controlled p' hp'

/-- Once the line is over, all is as before it. -/
theorem Served.settled {r : LineResult} (hs : m₀.Served p₀ job m) (hm₀ : m₀.Settled p₀)
    (hp : m.process? = some p) (hrest : (m.current p).need = .rest r) :
    m.Settled p ∧ p.own = p₀.own := by
  obtain ⟨hfree, hunheld, hown⟩ := hs.undisturbed.of_rest hm₀.unheld hp hrest
  refine ⟨⟨hs.kindred, hp, ⟨r, hrest⟩, hunheld, hfree, (hs.controlled p hp).handled, ?_⟩, hown⟩
  rw [hs.undisturbed.disposition hp]
  exact hm₀.heeds

/-! ## The leader and the interpreter -/

/-- Nobody else gets the leader of the job as a child. -/
theorem Attended.sole_of_meets (ha : m₀.Attended p₀ job leader ds m) (hm : m.Meets i m') :
    m'.world.Rears fun r child => child = leader → r = m'.pid := by
  obtain ⟨pid, d, hb⟩ := hm.breeds ha.kindred
  rw [hm.pid_eq]
  exact hb.rears ha.kindred.keyed ha.sole fun _ heq => absurd heq.symm (Int.ne_of_lt ha.known)

theorem Attended.parent_of_meets (ha : m₀.Attended p₀ job leader ds m) (hm : m.Meets i m')
    {q' : Process} (hp' : m'.process? = some p') (hq' : m'.world.process? leader = some q') :
    q'.parent = m'.pid := by
  obtain ⟨p, hp⟩ := hm.exists_before ha.kindred.toNumbered hp'
  obtain ⟨pid, d, hb⟩ := hm.breeds ha.kindred
  have hno (hgone : m'.world.process? pid = none) (q : Process)
      (hq : m.world.process? pid = some q) (c : Child) (hmem : c ∈ q.children) :
      c.pid ≠ leader := by
    intro hc
    rw [ha.sole pid q hq c hmem hc, ← hm.pid_eq] at hgone
    cases hgone.symm.trans hp'
  obtain ⟨q, hq, hparent⟩ := hb.parent ha.kindred.keyed (Int.ne_of_lt ha.known) hno hq'
  rw [hparent, ha.parent p q hp hq, hm.pid_eq]

/-- Where it is not the leader's turn, the leader is there as before. -/
theorem Launched.isSome_of_happens (hl : Launched pipeline leader ds m) (hm : m.Happens h m')
    (hturn : h ≠ .turn leader) :
    (m'.world.process? leader).isSome = (m.world.process? leader).isSome :=
  World.isSome_of_own?
    (hm.untouched hl.kindred.keyed hl.other hl.known hturn).own

/-- Where the leader has ended with a code just now, it was there before, and is gone. -/
theorem Launched.exited {d : Doing} {code : UInt8} (hl : Launched pipeline leader ds m)
    (hm : m.Meets i m') (hmem : d ∈ ds.then (m.doing? leader i)) (hcode : d.code? = some code) :
    d ∈ ds ∨ m.doing? leader i = some d ∧
      (∃ q, m.world.process? leader = some q) ∧ m'.world.process? leader = none := by
  rcases Doings.mem_then hmem with h | ⟨hd, hany⟩
  · exact .inl h
  · exact .inr ⟨hd, hl.travels.alive hany, (hl.meets hm).travels.gone hmem hcode⟩

theorem Attended.told_of_stays (ha : m₀.Attended p₀ job leader ds m) (hm : m.Meets i m')
    (hp : m.process? = some p)
    (hlives : (m'.world.process? leader).isSome = (m.world.process? leader).isSome)
    (hbg : job.background = false) :
    (m.current p).Told leader (m'.world.process? leader).isSome
      (ds.then (m.doing? leader i)) := by
  obtain ⟨ending, htells, hiff, hcode⟩ := (ha.attends p hp).told hbg
  refine ⟨ending, htells, by rw [hlives]; exact hiff, fun d hmem code hd => ?_⟩
  rcases ha.exited hm hmem hd with h | ⟨-, ⟨q, hq⟩, hgone⟩
  · exact hcode d h code hd
  · rw [hgone, hq] at hlives
    cases hlives

theorem Attended.told_of_hears (ha : m₀.Attended p₀ job leader ds m) {pid : Pid} {e : Ending}
    (hm : m.Happens (.turn pid) m') (hp : m.process? = some p)
    (hgone : m'.world.process? pid = none)
    (he : ∀ code, (m.world.doing? pid).bind Doing.code? = some code → e = .exited code)
    (hbg : job.background = false) :
    { m.current p with children := p.children.finish pid e }.Told leader
      (m'.world.process? leader).isSome
      (ds.then (m.doing? leader (.happens (.turn pid)))) := by
  have hdoing : m.doing? leader (.happens (.turn pid)) =
      if pid = leader then m.world.doing? leader else none := rfl
  obtain ⟨ending, htells, hiff, hcode⟩ := (ha.attends p hp).told hbg
  by_cases hpid : pid = leader
  · subst hpid
    refine ⟨ending.or (some e), htells.finish e, ?_, fun d hmem code hd => ?_⟩
    · rw [hgone]
      cases ending <;> simp
    · rcases ha.exited (.happens hm) hmem hd with h | ⟨hnow, ⟨q, hq⟩, -⟩
      · rw [hcode d h code hd]
        rfl
      · have hnone : ending = none := hiff.2 (by rw [hq]; rfl)
        rw [hdoing, if_pos rfl] at hnow
        rw [hnone, he code (by rw [hnow]; exact hd)]
        rfl
  · refine ⟨ending, htells.finish_of_ne hpid, ?_, fun d hmem code hd => ?_⟩
    · rw [ha.isSome_of_happens hm fun heq => hpid (Happening.turn.inj heq)]
      exact hiff
    · rcases ha.exited (.happens hm) hmem hd with h | ⟨hnow, -⟩
      · exact hcode d h code hd
      · rw [hdoing, if_neg hpid] at hnow
        cases hnow

/-- The interpreter is told what becomes of the leader. -/
theorem Attended.attends_of_sees (ha : m₀.Attended p₀ job leader ds m) (hm : m.Happens h m')
    (hline : h.isLine = false) (hp : m.process? = some p) (hsees : m.Sees p h m' p') :
    (m'.current p').Attends job leader (m'.world.process? leader).isSome
      (ds.then (m.doing? leader (.happens h))) := by
  have hat := ha.attends p hp
  have hstays (hlives : (m'.world.process? leader).isSome = (m.world.process? leader).isSome) :
      (m.current p).Attends job leader (m'.world.process? leader).isSome
        (ds.then (m.doing? leader (.happens h))) :=
    { hat with told := ha.told_of_stays (.happens hm) hp hlives }
  cases hsees with
  | stays hlike hlives =>
    refine (hstays ?_).of_like hlike
    by_cases hturn : h = .turn leader
    · cases hq : m.world.process? leader with
      | none => rw [Meets.gone (.happens hm) ha.kindred.toNumbered ha.other ha.known hq]
      | some q => exact hlives leader q hturn hq (ha.parent p q hp hq)
    · exact ha.isSome_of_happens hm hturn
  | @hears pid e hturn hgone he hlike =>
    subst hturn
    exact (hat.hears (ha.told_of_hears hm hp hgone he)).of_like hlike
  | goes hown hev hlead hlike =>
    subst hown
    exact ((hstays (ha.isSome_of_happens hm nofun)).goes hev hlead).of_like hlike
  | takes hown hu hlike =>
    subst hown
    exact ((hstays (ha.isSome_of_happens hm nofun)).takes hu).of_like hlike
  | begins hl =>
    subst hl
    cases hline
  | refused hown hu =>
    rw [Shell.refused?_of_carries hat.carries] at hu
    cases hu

/-- Whatever happens before the next line, the interpreter is told what becomes of the leader. -/
theorem Attended.meets (ha : m₀.Attended p₀ job leader ds m) (hm : m.Meets i m')
    (hline : i.isLine = false) (hchild : p₀.signals.disposition Signal.child ≠ .ignored) :
    m₀.Attended p₀ job leader (ds.then (m.doing? leader i)) m' := by
  refine { ha.toLaunched.meets hm with
    undisturbed := hm.undisturbed ha.undisturbed hline
    parts := hm.parts ha.kindred.toNumbered ha.other ha.known ha.parts
    sole := ha.sole_of_meets hm
    parent := fun p' q' hp' hq' => ha.parent_of_meets hm hp' hq'
    attends := fun p' hp' => ?_ }
  obtain ⟨p, hp⟩ := hm.exists_before ha.kindred.toNumbered hp'
  cases hm with
  | @happens h m' hm =>
    exact ha.attends_of_sees hm hline hp (ha.served.sees hm hchild hp hp')
  | @denied pid e d world hpid hd =>
    have hsame := process?_denied ha.kindred.keyed hpid hd
    obtain rfl : p' = p := Option.some.inj (hp'.symm.trans (hsame.trans hp))
    refine { ha.attends p' hp with told := ha.told_of_stays (.denied hpid hd) hp ?_ }
    have hkin := World.akin_denied ha.kindred.keyed hd leader
    show (world.process? leader).isSome = _
    cases hq : m.world.process? leader with
    | none => rw [hkin.eq_none hq]
    | some q =>
      obtain ⟨q', hq'⟩ := hkin.exists hq
      rw [hq']
      rfl

/-! ## The fork -/

/-- What the interpreter does when it forks a process for a job. -/
theorem Served.forks (hs : m₀.Served p₀ job m) (hw : m.Works m')
    (hnew : m'.world.nextPid ≠ m.world.nextPid) :
    ∃ p, m.process? = some p ∧
      m'.world = (m.world.fork p (Launch.leader m.env job.pipeline).run).2 ∧
      m'.shell.phase = .forked job m.world.nextPid ∧ m'.shell.handlers = [] := by
  have hk := hs.kindred.keyed
  cases hw with
  | @forks p pipeline next hp hneed =>
    obtain ⟨h0, job', hphase, -⟩ := Shell.fork_of_need hneed
    have hserves := hs.undisturbed.serves
    rw [show m.shell.phase = .guarded job' from hphase] at hserves
    cases hserves.of_guarded
    rw [Shell.need_of_guarded h0 hphase] at hneed
    obtain ⟨rfl, rfl⟩ := Need.fork.inj hneed
    exact ⟨p, hp, rfl, rfl, h0⟩
  | stands => exact absurd rfl hnew
  | takes => exact absurd (leaves_keep hk _).nextPid_eq hnew
  | suffers => exact absurd (World.leaves_takeSignal hk _ _).nextPid_eq hnew
  | moves => exact absurd (leaves_keep hk _).nextPid_eq hnew
  | acts hp ha hw => exact absurd hw.nextPid_eq hnew
  | changes hp hneed hw => exact absurd hw.leaves.nextPid_eq hnew
  | ends => exact absurd (World.leaves_finish hk _ _).nextPid_eq hnew

/-- The process that is forked: a child of the interpreter with its farewell, which starts with the
program of a leader. -/
theorem Served.exists_leader (hs : m₀.Served p₀ job m) (hw : m.Works m')
    (hnew : m'.world.nextPid ≠ m.world.nextPid) :
    ∃ p q, m.process? = some p ∧ m'.world.process? m.world.nextPid = some q ∧
      q.program = some (Launch.leader m.env job.pipeline).run ∧ q.farewell = p.farewell ∧
      q.parent = m.pid ∧
      (∀ p', m'.process? = some p' → p'.children = p.children.add m.world.nextPid) ∧
      m'.shell.phase = .forked job m.world.nextPid ∧ m'.shell.handlers = [] := by
  have hk := hs.kindred.keyed
  obtain ⟨p, hp, hworld, hphase, h0⟩ := hs.forks hw hnew
  have hpid := hk.pid_eq hp
  have hself : m.world.process? p.pid = some p := by rw [hpid]; exact hp
  have hne : p.pid ≠ m.world.nextPid := by
    rw [hpid]
    exact Int.ne_of_lt hs.kindred.known
  have hkin := World.kin?_fork hk hself hne (Launch.leader m.env job.pipeline).run
  have hown := World.own?_fork hk p (Launch.leader m.env job.pipeline).run m.world.nextPid
  rw [← hworld] at hkin hown
  rw [if_pos rfl] at hown
  obtain ⟨q, hq, hqown⟩ := Option.map_eq_some_iff.1 hown
  have hprogram := congrArg (fun o : Process => o.program) hqown
  have hfarewell := congrArg (fun o : Process => o.farewell) hqown
  refine ⟨p, q, hp, hq, hprogram, hfarewell, ?_, fun p' hp' => ?_, hphase, h0⟩
  · have hparent := hkin m.world.nextPid
    rw [if_pos rfl, World.kin?_eq_some hq, hpid] at hparent
    exact congrArg Prod.fst (Option.some.inj hparent)
  · have hsame := hkin p.pid
    rw [if_neg hne, if_pos rfl, hpid, ← hw.pid_eq, World.kin?_eq_some hp'] at hsame
    exact congrArg Prod.snd (Option.some.inj hsame)

/-- The process that the interpreter forks for a job is attended. -/
theorem Served.attended (hs : m₀.Served p₀ job m) (hm : m.Happens .works m')
    (hchild : p₀.signals.disposition Signal.child ≠ .ignored)
    (hnew : m'.world.nextPid ≠ m.world.nextPid) :
    m₀.Attended p₀ job m.world.nextPid [] m' := by
  have hk := hs.kindred.keyed
  have hknown := hs.kindred.known
  have hserved := hs.meets (.happens hm) rfl hchild
  have hw : m.Works m' := by cases hm with | works hw => exact hw
  have hbreeds : m.world.Breeds m.pid none m'.world := by
    cases hm with
    | works => exact breeds_works hk hknown
  -- Nobody has had a child with the number of the leader.
  have hnone (r : Pid) (q : Process) (hq : m.world.process? r = some q) (c : Child)
      (hmem : c ∈ q.children) : c.pid ≠ m.world.nextPid :=
    Int.ne_of_lt (hs.kindred.registered r q hq c hmem)
  have hrears : m.world.Rears fun r child => child = m.world.nextPid → r = m.pid :=
    fun r q hq c hmem heq => absurd heq (hnone r q hq c hmem)
  have hsole := hbreeds.rears hk hrears fun _ _ => rfl
  obtain ⟨p, q, hp, hq, hprogram, hfarewell, hparent, hchildren, hphase, h0⟩ :=
    hs.exists_leader hw hnew
  exact {
    kindred := hserved.kindred
    positive := Int.lt_trans hs.kindred.positive hknown
    other := by
      rw [hm.pid_eq]
      exact (Int.ne_of_lt hknown).symm
    known := Int.lt_iff_le_and_ne.2 ⟨(hm.grows hk hknown).nextPid, hnew.symm⟩
    travels := .going (.start _) (by rw [World.program?_eq_some hq, hprogram, hw.env_eq])
    undisturbed := hserved.undisturbed
    parts := .nil fun text htext => by
      rw [World.farewell_eq hq, hfarewell, hs.undisturbed.farewell hp] at htext
      exact htext
    sole := by
      rw [hm.pid_eq]
      exact hsole
    parent := fun p' q' _ hq' => by
      obtain rfl := Option.some.inj (hq.symm.trans hq')
      rw [hparent, hm.pid_eq]
    attends := fun p' hp' => by
      rw [hq]
      exact .forked (hserved.controlled p' hp') hphase h0 (hchildren p' hp') (hnone m.pid p hp) }

/-! ## The count of background jobs -/

/-- In this incident a pass of the interpreter lowers the count of background jobs. -/
def release (m : Machine) : Incident → Bool
  | .happens .works => m.process?.any fun p => (m.current p).releases &&
      m.step.1.shell.tracker.background ≠ m.shell.tracker.background
  | _ => false

/-- The number of background jobs that are released in the course of some incidents. -/
def released (m : Machine) : List Incident → Nat
  | [] => 0
  | i :: rest => (m.release i).toNat + (m.meet? i).elim 0 (released · rest)

theorem released_concat {m₁ : Machine} {is : List Incident} (i : Incident)
    (h : m.meets? is = some m₁) :
    m.released (is ++ [i]) = m.released is + (m₁.release i).toNat := by
  induction is generalizing m with
  | nil =>
    obtain rfl := Option.some.inj h
    show (m.release i).toNat + (m.meet? i).elim 0 (released · []) = 0 + _
    cases m.meet? i <;> exact (Nat.add_comm _ _).trans rfl
  | cons j rest ih =>
    obtain ⟨m₂, hfirst, hrest⟩ := Option.bind_eq_some_iff.1 h
    rw [List.cons_append, released, released, hfirst]
    dsimp only [Option.elim]
    rw [ih hrest, Nat.add_assoc]

/-- A step of the interpreter is one that it needs, or does nothing to the line and the tracker. -/
theorem Works.leads (hw : m.Works m') :
    m'.shell.phase = m.shell.phase ∧ m'.shell.tracker = m.shell.tracker ∨
      ∃ p, m.process? = some p ∧ (m.current p).need.Leads m'.shell := by
  cases hw with
  | stands | suffers | ends => exact .inl ⟨rfl, rfl⟩
  | takes hp hs =>
    obtain ⟨n, -, rfl⟩ := Option.map_eq_some_iff.1 hs
    exact .inl ⟨rfl, rfl⟩
  | moves hp hneed => exact .inr ⟨_, hp, by rw [hneed]; rfl⟩
  | forks hp hneed => exact .inr ⟨_, hp, by rw [hneed]; exact ⟨_, rfl⟩⟩
  | acts hp ha => exact .inr ⟨_, hp, ha.leads⟩
  | changes hp hneed => exact .inr ⟨_, hp, by rw [hneed]; exact ⟨_, rfl⟩⟩

/-- An incident notes the job, releases one, or leaves the count of background jobs as it is. -/
theorem Attended.background (ha : m₀.Attended p₀ job leader ds m) (hm : m.Meets i m')
    (hline : i.isLine = false) :
    m'.shell.tracker.background + (m.release i).toNat + m.shell.phase.counted job =
      m.shell.tracker.background + m'.shell.phase.counted job := by
  cases hm with
  | denied => rfl
  | happens hm =>
    cases hm with
    | line => cases hline
    | turn | sent | passes => rfl
    | @refused e p s hp hs =>
      rw [Shell.refused?_of_carries (ha.attends p hp).carries] at hs
      cases hs
    | works hw =>
      rcases hw.leads with ⟨hphase, htracker⟩ | ⟨p, hp, hlead⟩
      · have hnone : m.release (.happens .works) = false := by
          unfold release
          rw [htracker]
          cases m.process? <;> simp
        rw [hnone, hphase, htracker]
        rfl
      · have hcarries := (ha.attends p hp).carries
        obtain ⟨-, hcount⟩ := Shell.background_of_leads hcarries hlead
        have hrelease : m.release (.happens .works) = (m.current p).releases := by
          unfold release
          rw [hp, Option.any_some]
          cases hr : (m.current p).releases with
          | false => rfl
          | true =>
            have hsame := Shell.counted_of_releases job hr hlead
            rw [hr, hsame] at hcount
            have hfalls : m.step.1.shell.tracker.background ≠
                (m.current p).tracker.background := by
              simp only [Bool.toNat_true] at hcount
              omega
            exact decide_eq_true hfalls
        rw [hrelease]
        exact hcount

end Machine

end JobShell
