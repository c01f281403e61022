import JobShell.Proofs.Isolation.Alone
import JobShell.Proofs.Isolation.Groups

/-!
# The processes of a job

* `Machine.launches`: the processes that the interpreter forks in the course of some incidents.
* `Machine.Teamed`: a job has one process for each of its stages, forked by its leader, and one group
  for all of them.
* `Machine.Led`: the interpreter forks the leader and nobody else, and the leader is the one it waits
  for or tells of.
* `Machine.forms_one_group`: so it is, whichever side is first after each fork.
-/

namespace JobShell.Machine

variable {m m' m₀ m₁ m₂ : Machine} {p p₀ p₁ q : Process} {i : Incident} {is pre : List Incident}
  {leader pid r : Pid} {job : Job} {ds : Doings} {line : Bytes}

/-- The process that the interpreter forks in an incident. -/
def launch? (m : Machine) : Incident → Option Pid
  | .happens .works =>
    if m.step.1.world.nextPid = m.world.nextPid then none else some m.world.nextPid
  | _ => none

/-- The processes that the interpreter forks in the course of some incidents. -/
def launches (m : Machine) : List Incident → List Pid
  | [] => []
  | i :: rest => (m.launch? i).toList ++ (m.meet? i).elim [] (launches · rest)

theorem launches_append (is' : List Incident) (h : m.meets? is = some m₁) :
    m.launches (is ++ is') = m.launches is ++ m₁.launches is' := by
  induction is generalizing m with
  | nil =>
    obtain rfl := Option.some.inj h
    rfl
  | cons i rest ih =>
    obtain ⟨m₂, hfirst, hrest⟩ := Option.bind_eq_some_iff.1 h
    rw [List.cons_append, launches, launches, hfirst]
    dsimp only [Option.elim]
    rw [ih hrest, List.append_assoc]

theorem launches_concat (hpre : m.meets? is = some m₁) (h : m₁.launch? i = none) :
    m.launches (is ++ [i]) = m.launches is := by
  rw [launches_append [i] hpre, launches, h]
  cases m₁.meet? i <;> exact List.append_nil _

/-- While the line of a job is carried out that has a leader, no other is forked. -/
theorem Attended.launch?_eq_none (ha : m₀.Attended p₀ job leader ds m) (i : Incident) :
    m.launch? i = none := by
  unfold launch?
  split
  · refine if_pos (by_contra fun hnew => ?_)
    have hk := ha.kindred.keyed
    obtain ⟨p, pipeline, next, hp, hneed, -⟩ := (works_step hk).forks_of_nextPid hk hnew
    obtain ⟨-, j, hphase, -⟩ := Shell.fork_of_need hneed
    have hcarries := (ha.attends p hp).carries
    rw [hphase] at hcarries
    exact hcarries
  · rfl

theorem Attended.launches (ha : m₀.Attended p₀ job leader [] m)
    (hchild : p₀.signals.disposition Signal.child ≠ .ignored)
    (his : ∀ i ∈ is, i.isLine = false) (h : m.meets? is = some m') : m.launches is = [] := by
  refine meets?_induction
    (P := fun is _ => (∀ i ∈ is, i.isLine = false) → m.launches is = []) (fun _ => rfl) ?_ h his
  intro is i m₁ m₂ hpre hnil hm his
  rw [List.forall_mem_append] at his
  have hat := (ha.course hchild his.1 hpre).1
  rw [launches_concat hpre (hat.launch?_eq_none i), hnil his.1]

/-- Until the leader of its job is forked, a line has forked nobody. -/
theorem Served.launches (hs : m₀.Served p₀ job m)
    (hchild : p₀.signals.disposition Signal.child ≠ .ignored)
    (his : ∀ i ∈ is, i.isLine = false) (h : m.meets? is = some m')
    (hfork : m'.step.1.world.nextPid ≠ m'.world.nextPid) : m.launches is = [] := by
  have hcourse : m₀.Served p₀ job m' ∧ m.launches is = [] ∨
      ∃ leader ds, m₀.Attended p₀ job leader ds m' := by
    refine meets?_induction
      (P := fun is m' => (∀ i ∈ is, i.isLine = false) →
        m₀.Served p₀ job m' ∧ m.launches is = [] ∨ ∃ leader ds, m₀.Attended p₀ job leader ds m')
      (fun _ => .inl ⟨hs, rfl⟩) ?_ h his
    intro is i m₁ m₂ hpre hm₁ hm his
    rw [List.forall_mem_append] at his
    have hline := his.2 i List.mem_cons_self
    rcases hm₁ his.1 with ⟨hserved, hnil⟩ | ⟨leader, ds, hat⟩
    · have hmeets := meets_of_meet? hserved.kindred.keyed hm
      cases hlaunch : m₁.launch? i with
      | none =>
        exact .inl ⟨hserved.meets hmeets hline hchild,
          (launches_concat hpre hlaunch).trans hnil⟩
      | some pid =>
        unfold launch? at hlaunch
        split at hlaunch
        · split at hlaunch
          · cases hlaunch
          · rename_i hnew
            cases hmeets with
            | happens hm =>
              have hstep : m₂ = m₁.step.1 := by cases hm with | works => rfl
              exact .inr ⟨_, _, hserved.attended hm hchild (hstep ▸ hnew)⟩
        · cases hlaunch
    · exact .inr ⟨leader, _, hat.meets (meets_of_meet? hat.kindred.keyed hm) hline hchild⟩
  rcases hcourse with ⟨-, hnil⟩ | ⟨leader, ds, hat⟩
  · exact hnil
  · have hnone := hat.launch?_eq_none (.happens .works)
    unfold launch? at hnone
    rw [if_neg hfork] at hnone
    cases hnone

/-! ## Stages and processes -/

/-- The processes of a job, its leader having been forked before these incidents. -/
structure Teamed (m : Machine) (env : List Bytes) (pipeline : Pipeline) (leader : Pid)
    (is : List Incident) (m' : Machine) : Prop where
  /-- The leader forks processes for the stages but the last, in their order, and these fork nobody
  before they have become their programs. -/
  crew : ∀ k child q, (m.doings leader is).forks[k]? = some (child, q) →
    ∃ stage r w, pipeline.stages[k]? = some stage ∧ k + 1 < pipeline.stages.length ∧
      child = (Launch.upstream env stage r w).run ∧ q ≠ leader ∧ (m.doings q is).forks = []
  /-- When it comes to execute a program, it has forked one for each. -/
  whole : (∃ d ∈ m.doings leader is, d.executes) →
    (m.doings leader is).forks.length + 1 = pipeline.stages.length
  /-- It comes so far, unless something is refused to it, or a signal ends it or has it take its
  leave. -/
  comes : (∀ d ∈ m.doings leader is, ¬d.IsRefused) →
    (∀ r ∈ pipeline.redirect, 0 ∉ Bytes.ofString r.target) →
    (∃ d ∈ m.doings leader is, d.isLast ∧ d.isCutShort = false) →
    (m.doings leader is).forks.length + 1 = pipeline.stages.length
  /-- Given turns, it does its last, if it goes on. -/
  finishes : ∃ n m₂, m.meets? (is ++ List.replicate n (.happens (.turn leader))) = some m₂ ∧
    ((m.doings leader (is ++ List.replicate n (.happens (.turn leader)))).any Doing.isLast ∨
      m₂.world.Stuck leader)
  /-- It executes the program of the last stage. -/
  last : ∃ stage, pipeline.stages.getLast? = some stage ∧
    (m.doings leader is).Faithful (Search.files env (Launch.arguments stage))
      (Launch.arguments stage) none
  /-- Once either side has moved it, it is in a group of its own; if it has taken its leave before, it
  is gone. -/
  group : (m.doings leader is ≠ [] ∨ ∀ j, m'.shell.phase ≠ .forked j leader) →
    ∀ q, m'.world.process? leader = some q → q.group = leader
  /-- That is not the interpreter's. -/
  apart : ∀ p, m'.process? = some p → p.group ≠ leader
  /-- Where one of them becomes its program, it is in that group. -/
  starts : ∀ i m'', m'.meet? i = some m'' → ∀ r,
    (r = leader ∨ ∃ child, (child, r) ∈ (m.doings leader is).forks) →
    (m.doings r is).any Doing.isStart = false →
    ∀ path args env, m'.doing? r i = some (.executed path args env) →
      ∃ q, m''.world.process? r = some q ∧ q.group = leader

theorem length_forks (ds : Doings) : ds.forks.length = ds.starts.length := by
  rw [← Doings.map_fst_forks, List.length_map]

/-- Where a process of the job becomes its program, it is in the leader's group. -/
theorem Grouped.starts (hg : m₀.Grouped p₀ p₁ job leader m is m₁)
    (hstart : m.Runs leader (Launch.leader m.env job.pipeline).run [])
    (hpre : m.meets? is = some m₁) (hm : m₁.Meets i m₂)
    (hr : r = leader ∨ ∃ child, (child, r) ∈ (m.doings leader is).forks)
    (hidle : (m.doings r is).any Doing.isStart = false) {path : Bytes} {args env : List Bytes}
    (hd : m₁.doing? r i = some (.executed path args env)) :
    ∃ q, m₂.world.process? r = some q ∧ q.group = leader := by
  have hk := hg.runs.kindred
  have hturn : i = .happens (.turn r) ∧ m₁.world.doing? r = some (.executed path args env) := by
    rcases of_doing? hd with h | ⟨e, -, hdenied⟩
    · exact h
    · cases hdenied
  have hleaves : m.Leaves leader is m₁ i := by
    obtain ⟨rfl, hturn⟩ := hturn
    intro r' group hmove
    have hmove : (m₁.world.doing? r).bind (Doing.move? r) = some (r', group) := hmove
    rw [hturn] at hmove
    cases hmove
  obtain ⟨q, hq⟩ : ∃ q, m₂.world.process? r = some q := by
    obtain ⟨rfl, hturn⟩ := hturn
    obtain ⟨q₁, hq₁⟩ : ∃ q, m₁.world.process? r = some q := by
      refine Option.ne_none_iff_exists'.1 fun hnone => ?_
      rw [World.doing?_of_none hnone] at hturn
      cases hturn
    have hw : m₂.world = (m₁.world.step r).1 := by
      cases hm with | happens hm => cases hm with | turn => rfl
    rw [hw]
    refine Option.ne_none_iff_exists'.1 fun hgone => ?_
    obtain ⟨w₁, p₁, e, hending, -⟩ := World.ends_of_gone hk.keyed (hk.given r q₁ hq₁) hq₁ hgone
    unfold World.ending? at hending
    rw [hturn] at hending
    cases hending
  refine ⟨q, hq, ?_⟩
  rcases hr with rfl | ⟨child, hmem⟩
  · have hne := hg.runs.ne_nil hm hd (.inr rfl)
    exact hg.group_of_meets hm hleaves (.inl rfl) hg.runs.known (hg.leads (.inl hne)) hq
  · exact hg.group_of_meets hm hleaves (.inr ⟨⟨child, hmem⟩, hidle⟩)
      (hstart.crew hpre hmem).2.known (hg.crew child r · hmem hidle) hq

/-- A leader that has taken its leave has executed nothing, and has done its last with it. -/
theorem of_parted {text? : Option Bytes} {files argv : List Bytes} (h : Launch.Parted text? ds) :
    (∀ d ∈ ds, d.executes = false) ∧ (∀ d ∈ ds, d.isLast → d.isCutShort) ∧
      ds.Faithful files argv none := by
  obtain ⟨text, reply, -, rfl | ⟨grouped, rfl⟩⟩ := h
  · simp [Doing.executes, Doing.isLast, Doing.isCutShort, Doings.Faithful, Doing.attempt?]
  · simp [Doing.executes, Doing.isLast, Doing.isCutShort, Doings.Faithful, Doing.attempt?]

/-- The leader forks a process for each of the other stages before it executes a program, and executes
that of its own. -/
theorem Fares.leads {env : List Bytes} {text? : Option Bytes} {child : Act} {refused : Prop}
    {ss : List Stage} {stage : Stage} (hf : m.Fares env leader child text? ss refused stage is m') :
    ((∃ d ∈ m.doings leader is, d.executes) →
      (m.doings leader is).forks.length + 1 = ss.length) ∧
    ((∀ d ∈ m.doings leader is, ¬d.IsRefused) → ¬refused →
      (∃ d ∈ m.doings leader is, d.isLast ∧ d.isCutShort = false) →
      (m.doings leader is).forks.length + 1 = ss.length) ∧
    (m.doings leader is).Faithful (Search.files env (Launch.arguments stage))
      (Launch.arguments stage) none := by
  rcases hf.manned with hmanned | hparted
  · have hmans := hmanned.mans
    rw [← length_forks] at hmans
    refine ⟨fun ⟨d, hmem, hx⟩ => (hmans.ready d hmem hx).1, ?_, hmans.faithful⟩
    rintro hfree hnamed ⟨d, hmem, hl, hcut⟩
    cases hmans.fate d hmem hl with
    | killed hkilled =>
      rcases hf.runs.travels.path_or with ⟨o, hpath⟩ | ⟨_, front, text, reply, _, hds⟩
      · have heq := Option.some.inj ((hpath.of_isLast hmem hl).1.symm.trans hkilled)
        rw [heq] at hcut
        cases hcut
      · rw [hds, List.getLast?_concat] at hkilled
        cases hkilled
    | becomes _ hall => exact hall
    | fails _ _ _ hwhy =>
      rcases hwhy with (hnul | ⟨e, he, hrefused⟩) | ⟨hall, -⟩
      · exact absurd hnul hnamed
      · exact absurd hrefused (hfree e he)
      · exact hall
  · obtain ⟨hidle, hcut, hfaithful⟩ := of_parted hparted
    refine ⟨fun ⟨d, hmem, hx⟩ => ?_, fun _ _ ⟨d, hmem, hl, hwhole⟩ => ?_, hfaithful⟩
    · cases (hidle d hmem).symm.trans hx
    · cases (hcut d hmem hl).symm.trans hwhole

theorem Grouped.teamed {text? : Option Bytes} (hg : m₀.Grouped p₀ p₁ job leader m is m')
    (hl : Launched job.pipeline leader [] m) (hparts : m.world.Parts leader text? [])
    (hss : job.pipeline.stages ≠ []) (hnew : p₁.group ≠ leader) (h : m.meets? is = some m') :
    m.Teamed m.env job.pipeline leader is m' := by
  obtain ⟨⟨stage, hlast, hfares⟩, hcrew⟩ := hl.crewed hparts hss h
  obtain ⟨hwhole, hcomes, hfaithful⟩ := hfares.leads
  refine ⟨fun k child q hk => ?_, hwhole, fun hfree hnamed => hcomes hfree ?_, hfares.finishes,
    ⟨stage, hlast, hfaithful⟩, hg.leads, fun p hp => ?_, ?_⟩
  · obtain ⟨stage, r, w, hstage, hlt, hchild, hne, hq⟩ := hcrew k child q hk
    refine ⟨stage, r, w, hstage, hlt, hchild, hne, List.eq_nil_of_length_eq_zero ?_⟩
    obtain ⟨ends, hfewer, hstarts⟩ := (hq.manned.resolve_right (nomatch ·)).starts
    have hnil : ends = [] := List.length_eq_zero_iff.1 (Nat.lt_one_iff.1 hfewer)
    rw [length_forks, hstarts, hnil, List.zipWith_nil_right]
    rfl
  · rintro ⟨r, hr, hnul⟩
    exact hnamed r hr hnul
  · rw [show p.group = p₁.group from congrArg Prod.fst (hg.interpreter p hp)]
    exact hnew
  · intro i m'' hm r hr hidle path args env hd
    exact hg.starts hl.runs h (meets_of_meet? hg.runs.kindred.keyed hm) hr hidle hd

/-- So it is with the job whose leader a line forks. -/
theorem Served.teamed (hs : m₀.Served p₀ job m) (hss : job.pipeline.stages ≠ [])
    (hchild : p₀.signals.disposition Signal.child ≠ .ignored)
    (hfork : m.step.1.world.nextPid ≠ m.world.nextPid)
    (hnew : ∀ r q, m.world.process? r = some q → q.group ≠ m.world.nextPid)
    (h : m.step.1.meets? is = some m') (hun : m.step.1.Unmoved m.world.nextPid is) :
    m.step.1.Teamed m.env job.pipeline m.world.nextPid is m' := by
  have hworks : m.Works m.step.1 := works_step hs.kindred.keyed
  obtain ⟨p₁, hp₁, -⟩ := hs.forks hworks hfork
  have hattended := hs.attended (.works hworks) hchild hfork
  have hgrouped := (hs.grouped (.works hworks) hp₁ hchild hfork).course hchild hun h
  rw [← hworks.env_eq]
  exact hgrouped.teamed hattended.toLaunched hattended.parts hss (hnew _ _ hp₁) h

/-! ## The interpreter -/

/-- What the interpreter has to do with the leader of a job, before the next line. -/
structure Led (m : Machine) (is : List Incident) (job : Job) (leader : Pid) (m' : Machine) :
    Prop where
  /-- It has forked nobody else. -/
  alone : m.launches is = [leader]
  /-- This is the process that is noted as the foreground job. -/
  slot : ∀ p pid, m'.process? = some p → m'.shell.tracker.foreground = some pid → pid = leader
  waits : ∀ p pid, m'.process? = some p → m'.shell.phase = .waiting pid →
    pid = leader ∧ m'.shell.tracker.foreground = some leader
  /-- And this is the number that it tells, behind what its standard output keeps. -/
  announces : ∀ p text next, m'.process? = some p → m'.shell.handlers = [] →
    (m'.current p).need = .write text next →
      job.background = true ∧ text = m'.shell.kept ++ Shell.lineOf (toString leader)

theorem Attended.led {all : List Incident} (ha : m₀.Attended p₀ job leader ds m')
    (halone : m.launches all = [leader]) : m.Led all job leader m' := by
  refine ⟨halone, fun p pid hp => (ha.attends p hp).aims.slot pid, fun p pid hp hphase => ?_,
    fun p text next hp h0 hneed => ?_⟩
  · have hat := ha.attends p hp
    have hslots := hat.controlled.slots
    have hcarries := hat.carries
    rw [show (m'.current p).phase = .waiting pid from hphase] at hslots hcarries
    obtain ⟨-, rfl⟩ := hcarries
    exact ⟨rfl, hslots⟩
  · have hcarries := (ha.attends p hp).carries
    rcases Shell.write_of_need hneed with ⟨-, line, hline, rfl, -⟩ | ⟨rest, hhandlers, -⟩
    · rcases Phase.of_line? hline with ⟨pid, hphase⟩ | hphase <;> rw [hphase] at hcarries hline
      · obtain ⟨hbg, rfl⟩ := hcarries
        exact ⟨hbg, congrArg (m'.shell.kept ++ ·) (Option.some.inj hline).symm⟩
      · exact hcarries.elim
    · cases hhandlers.symm.trans h0

/-- Between lines, with SIGCHLD let through and no foreground job, the interpreter is given a line
that launches a job; whatever happens before it forks a process, whose number is not that of a group,
and whatever happens then: the leader forks the other processes of the job, all are in its group when
they become their programs, and it is the one that the interpreter goes by. -/
theorem forms_one_group (hm : m.Settled p) (hline : Request.ofLine line = .ok (.launch job))
    (hpre : ∀ i ∈ pre, i.isLine = false) (hreach : (m.begin line).meets? pre = some m₁)
    (hfork : m₁.step.1.world.nextPid ≠ m₁.world.nextPid)
    (hnew : ∀ r q, m₁.world.process? r = some q → q.group ≠ m₁.world.nextPid)
    (hcourse : m₁.step.1.meets? is = some m₂) (hun : m₁.step.1.Unmoved m₁.world.nextPid is) :
    m₁.step.1.Teamed m.env job.pipeline m₁.world.nextPid is m₂ ∧
      ((∀ i ∈ is, i.isLine = false) →
        (m.begin line).Led (pre ++ .happens .works :: is) job m₁.world.nextPid m₂) := by
  have hbegin := hm.served hline
  have hserved := hbegin.course hm.heeds hpre hreach
  refine ⟨?_, fun his => ?_⟩
  · rw [← show m₁.env = m.env from (env_eq_of_meets? hbegin.kindred hreach).2]
    exact hserved.teamed (Request.wellFormed_of_launch hline).1 hm.heeds hfork hnew hcourse hun
  · have hattended := hserved.attended (.works (works_step hserved.kindred.keyed)) hm.heeds hfork
    refine (hattended.course hm.heeds his hcourse).1.led ?_
    have hstep : m₁.meet? (.happens .works) = some m₁.step.1 := rfl
    rw [launches_append _ hreach, hbegin.launches hm.heeds hpre hreach hfork, launches, hstep,
      launch?, if_neg hfork]
    exact congrArg (m₁.world.nextPid :: ·) (hattended.launches hm.heeds his hcourse)

def pairedLine : Bytes := Bytes.ofString "/a | /a"

/-- The interpreter is about to fork the leader. -/
def pairedStart : Machine := (spareMachine.begin pairedLine).step.1

/-- The leader makes its group first, and the process that it forks becomes its program before it
does. -/
def pairedCourse : List Incident :=
  List.replicate 8 (.happens (.turn 11)) ++ List.replicate 4 (.happens (.turn 12)) ++
    List.replicate 3 (.happens .works) ++ List.replicate 3 (.happens (.turn 11))

theorem forms_one_group_pairedLine : ∃ m₂,
    pairedStart.step.1.meets? pairedCourse = some m₂ ∧
    pairedStart.step.1.Teamed [] ⟨[["/a"], ["/a"]], none⟩ 11 pairedCourse m₂ ∧
    (spareMachine.begin pairedLine).Led ([.happens .works] ++ .happens .works :: pairedCourse)
      ⟨⟨[["/a"], ["/a"]], none⟩, false⟩ 11 m₂ ∧
    (pairedStart.step.1.doings 11 pairedCourse).any Doing.isStart ∧
    (m₂.world.process? 12).map (·.group) = some 11 := by
  obtain ⟨p, hm⟩ := settled_spareMachine
  have hline : Request.ofLine pairedLine = .ok (.launch ⟨⟨[["/a"], ["/a"]], none⟩, false⟩) := by
    decide +kernel
  have hreach : (spareMachine.begin pairedLine).meets? [.happens .works] = some pairedStart := rfl
  have hnext : pairedStart.world.nextPid = 11 := by decide +kernel
  have hgroup : (pairedStart.step.1.meets? pairedCourse).map
      (fun m => (m.world.process? 12).map (·.group)) = some (some 11) := by decide +kernel
  obtain ⟨m₂, hcourse, hgroup⟩ := Option.map_eq_some_iff.1 hgroup
  -- nobody is moved but the leader, by itself
  have hmoves : ∀ k < 18, (pairedStart.step.1.meets? (pairedCourse.take k)).all fun m =>
      m.pid = 10 ∧ ((pairedCourse[k]?).bind m.move?).all (· = (11, 11)) := by decide +kernel
  have hun : pairedStart.step.1.Unmoved pairedStart.world.nextPid pairedCourse := by
    intro pre i post m₁ heq hpre r group hmove
    have hlt : pre.length < 18 := by
      have hlength := congrArg List.length heq
      rw [List.length_append, List.length_cons, show pairedCourse.length = 18 from rfl] at hlength
      omega
    have hhead : pairedCourse[pre.length]? = some i := by
      rw [heq, List.getElem?_append_right (Nat.le_refl _), Nat.sub_self]
      rfl
    have htake : pairedCourse.take pre.length = pre := by
      rw [heq]
      exact List.take_left' rfl
    have hx := hmoves pre.length hlt
    rw [htake, hpre, hhead] at hx
    obtain ⟨hpid, hmoved⟩ := of_decide_eq_true hx
    rw [Option.bind_some, hmove] at hmoved
    obtain ⟨rfl, rfl⟩ := Prod.mk.inj (of_decide_eq_true hmoved)
    rw [hnext, hpid]
    exact ⟨by decide, fun hne => absurd rfl hne⟩
  have hgroups : pairedStart.world.processes.toList.all (·.2.group ≠ 11) := by decide +kernel
  have hfresh (r : Pid) (q : Process) (hq : pairedStart.world.process? r = some q) :
      q.group ≠ pairedStart.world.nextPid := by
    rw [hnext]
    exact of_decide_eq_true (World.of_all_processes (f := (·.group ≠ 11)) hgroups hq)
  obtain ⟨hteamed, hled⟩ := forms_one_group hm hline (by decide) hreach (by decide +kernel) hfresh
    hcourse hun
  rw [hnext] at hteamed hled
  exact ⟨m₂, hcourse, hteamed, hled (by decide), by decide +kernel, hgroup⟩

end JobShell.Machine
