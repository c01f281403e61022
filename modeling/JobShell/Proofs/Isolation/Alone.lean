import JobShell.Proofs.Isolation.Advance
import JobShell.Proofs.Isolation.Told
import JobShell.Proofs.Line.Delivery
import JobShell.Proofs.Line.RoundTrip

/-!
# A stage that cannot be executed fails alone

* `World.Answers`: what the system answers to a process that tries to execute a file.
* `Machine.Fares`: how the process of a stage fares, whatever becomes of the others.
* `Machine.Crewed`: so fare the leader of a job and all processes that it has forked.
* `Machine.Attained`: what the interpreter makes of a foreground job, for which its leader alone
  matters.
* `Machine.stages_fail_alone`: so it is, whatever happens while the job is launched and after it.
-/

namespace JobShell

theorem Request.wellFormed_of_launch {line : Bytes} {job : Job}
    (h : Request.ofLine line = .ok (.launch job)) : job.pipeline.WellFormed := by
  unfold Request.ofLine at h
  cases hd : decodeLine line with
  | error e =>
    rw [hd] at h
    cases h
  | ok text =>
    rw [hd] at h
    exact (Job.ofWords_eq_ok_iff.1 (Request.ofWords_of_launch h)).1

namespace World

variable {w : World} {pid : Pid} {path : Bytes} {args env : List Bytes} {e : Errno}

/-- Asked by a process that has taken its signals to execute a file, the system does, or refuses
it. -/
def Answers (w : World) (pid : Pid) (path : Bytes) (args env : List Bytes)
    (answer : Except Errno Unit) : Prop :=
  ∃ p, (w.takeSignals signalCount pid).process? pid = some p ∧
    ((w.takeSignals signalCount pid).program p path args env).map (fun _ => ()) = answer

theorem exists_of_doing? {d : Doing} (h : w.doing? pid = some d) (hd : d ≠ .killed)
    (hleaves : ∀ text reply, d ≠ .interrupted text reply) :
    ∃ p, (w.takeSignals signalCount pid).process? pid = some p ∧
      (w.takeSignals signalCount pid).calls? p = some d := by
  unfold doing? at h
  dsimp only at h
  split at h
  · obtain ⟨-, -, rfl⟩ := Option.map_eq_some_iff.1 h
    exact absurd rfl hd
  · rename_i p hp
    split at h
    · cases h
    unfold does? at h
    split at h
    · split at h <;> cases h
      exact absurd rfl (hleaves _ _)
    · exact ⟨p, hp, h⟩

/-- A process tries to execute a program: the system finds it or refuses it. -/
theorem program_of_calls? {p : Process} {d : Doing} (h : w.calls? p = some d) :
    (∀ path args env, d = .executed path args env → ∃ x, w.program p path args env = .ok x) ∧
      ∀ path args env e, d = .called (.exec path args env) e →
        w.program p path args env = .error e := by
  unfold calls? at h
  split at h
  · cases h
  · cases h
    exact ⟨nofun, nofun⟩
  · cases h
    exact ⟨nofun, nofun⟩
  · rename_i c next _
    split at h
    · rename_i w' reply hdone
      cases h
      refine ⟨nofun, fun path args env e heq => ?_⟩
      cases heq
      change w.exec p path args env = .done w' e at hdone
      unfold exec at hdone
      split at hdone <;> cases hdone
      assumption
    · rename_i w' hbecome
      split at h
      · rename_i path args env _ _ _
        cases h
        change w.exec p path args env = .become w' at hbecome
        unfold exec at hbecome
        split at hbecome <;> cases hbecome
        refine ⟨fun path args env heq => ?_, nofun⟩
        cases heq
        exact ⟨_, ‹_›⟩
      · cases h
    · split at h
      · rename_i reply _ hreply _
        cases h
        refine ⟨nofun, fun path args env e heq => ?_⟩
        cases heq
        cases hreply
      · cases h

/-- A program takes the place of a process just if the system finds it. -/
theorem answers_of_executed (h : w.doing? pid = some (.executed path args env)) :
    w.Answers pid path args env (.ok ()) := by
  obtain ⟨p, hp, hdoes⟩ := exists_of_doing? h nofun nofun
  obtain ⟨x, hx⟩ := (program_of_calls? hdoes).1 path args env rfl
  exact ⟨p, hp, by rw [hx]; rfl⟩

theorem answers_of_refused (h : w.doing? pid = some (.called (.exec path args env) e)) :
    w.Answers pid path args env (.error e) := by
  obtain ⟨p, hp, hdoes⟩ := exists_of_doing? h nofun nofun
  have he := (program_of_calls? hdoes).2 path args env e rfl
  exact ⟨p, hp, by rw [he]; rfl⟩

end World

namespace Machine

variable {m m' m₀ m₁ m₂ : Machine} {p p₀ : Process} {is pre : List Incident} {leader q : Pid}
  {job : Job} {ss : List Stage} {stage : Stage} {unnamed : Prop} {line : Bytes} {child : Act}
  {env : List Bytes} {text? : Option Bytes}

/-- What becomes of a process in the course of some incidents that was forked to wire itself for
these stages and to become the last of them, with this farewell. -/
structure Fares (m : Machine) (env : List Bytes) (q : Pid) (child : Act) (text? : Option Bytes)
    (ss : List Stage) (unnamed : Prop) (stage : Stage) (is : List Incident) (m' : Machine) :
    Prop where
  /-- It goes on with what is left of the program it was forked for. -/
  runs : m'.Runs q child (m.doings q is)
  /-- It executes the program of its stage with the arguments of that stage, or reports why not, once,
  and exits with 1, or a signal ends it. If it has a farewell, it may take its leave before all
  this. -/
  manned : Launch.Manned env ss unnamed stage (m.doings q is) ∨
    Launch.Parted text? (m.doings q is)
  /-- The system executes what it finds, and refuses it what it does not find. -/
  answers : m.Throughout (fun m₁ i _ => ∀ path args env,
    (m₁.doing? q i = some (.executed path args env) → m₁.world.Answers q path args env (.ok ())) ∧
    ∀ e, m₁.doing? q i = some (.called (.exec path args env) e) →
      m₁.world.Answers q path args env (.error e)) is
  /-- Where it is killed, a signal that ends it has waited for it. -/
  killed : m.Throughout (fun m₁ i _ => m₁.doing? q i = some .killed → m₁.world.Doomed q) is
  /-- Where it takes its leave, a SIGINT has reached it. -/
  interrupted : m.Throughout (fun m₁ i _ => ∀ text reply,
    m₁.doing? q i = some (.interrupted text reply) → m₁.world.Alarmed q text) is
  /-- Once it has done its last and has become no program, it is gone. -/
  gone : (∀ d ∈ m.doings q is, d.isStart = false) → (∃ d ∈ m.doings q is, d.isLast) →
    m'.world.process? q = none
  /-- Given turns, it does its last, if it goes on. -/
  finishes : ∃ n m₂, m.meets? (is ++ List.replicate n (.happens (.turn q))) = some m₂ ∧
    ((m.doings q (is ++ List.replicate n (.happens (.turn q)))).any Doing.isLast ∨
      m₂.world.Stuck q)

theorem Runs.fares (hk : m.Kindred) (h : m.meets? is = some m')
    (hr : m'.Runs q child (m.doings q is))
    (hman : ∀ ds o, child.Path ds o → Launch.Manned env ss unnamed stage ds)
    (hleft : (∃ o, child.Path (m.doings q is) o) ∨ Launch.Parted text? (m.doings q is)) :
    m.Fares env q child text? ss unnamed stage is m' where
  runs := hr
  manned := by
    rcases hleft with ⟨o, hpath⟩ | hparted
    · exact .inl (hman _ o hpath)
    · exact .inr hparted
  answers := throughout_of_kindred hk fun m₁ i m₂ hk₁ hm path args env => by
    refine ⟨fun hd => ?_, fun e hd => ?_⟩
    · rcases of_doing? hd with ⟨-, hturn⟩ | ⟨e, -, hdenied⟩
      · exact World.answers_of_executed hturn
      · cases hdenied
    · rcases of_doing? hd with ⟨-, hturn⟩ | ⟨e, -, hdenied⟩
      · exact World.answers_of_refused hturn
      · cases hdenied
  killed := throughout_of_kindred hk fun m₁ i m₂ hk₁ _ hd => doomed_of_doing? hk₁ hd
  interrupted := throughout_of_kindred hk fun m₁ i m₂ hk₁ _ _ _ hd => alarmed_of_doing? hk₁ hd
  gone hidle := by
    rintro ⟨d, hd, hl⟩
    cases hr.travels with
    | going hpath => cases (hpath.of_isLast hd hl).2
    | finished hpath hlast hgone =>
      obtain rfl := Option.some.inj ((hpath.of_isLast hd hl).1.symm.trans hlast)
      refine hgone ?_
      have hstart := hidle d hd
      cases d with
      | executed => cases hstart
      | called => cases hl
      | _ => rfl
    | left _ _ hgone => exact hgone
  finishes := hr.finishes (.of_forall fun ds o hpath => (hman ds o hpath).mans.isPrompt) h

/-- How the leader of a job and all processes that it has forked have fared. -/
structure Crewed (m : Machine) (env : List Bytes) (pipeline : Pipeline) (text? : Option Bytes)
    (leader : Pid) (is : List Incident) (m' : Machine) : Prop where
  /-- The leader becomes the last stage. -/
  leads : ∃ stage, pipeline.stages.getLast? = some stage ∧
    m.Fares env leader (Launch.leader env pipeline).run text? pipeline.stages
      (∃ r ∈ pipeline.redirect, 0 ∈ Bytes.ofString r.target) stage is m'
  /-- It has forked processes for the others, in the order of the stages. None of them has a
  farewell. -/
  crew : ∀ k child q, (m.doings leader is).forks[k]? = some (child, q) →
    ∃ stage r w, pipeline.stages[k]? = some stage ∧ k + 1 < pipeline.stages.length ∧
      child = (Launch.upstream env stage r w).run ∧ q ≠ leader ∧
      m.Fares env q child none [stage] False stage is m'

/-- Nobody is forked by a leader that has taken its leave. -/
theorem forks_of_parted {ds : Doings} (h : Launch.Parted text? ds) : ds.forks = [] := by
  obtain ⟨text, reply, -, rfl | ⟨grouped, rfl⟩⟩ := h <;> rfl

theorem Launched.crewed {pipeline : Pipeline} (hl : Launched pipeline leader [] m)
    (hp : m.world.Parts leader text? []) (hss : pipeline.stages ≠ [])
    (h : m.meets? is = some m') : m.Crewed m.env pipeline text? leader is m' := by
  have hlast := List.getLast?_eq_some_getLast hss
  have hpath := (hl.course h).path_or (hl.runs.parts hp h)
  rw [(env_eq_of_meets? hl.kindred h).2] at hpath
  have hfares := hl.runs.course h |>.fares hl.kindred h
    (fun ds o => Launch.manned_leader hlast) hpath
  refine ⟨⟨_, hlast, hfares⟩, fun k child q hk => ?_⟩
  obtain ⟨ends, hfewer, hstarts⟩ := (hfares.manned.resolve_right fun hparted => by
    rw [forks_of_parted hparted] at hk
    cases hk).starts
  obtain ⟨hne, hq⟩ := hl.runs.crew h (List.mem_of_getElem? hk)
  have hparts := hl.runs.crew_parts hp
    (fun ds o child q hpath hmem => Launch.resets_of_forked hpath hmem) h (List.mem_of_getElem? hk)
  have hleft : ∃ o, child.Path (m.doings q is) o := by
    refine hq.travels.path_or.resolve_right fun ⟨_, front, text, reply, _, hds⟩ => ?_
    cases (hparts.left text reply (hds ▸ List.mem_concat_self)).1
  have hchild : (m.doings leader is).starts[k]? = some child := by
    rw [← Doings.map_fst_forks, List.getElem?_map, hk]
    rfl
  rw [hstarts, List.getElem?_zipWith_eq_some] at hchild
  obtain ⟨stage, ⟨r, w⟩, hstage, hend, rfl⟩ := hchild
  have hlt := (List.getElem?_eq_some_iff.1 hend).1
  exact ⟨stage, r, w, hstage, by omega, rfl, Int.ne_of_gt hne,
    hq.fares hl.kindred h (fun ds o => Launch.manned_upstream) (.inl hleft)⟩

/-- When the line of a foreground job is over, its leader is gone, and how that has ended is the last
status, if it is a status at all. -/
structure Attained (m : Machine) (text? : Option Bytes) (leader : Pid) (is : List Incident)
    (m' : Machine) (r : LineResult) : Prop where
  gone : m'.world.process? leader = none
  ended : ∃ e, m.ended? leader is = some e ∧ r = Phase.resultOf e.status ∧
    ∀ status, e.status = .ok status → m'.shell.lastStatus = status
  /-- A leader that has failed makes it 1. -/
  failed : .exited 1 ∈ m.doings leader is → r = .next ∧ m'.shell.lastStatus = .exited 1
  /-- One that has taken its leave makes it 0. -/
  parted : Launch.Parted text? (m.doings leader is) → r = .next ∧ m'.shell.lastStatus = .exited 0

/-- Between lines, with SIGCHLD let through and no foreground job, the interpreter is given a line
that launches a job; whatever happens before it forks a process, and whatever happens then: each
process of the job executes the program of its stage or fails, for reasons of its own and without
anything else being done, and the status of the job is that of its last stage. -/
theorem stages_fail_alone (hm : m.Settled p) (hline : Request.ofLine line = .ok (.launch job))
    (hpre : ∀ i ∈ pre, i.isLine = false) (hreach : (m.begin line).meets? pre = some m₁)
    (hfork : m₁.step.1.world.nextPid ≠ m₁.world.nextPid)
    (hcourse : m₁.step.1.meets? is = some m₂) :
    m₁.step.1.Crewed m.env job.pipeline p.farewell m₁.world.nextPid is m₂ ∧
      ((∀ i ∈ is, i.isLine = false) → job.background = false →
        ∀ q r, m₂.process? = some q → (m₂.current q).need = .rest r →
          m₁.step.1.Attained p.farewell m₁.world.nextPid is m₂ r) := by
  have hbegin := hm.served hline
  have hserved := hbegin.course hm.heeds hpre hreach
  have hk := hserved.kindred.keyed
  have hworks : m₁.Happens .works m₁.step.1 := .works (works_step hk)
  have hattended := hserved.attended hworks hm.heeds hfork
  have henv : m₁.step.1.env = m.env :=
    (works_step hk).env_eq.trans (env_eq_of_meets? hbegin.kindred hreach).2
  obtain ⟨-, -, -, hphase, -⟩ := hserved.forks (works_step hk) hfork
  refine ⟨?_, fun his hbg q r hq hrest => ?_⟩
  · rw [← henv]
    exact hattended.toLaunched.crewed hattended.parts (Request.wellFormed_of_launch hline).1 hcourse
  · obtain ⟨e, hended, hr, hlast⟩ := hattended.status_of_rest hbg hm.heeds his hcourse hq hrest
    obtain ⟨hgone, hcode⟩ :=
      (hattended.resumed hm (by rw [hphase]; rfl) his hcourse).status hbg q r hq hrest
    refine ⟨hgone, ⟨e, hended, hr, hlast⟩, fun hfailed => hcode _ hfailed 1 rfl, ?_⟩
    rintro ⟨text, reply, -, hds⟩
    refine hcode (.interrupted text reply) ?_ 0 rfl
    rcases hds with hds | ⟨grouped, hds⟩ <;> simp [hds]

/-- There is no file `/b`. -/
def missingLine : Bytes := Bytes.ofString "/a | /b"

/-- The interpreter is about to fork the leader. -/
def missingStart : Machine := (spareMachine.begin missingLine).step.1

/-- The leader finds no program while the interpreter waits for it; the other stage executes its
own. -/
def missingCourse : List Incident :=
  List.replicate 3 (.happens .works) ++ List.replicate 13 (.happens (.turn 11)) ++
    List.replicate 4 (.happens (.turn 12)) ++ List.replicate 7 (.happens .works)

theorem stages_fail_alone_missingLine : ∃ m₂ p₂ r,
    missingStart.step.1.meets? missingCourse = some m₂ ∧ m₂.process? = some p₂ ∧
    missingStart.step.1.Crewed [] ⟨[["/a"], ["/b"]], none⟩ (some Shell.farewell) 11 missingCourse
      m₂ ∧
    (missingStart.step.1.doings 12 missingCourse).any Doing.isStart ∧
    missingStart.step.1.Attained (some Shell.farewell) 11 missingCourse m₂ r ∧
    m₂.world.tree.node? 3 =
      some (.file (Bytes.ofString (reportLine (LaunchFailure.system .ENOENT).message))) ∧
    m₂.shell.lastStatus = .exited 1 := by
  obtain ⟨p, hm⟩ := settled_spareMachine
  have hline : Request.ofLine missingLine = .ok (.launch ⟨⟨[["/a"], ["/b"]], none⟩, false⟩) := by
    decide +kernel
  have hrun : (missingStart.step.1.meets? missingCourse).map (fun m =>
      (m.isResting, m.world.tree.node? 3)) = some (true,
        some (.file (Bytes.ofString (reportLine (LaunchFailure.system .ENOENT).message)))) := by
    decide +kernel
  obtain ⟨m₂, hcourse, heq⟩ := Option.map_eq_some_iff.1 hrun
  obtain ⟨hrest, hreported⟩ := Prod.mk.inj heq
  obtain ⟨p₂, r, hp₂, hneed⟩ := exists_of_isResting hrest
  have hreach : (spareMachine.begin missingLine).meets? [.happens .works] = some missingStart :=
    rfl
  obtain ⟨hcrewed, hattained⟩ := stages_fail_alone hm hline (by decide) hreach
    (by decide +kernel) hcourse
  rw [show missingStart.world.nextPid = 11 by decide +kernel,
    farewell_spareMachine hm.process] at hcrewed hattained
  have hattained := hattained (by decide) rfl p₂ r hp₂ hneed
  have hexits : (missingStart.step.1.doings 11 missingCourse).any
      (fun | .exited code => code = 1 | _ => false) := by decide +kernel
  obtain ⟨d, hmem, hd⟩ := List.any_eq_true.1 hexits
  cases d with
  | exited code =>
    obtain rfl := of_decide_eq_true hd
    exact ⟨m₂, p₂, r, hcourse, hp₂, hcrewed, by decide +kernel, hattained, hreported,
      (hattained.failed hmem).2⟩
  | _ => cases hd

def killedLine : Bytes := Bytes.ofString "/b | /a"

def killedStart : Machine := (spareMachine.begin killedLine).step.1

/-- The first stage finds no program, and the last is ended by a real-time signal while it runs its
own. -/
def killedCourse : List Incident :=
  List.replicate 3 (.happens .works) ++ List.replicate 11 (.happens (.turn 11)) ++
    List.replicate 6 (.happens (.turn 12)) ++ [.happens (.sent 11 40), .happens (.turn 11)] ++
    List.replicate 7 (.happens .works)

/-- The last status is not that of the last stage, whose end has none. -/
theorem status_stale_killedLine : ∃ m₂,
    killedStart.step.1.meets? killedCourse = some m₂ ∧ m₂.isResting ∧
    (killedStart.step.1.doings 11 killedCourse).any Doing.isStart ∧
    killedStart.step.1.ended? 11 killedCourse = some (.killed 40) ∧
    (Ending.killed 40).status ≠ .ok m₂.shell.lastStatus ∧ m₂.shell.lastStatus = .exited 0 := by
  have hrun : (killedStart.step.1.meets? killedCourse).map (fun m =>
      (m.isResting, m.shell.lastStatus)) = some (true, .exited 0) := by
    decide +kernel
  obtain ⟨m₂, hcourse, heq⟩ := Option.map_eq_some_iff.1 hrun
  obtain ⟨hrest, hlast⟩ := Prod.mk.inj heq
  exact ⟨m₂, hcourse, hrest, by decide +kernel, by decide +kernel, nofun, hlast⟩

end Machine

end JobShell
