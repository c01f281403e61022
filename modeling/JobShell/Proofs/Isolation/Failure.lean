import JobShell.Proofs.Isolation.Conclusion
import JobShell.Proofs.Isolation.Crew
import JobShell.Proofs.Isolation.Opening
import JobShell.Proofs.Isolation.Rest

/-!
# A failure while a job is wired is contained

* `Launch.Fails`: the redirection of a job has not been opened, or a pipe has not been made.
* `Machine.Contained`: what has been done for the job, and how its leader ends.
* `Machine.Resumed`: what the interpreter makes of it.
* `Machine.contains_failure`: so it is, whatever happens while the job is launched and after it.
-/

namespace JobShell

namespace Launch

variable {env : List Bytes} {p : Pipeline} {ds : Doings} {o : Option Act} {f : LaunchFailure}

/-- The redirection of a job has not been opened, or a pipe has not been made. -/
inductive Fails (p : Pipeline) (ds : Doings) : LaunchFailure → Prop where
  | unnamed {r : Redirect} {f : LaunchFailure} (hr : p.redirect = some r)
      (hname : targetName r = .error f) : Fails p ds f
  | unopened {path : Bytes} {mode : OpenMode} {bits : Nat} {e : Errno}
      (hr : p.redirect.isSome) (he : (path, mode, bits, .error e) ∈ ds.opens) :
      Fails p ds (.system e)
  | unpiped {e : Errno} (he : .error e ∈ ds.pipes) : Fails p ds (.system e)

/-- What all failures have in common. -/
structure Reported (ds : Doings) (o : Option Act) (f : LaunchFailure) : Prop where
  idle : ∀ d ∈ ds, d.executes = false
  reports : ds.Reports f
  left : ∀ a, o = some a → a = .exit 1 ∨ Concludes f a

theorem Fails.reported (h : Fails p ds f) (hw : Wires env p ds o) : Reported ds o f := by
  cases h with
  | unnamed hr hname =>
    have h := hw.unnamed _ _ hr hname
    exact ⟨h.idle, h.reports, h.left⟩
  | unopened hr he =>
    have h := hw.stopped _ _ _ _ hr he
    exact ⟨h.idle, h.reports, h.left⟩
  | unpiped he =>
    have h := (hw.halted _ he).1
    exact ⟨h.idle, h.reports, h.left⟩

end Launch

namespace Machine

variable {m m' m₀ m₁ m₂ : Machine} {p p₀ : Process} {is pre : List Incident} {leader : Pid}
  {pipeline : Pipeline} {job : Job} {ds : Doings} {line : Bytes} {text? : Option Bytes}

/-! ## Whole courses -/

theorem env_eq_of_meets? (hk : m.Kindred) (h : m.meets? is = some m') :
    m'.Kindred ∧ m'.env = m.env := by
  refine meets?_induction (P := fun _ m' => m'.Kindred ∧ m'.env = m.env) ⟨hk, rfl⟩ ?_ h
  intro is i m₁ m₂ _ hm₁ hm
  have hmeets := meets_of_meet? hm₁.1.keyed hm
  exact ⟨hmeets.kindred hm₁.1, hmeets.env_eq.trans hm₁.2⟩

theorem Launched.course (hl : Launched pipeline leader [] m) (h : m.meets? is = some m') :
    Launched pipeline leader (m.doings leader is) m' := by
  refine meets?_induction (P := fun is m' => Launched pipeline leader (m.doings leader is) m')
    hl ?_ h
  intro is i m₁ m₂ hpre hm₁ hm
  rw [doings_concat leader i hpre]
  exact hm₁.meets (meets_of_meet? hm₁.kindred.keyed hm)

theorem Served.course (hs : m₀.Served p₀ job m)
    (hchild : p₀.signals.disposition Signal.child ≠ .ignored)
    (his : ∀ i ∈ is, i.isLine = false) (h : m.meets? is = some m') : m₀.Served p₀ job m' := by
  refine meets?_induction
    (P := fun is m' => (∀ i ∈ is, i.isLine = false) → m₀.Served p₀ job m') (fun _ => hs) ?_ h his
  intro is i m₁ m₂ _ hm₁ hm his
  rw [List.forall_mem_append] at his
  have hm₁ := hm₁ his.1
  exact hm₁.meets (meets_of_meet? hm₁.kindred.keyed hm) (his.2 i List.mem_cons_self) hchild

/-- A job stays attended, and its being noted and the jobs that are released are all that changes
the count of background jobs. -/
theorem Attended.course (ha : m₀.Attended p₀ job leader [] m)
    (hchild : p₀.signals.disposition Signal.child ≠ .ignored)
    (his : ∀ i ∈ is, i.isLine = false) (h : m.meets? is = some m') :
    m₀.Attended p₀ job leader (m.doings leader is) m' ∧
      m'.shell.tracker.background + m.released is + m.shell.phase.counted job =
        m.shell.tracker.background + m'.shell.phase.counted job := by
  refine meets?_induction
    (P := fun is m' => (∀ i ∈ is, i.isLine = false) →
      m₀.Attended p₀ job leader (m.doings leader is) m' ∧
        m'.shell.tracker.background + m.released is + m.shell.phase.counted job =
          m.shell.tracker.background + m'.shell.phase.counted job)
    (fun _ => ⟨ha, rfl⟩) ?_ h his
  intro is i m₁ m₂ hpre hm₁ hm his
  rw [List.forall_mem_append] at his
  obtain ⟨hat, hcount⟩ := hm₁ his.1
  have hmeets := meets_of_meet? hat.kindred.keyed hm
  have hline := his.2 i List.mem_cons_self
  have hstep := hat.background hmeets hline
  rw [doings_concat leader i hpre, released_concat i hpre]
  exact ⟨hat.meets hmeets hline hchild, by omega⟩

/-! ## Every point of a course -/

/-- This holds of every incident in the course of these. -/
def Throughout (m : Machine) (R : Machine → Incident → Machine → Prop) (is : List Incident) :
    Prop :=
  ∀ pre i post m₁ m₂, is = pre ++ i :: post → m.meets? pre = some m₁ → m₁.meet? i = some m₂ →
    R m₁ i m₂

theorem throughout_of_kindred {R : Machine → Incident → Machine → Prop} (hk : m.Kindred)
    (h : ∀ m₁ i m₂, m₁.Kindred → m₁.Meets i m₂ → R m₁ i m₂) : m.Throughout R is := by
  intro pre i post m₁ m₂ _ hpre hm
  have hkindred := (env_eq_of_meets? hk hpre).1
  exact h m₁ i m₂ hkindred (meets_of_meet? hkindred.keyed hm)

/-- Where a process does something that could not change the tree of files, the tree stays as it
is. -/
theorem Meets.tree {i : Incident} {d : Doing} (hm : m.Meets i m')
    (hd : m.doing? leader i = some d) (hcalm : d.isCalm) : m'.world.tree = m.world.tree := by
  rcases of_doing? hd with ⟨rfl, hturn⟩ | ⟨e, rfl, -⟩
  · cases hm with
    | happens hm =>
      cases hm with
      | turn =>
        refine (World.lasting_step fun d' hd' => ?_).tree
        rwa [Option.some.inj (hd'.symm.trans hturn)]
  · cases hm with
    | denied hpid hd' => exact World.tree_denied hd'

/-- Where a process opens a file, it is open. -/
theorem Meets.stands {i : Incident} {path : Bytes} {mode : OpenMode} {bits fd : Nat}
    (hm : m.Meets i m') (hk : m.Kindred)
    (hd : m.doing? leader i = some (.called (.open path mode bits) (.ok fd))) :
    m'.world.Stands leader fd mode := by
  rcases of_doing? hd with ⟨rfl, hturn⟩ | ⟨e, rfl, hdenied⟩
  · cases hm with
    | happens hm =>
      cases hm with
      | turn => exact World.stands_step hk.keyed hturn
  · cases hdenied

/-- Where a process is killed, it has been sent a signal that ends it. -/
theorem doomed_of_doing? {i : Incident} (hk : m.Kindred)
    (hd : m.doing? leader i = some .killed) : m.world.Doomed leader := by
  rcases of_doing? hd with ⟨rfl, hturn⟩ | ⟨e, rfl, hdenied⟩
  · exact World.doomed_of_killed hk.keyed hturn
  · cases hdenied

/-- Where a process takes its leave, a SIGINT has reached it. -/
theorem alarmed_of_doing? {i : Incident} {text : Bytes} {reply : Except Errno Nat} (hk : m.Kindred)
    (hd : m.doing? leader i = some (.interrupted text reply)) : m.world.Alarmed leader text := by
  rcases of_doing? hd with ⟨rfl, hturn⟩ | ⟨e, rfl, hdenied⟩
  · exact World.alarmed_of_doing? hk.keyed hturn
  · cases hdenied

/-! ## The leader -/

/-- A leader that has failed and done its last. -/
def Ended (ds : Doings) (f : LaunchFailure) : Prop :=
  ds.getLast? = some .killed ∨ ds.getLast? = some (.exited 1) ∧
    ds.writes = [(2, Bytes.ofString (reportLine f.message))]

/-- What a leader has done that has not taken its leave is a path of its program. -/
theorem Launched.path_or (hl : Launched pipeline leader ds m)
    (hp : m.world.Parts leader text? ds) :
    (∃ o, (Launch.leader m.env pipeline).run.Path ds o) ∨ Launch.Parted text? ds := by
  rcases hl.travels.path_or with hpath | ⟨_, front, text, reply, hpath, hds⟩
  · exact .inl hpath
  · obtain ⟨htext, hresets⟩ := hp.left text reply (hds ▸ List.mem_concat_self)
    exact .inr (Launch.parted_of_path hpath hds htext hresets)

/-- A leader that has failed is gone, or has nothing left but to report that. -/
theorem Launched.ended_or {f : LaunchFailure} (hl : Launched pipeline leader ds m)
    (hp : m.world.Parts leader text? ds) (hf : Launch.Fails pipeline ds f) :
    m.world.process? leader = none ∧ (Ended ds f ∨ Launch.Parted text? ds) ∨
      ∃ a, m.world.program? leader = some a ∧ (a = .exit 1 ∨ Launch.Concludes f a) := by
  have htravels := hl.travels
  cases htravels with
  | left hpath hds hgone =>
    obtain ⟨htext, hresets⟩ := hp.left _ _ (hds ▸ List.mem_concat_self)
    exact .inl ⟨hgone, .inr (Launch.parted_of_path hpath hds htext hresets)⟩
  | going hpath ha =>
    exact .inr ⟨_, ha, (hf.reported (Launch.wires_leader hpath)).left _ rfl⟩
  | @finished d hpath hlast hgone =>
    have hreported := hf.reported (Launch.wires_leader hpath)
    have hmem := List.mem_of_getLast? hlast
    obtain ⟨d', hlast', hl⟩ := hpath.exists_last
    obtain rfl := Option.some.inj (hlast.symm.trans hlast')
    refine .inl ⟨hgone (hreported.idle d hmem), ?_⟩
    obtain ⟨-, rfl | ⟨rfl, hwrites⟩⟩ := hreported.reports.ended d hmem hl
    · exact .inl (.inl hlast)
    · exact .inl (.inr ⟨hlast, hwrites⟩)

/-- What has been done for a job in the course of some incidents, and how its leader ends, where this
is what the interpreter writes when it takes a SIGINT and ends. -/
structure Contained (env : List Bytes) (pipeline : Pipeline) (text? : Option Bytes) (leader : Pid)
    (m : Machine) (is : List Incident) (m' : Machine) : Prop where
  /-- What has been done by the leader where something has failed, and what has not; it takes its
  leave only before it could fail. -/
  wires : (∃ o, Launch.Wires env pipeline (m.doings leader is) o) ∨
    Launch.Parted text? (m.doings leader is)
  /-- A file that it has opened is there, and is empty if it was to be. -/
  stands : m.Throughout (fun m₁ i m₂ => ∀ path mode bits fd,
    m₁.doing? leader i = some (.called (.open path mode bits) (.ok fd)) →
      m₂.world.Stands leader fd mode) is
  /-- What it does to its signals, its group, its descriptors and its pipes leaves all files. -/
  files : m.Throughout (fun m₁ i m₂ => ∀ d, m₁.doing? leader i = some d → d.isCalm →
    m₂.world.tree = m₁.world.tree) is
  /-- A leader that has failed and is gone has reported that once and ended with exit code 1, if no
  signal has ended it and it has not taken its leave. -/
  ended : ∀ f, Launch.Fails pipeline (m.doings leader is) f → m'.world.process? leader = none →
    Ended (m.doings leader is) f ∨ Launch.Parted text? (m.doings leader is)
  /-- Nothing else ends it: where it is killed, a signal that ends it has waited for it. -/
  killed : m.Throughout (fun m₁ i _ => m₁.doing? leader i = some .killed →
    m₁.world.Doomed leader) is
  /-- Where it takes its leave, a SIGINT has reached it. -/
  interrupted : m.Throughout (fun m₁ i _ => ∀ text reply,
    m₁.doing? leader i = some (.interrupted text reply) → m₁.world.Alarmed leader text) is
  /-- A leader that has failed and is not gone comes to its end by itself. -/
  ends : ∀ f, Launch.Fails pipeline (m.doings leader is) f → m'.Concludes leader f

theorem Launched.contained (hl : Launched pipeline leader [] m)
    (hp : m.world.Parts leader text? []) (h : m.meets? is = some m') :
    m.Contained m.env pipeline text? leader is m' := by
  have hk := hl.kindred
  have hlaunched := hl.course h
  have hparts := hl.runs.parts hp h
  refine ⟨?_, throughout_of_kindred hk fun m₁ i m₂ hk₁ hm _ _ _ _ => hm.stands hk₁,
    throughout_of_kindred hk fun m₁ i m₂ _ hm _ hd => hm.tree hd, fun f hf hgone => ?_,
    throughout_of_kindred hk fun m₁ i m₂ hk₁ _ hd => doomed_of_doing? hk₁ hd,
    throughout_of_kindred hk fun m₁ i m₂ hk₁ _ _ _ hd => alarmed_of_doing? hk₁ hd, fun f hf => ?_⟩
  · rw [← (env_eq_of_meets? hk h).2]
    rcases hlaunched.path_or hparts with ⟨o, hpath⟩ | hparted
    · exact .inl ⟨o, Launch.wires_leader hpath⟩
    · exact .inr hparted
  · rcases hlaunched.ended_or hparts hf with ⟨-, hended⟩ | ⟨a, ha, -⟩
    · exact hended
    · rw [World.program?, hgone] at ha
      cases ha
  · rcases hlaunched.ended_or hparts hf with ⟨hgone, -⟩ | ⟨a, ha, rfl | hconcludes⟩
    · exact .now (.inl hgone)
    · exact hlaunched.concludes_exit ha
    · exact hlaunched.concludes hconcludes ha

/-! ## The interpreter -/

/-- What the interpreter makes of a job before the next line. -/
structure Resumed (m₀ : Machine) (p₀ : Process) (job : Job) (leader : Pid) (m : Machine)
    (is : List Incident) (m' : Machine) : Prop where
  /-- Once the leader is gone, the line comes to its end by itself; in the background it need not
  be. -/
  rests : job.background = true ∨ m'.world.process? leader = none → m'.Rests
  /-- Its being noted and the jobs that are released are all that changes the count. -/
  count : m'.shell.tracker.background + m.released is =
    m.shell.tracker.background + m'.shell.phase.counted job
  /-- When the line of a foreground job is over, its leader is gone, and if it has ended with an exit
  code, that is the last status. -/
  status : job.background = false → ∀ p r, m'.process? = some p →
    (m'.current p).need = .rest r → m'.world.process? leader = none ∧
      ∀ d ∈ m.doings leader is, ∀ code, d.code? = some code →
        r = .next ∧ m'.shell.lastStatus = .exited code.toNat
  /-- When the line is over, all is as it was, and whatever line is next is taken up. -/
  next : ∀ p r, m'.process? = some p → (m'.current p).need = .rest r →
    m'.Settled p ∧ p.own = p₀.own ∧
      ∀ text, m'.meet? (.happens (.line text)) = some (m'.begin text)

theorem Attended.resumed (ha : m₀.Attended p₀ job leader [] m) (hm₀ : m₀.Settled p₀)
    (hphase : m.shell.phase.counted job = 0) (his : ∀ i ∈ is, i.isLine = false)
    (h : m.meets? is = some m') : m₀.Resumed p₀ job leader m is m' := by
  obtain ⟨hat, hcount⟩ := ha.course hm₀.heeds his h
  rw [hphase] at hcount
  refine ⟨hat.rests hm₀.heeds, hcount, fun hbg p r hp hrest => ?_, fun p r hp hrest => ?_⟩
  · obtain ⟨ending, htells, hiff, hcode⟩ := (hat.attends p hp).told hbg
    obtain ⟨e, rfl, rfl, hlast⟩ := htells.of_rest hrest
    refine ⟨?_, fun d hmem code hd => ?_⟩
    · cases hq : m'.world.process? leader with
      | none => rfl
      | some q =>
        rw [hq] at hiff
        cases hiff.2 rfl
    · obtain rfl := Option.some.inj (hcode d hmem code hd)
      exact ⟨rfl, hlast _ rfl⟩
  · obtain ⟨hsettled, hown⟩ := hat.served.settled hm₀ hp hrest
    exact ⟨hsettled, hown, hsettled.begins⟩

/-- Between lines, with SIGCHLD let through and no foreground job, the interpreter is given a line
that launches a job; whatever happens before it forks a process, and whatever happens then: where
the redirection is not opened or a pipe is not made, that is contained. -/
theorem contains_failure (hm : m.Settled p) (hline : Request.ofLine line = .ok (.launch job))
    (hpre : ∀ i ∈ pre, i.isLine = false) (hreach : (m.begin line).meets? pre = some m₁)
    (hfork : m₁.step.1.world.nextPid ≠ m₁.world.nextPid)
    (hcourse : m₁.step.1.meets? is = some m₂) :
    m₁.step.1.Contained m.env job.pipeline p.farewell m₁.world.nextPid is m₂ ∧
      ((∀ i ∈ is, i.isLine = false) →
        m.Resumed p job m₁.world.nextPid m₁.step.1 is m₂) := by
  have hbegin := hm.served hline
  have hserved := hbegin.course hm.heeds hpre hreach
  have hk := hserved.kindred.keyed
  have hworks : m₁.Happens .works m₁.step.1 := .works (works_step hk)
  have hattended := hserved.attended hworks hm.heeds hfork
  have henv : m₁.step.1.env = m.env :=
    (works_step hk).env_eq.trans (env_eq_of_meets? hbegin.kindred hreach).2
  obtain ⟨q, -, -, hphase, -⟩ := hserved.forks (works_step hk) hfork
  refine ⟨?_, fun his => hattended.resumed hm (by rw [hphase]; rfl) his hcourse⟩
  rw [← henv]
  exact hattended.toLaunched.contained hattended.parts hcourse

/-! ## A pipe that cannot be made -/

theorem settled_spareMachine : ∃ p, spareMachine.Settled p := by
  have hp : spareMachine.process? = some _ := World.process?_setProcess _ _ 10
  have hsound := sound_spareMachine
  have hnone (r : Pid) (p : Process) (h : spareMachine.world.process? r = some p) :
      p.children = [] := by
    rw [spareMachine, World.process?_setProcess] at h
    split at h
    · obtain rfl := Option.some.inj h
      rfl
    · rw [Wiring.threeStagesWorld, World.process?_setProcess] at h
      split at h
      · obtain rfl := Option.some.inj h
        rfl
      · simp [World.process?] at h
  refine ⟨_, ⟨⟨⟨hsound.keyed, by decide⟩, by decide, fun r p h => ?_, fun r p h c hmem => ?_⟩, hp,
    ⟨.next, rfl⟩, by decide, rfl, fun n hn => ?_, by decide⟩⟩
  · exact hsound.pids r p.grip (Option.map_eq_some_iff.2 ⟨p, h, rfl⟩)
  · rw [hnone r p h] at hmem
    cases hmem
  · exact Signals.disposition_install_initial hn

/-- The redirection can be opened, but there is no pipe to be had. -/
def pipelessLine : Bytes := Bytes.ofString "/a | /a > /c"

def pipelessCourse : List Incident :=
  List.replicate 3 (.happens .works) ++ List.replicate 8 (.happens (.turn 11)) ++
    [.denied 11 .EMFILE] ++ List.replicate 2 (.happens (.turn 11)) ++
    List.replicate 7 (.happens .works)

/-- The interpreter is about to fork the leader. -/
def pipelessStart : Machine := (spareMachine.begin pipelessLine).step.1

/-- The interpreter waits while the leader opens the file, finds no pipe, reports that and exits. -/
theorem contains_failure_pipelessLine : ∃ m₂ p₂,
    pipelessStart.step.1.meets? pipelessCourse = some m₂ ∧ m₂.process? = some p₂ ∧
    Ended (pipelessStart.step.1.doings 11 pipelessCourse) (.system .EMFILE) ∧
    m₂.world.tree.node? 3 =
      some (.file (Bytes.ofString (reportLine (LaunchFailure.system .EMFILE).message))) ∧
    m₂.shell.lastStatus = .exited 1 ∧ m₂.Settled p₂ := by
  obtain ⟨p, hm⟩ := settled_spareMachine
  have hline : Request.ofLine pipelessLine =
      .ok (.launch ⟨⟨[["/a"], ["/a"]], some ⟨.truncate, "/c"⟩⟩, false⟩) := by decide +kernel
  have hrun : (pipelessStart.step.1.meets? pipelessCourse).map (fun m =>
      (m.isResting, m.world.tree.node? 3)) = some (true,
        some (.file (Bytes.ofString (reportLine (LaunchFailure.system .EMFILE).message)))) := by
    decide +kernel
  obtain ⟨m₂, hcourse, heq⟩ := Option.map_eq_some_iff.1 hrun
  obtain ⟨hrest, hreported⟩ := Prod.mk.inj heq
  obtain ⟨p₂, r, hp₂, hneed⟩ := exists_of_isResting hrest
  have hreach : (spareMachine.begin pipelessLine).meets? [.happens .works] = some pipelessStart :=
    rfl
  obtain ⟨hcontained, hresumed⟩ := contains_failure hm hline (by decide) hreach
    (by decide +kernel) hcourse
  rw [show pipelessStart.world.nextPid = 11 by decide +kernel] at hcontained hresumed
  obtain ⟨-, -, hstatus, hnext⟩ := hresumed (by decide)
  obtain ⟨hgone, hcode⟩ := hstatus rfl p₂ r hp₂ hneed
  have hpipes : .error .EMFILE ∈ (pipelessStart.step.1.doings 11 pipelessCourse).pipes := by
    decide +kernel
  have hended := (hcontained.ended _ (.unpiped hpipes) hgone).resolve_right fun hparted => by
    rcases hparted with ⟨text, reply, -, hds | ⟨grouped, hds⟩⟩
    all_goals
      rw [hds] at hpipes
      cases hpipes
  have hexits : (pipelessStart.step.1.doings 11 pipelessCourse).any
      (fun | .exited code => code = 1 | _ => false) := by decide +kernel
  obtain ⟨d, hmem, hd⟩ := List.any_eq_true.1 hexits
  cases d with
  | exited code =>
    obtain rfl := of_decide_eq_true hd
    exact ⟨m₂, p₂, hcourse, hp₂, hended, hreported, (hcode _ hmem 1 rfl).2,
      (hnext p₂ r hp₂ hneed).1⟩
  | _ => cases hd

end Machine

end JobShell
