import JobShell.Proofs.Isolation.Recruits
import JobShell.Proofs.Isolation.Trace

/-!
# What the programs of jobs start with

The course of a machine with two records beside it, which nothing in it depends on: which processes
have been forked for jobs and have not executed a program yet, and the signals that the others have
started their programs with.

* `Machine.IsRecruit`: a process is on its way to executing a program, which its own turns and those
  of others keep so. `Machine.Works.isRecruit`: the leader of a job is one from the fork on.
* `Muster.course?`: what some happenings come to, with the records. `Muster.machine_course?`: the
  machine takes the course it takes without them.
* `Muster.Ready`: the processes of jobs are recruits and programs have started with clear signals.
* `Muster.starts_clear`: so it is after every course from an interpreter that rests.
-/

namespace JobShell

/-! ## Processes that are recruited -/

namespace Machine

/-- Another process than the interpreter, on its way to executing a program, if it lives. -/
structure IsRecruit (m : Machine) (pid : Pid) : Prop where
  ne : pid ≠ m.pid
  known : pid < m.world.nextPid
  recruited : ∀ q, m.world.process? pid = some q → q.Recruited

variable {m m' : Machine} {p : Process} {pid : Pid} {h : Happening}

/-- A process that has just been made. -/
theorem Governed.isRecruit_made (hg : m.Governed) (hpid : m'.pid = m.pid)
    (hgrows : m.world.Grows m'.world) (hnew : m'.world.nextPid ≠ m.world.nextPid)
    (hrec : ∀ q, m'.world.process? m.world.nextPid = some q → q.Recruited) :
    m'.IsRecruit m.world.nextPid := by
  refine ⟨?_, Int.lt_iff_le_and_ne.2 ⟨hgrows.nextPid, hnew.symm⟩, hrec⟩
  rw [hpid]
  exact Int.ne_of_gt hg.known

theorem Happens.world_of_turn (hm : m.Happens (.turn pid) m') :
    m'.world = (m.world.step pid).1 := by
  cases hm
  rfl

/-- What others do does not keep it from its way. -/
theorem IsRecruit.happens (hr : m.IsRecruit pid) (hg : m.Governed) (hm : m.Happens h m')
    (hturn : h ≠ .turn pid) : m'.IsRecruit pid := by
  have hgrows := hm.grows hg.keyed hg.known
  refine ⟨?_, Int.lt_of_lt_of_le hr.known hgrows.nextPid, fun q hq => ?_⟩
  · rw [hm.pid_eq]
    exact hr.ne
  · have hown := (hm.untouched hg.keyed hr.ne hr.known hturn).own
    obtain ⟨q₀, hq₀, heq⟩ := World.exists_of_own?_eq hown hq
    exact (hr.recruited q₀ hq₀).of_poise (Process.poise_congr heq)

section

variable (hr : m.IsRecruit pid) (hg : m.Governed) (hm : m.Happens (.turn pid) m')
include hr hg hm

/-- A program that it executes starts with clear signals. -/
theorem IsRecruit.clear_of_turn (hx : m.world.isStarting pid) {q : Process}
    (hq : m'.world.process? pid = some q) : q.signals.Clear := by
  rw [hm.world_of_turn] at hq
  have h := World.recruited_step hg.keyed hr.known hr.recruited hq
  rwa [if_pos hx] at h

/-- Its turn brings it on its way. -/
theorem IsRecruit.of_turn (hx : ¬m.world.isStarting pid) : m'.IsRecruit pid := by
  have hgrows := hm.grows hg.keyed hg.known
  refine ⟨?_, Int.lt_of_lt_of_le hr.known hgrows.nextPid, fun q hq => ?_⟩
  · rw [hm.pid_eq]
    exact hr.ne
  · rw [hm.world_of_turn] at hq
    have h := World.recruited_step hg.keyed hr.known hr.recruited hq
    rwa [if_neg hx] at h

/-- What it forks is recruited. -/
theorem IsRecruit.made_of_turn (hnew : m'.world.nextPid ≠ m.world.nextPid) :
    m'.IsRecruit m.world.nextPid := by
  refine hg.isRecruit_made hm.pid_eq (hm.grows hg.keyed hg.known) hnew fun q hq => ?_
  rw [hm.world_of_turn] at hnew hq
  exact World.recruited_made_step hg.keyed hr.known hr.recruited hnew hq

end

/-- The interpreter holds SIGCHLD back when it forks, so the leader of the job is recruited. -/
theorem Works.isRecruit (hw : m.Works m') (hg : m.Governed)
    (hs : ∀ p, m.process? = some p → p.signals.Single)
    (hnew : m'.world.nextPid ≠ m.world.nextPid) : m'.IsRecruit m.world.nextPid := by
  refine hg.isRecruit_made hw.pid_eq (hw.grows hg.keyed) hnew fun q hq => ?_
  obtain ⟨p, pipeline, next, hp, hneed, hworld⟩ := hw.forks_of_nextPid hg.keyed hnew
  obtain ⟨-, job, hphase, -⟩ := Shell.fork_of_need hneed
  have hheld : Signal.child ∈ p.signals.blocked := by
    refine (hg.guards p hp).blocked.2 ?_
    rw [hphase]
    trivial
  have hleader := Launch.readies_leader (s := p.signals.settings) hheld m.env pipeline
  rw [hworld] at hq
  exact World.recruited_forked hg.keyed (.inl hheld) (hs p hp) hleader hq

theorem Happens.single (hm : m.Happens h m') (hg : m.Governed)
    (hs : ∀ p, m.process? = some p → p.signals.Single) :
    ∀ p, m'.process? = some p → p.signals.Single := by
  intro p' hp'
  obtain ⟨p, hp, hfollows⟩ := hm.follows hg.keyed hg.known hp'
  have hsingle : p.signals.unguarded.Single := hs p hp
  rw [← hfollows.signals] at hsingle
  exact hsingle

end Machine

/-! ## The records -/

/-- A machine, and what its interpreter's jobs have come to. -/
structure Muster where
  machine : Machine
  /-- The processes forked for jobs that have not executed a program. -/
  recruits : List Pid := []
  /-- The others, with their signals when they had just executed one. -/
  starts : List (Pid × Signals) := []

namespace Muster

/-- The processes of jobs after a step that may have forked one more. -/
def joined (c : Muster) (m : Machine) : List Pid :=
  if m.world.nextPid = c.machine.world.nextPid then c.recruits
  else c.machine.world.nextPid :: c.recruits

/-- The process of a job has executed a program. -/
def started (c : Muster) (m : Machine) (pid : Pid) : Muster where
  machine := m
  recruits := c.recruits.filter (· ≠ pid)
  starts := c.starts ++ ((m.world.process? pid).map fun p => (pid, p.signals)).toList

/-- The records after what has led to `m`. What the interpreter forks, and what its jobs fork before
they execute programs, is forked for a job. -/
def after (c : Muster) (m : Machine) : Happening → Muster
  | .works => { c with machine := m, recruits := c.joined m }
  | .turn pid =>
    if pid ∈ c.recruits then
      if c.machine.world.isStarting pid then c.started m pid
      else { c with machine := m, recruits := c.joined m }
    else { c with machine := m }
  | .line _ | .refused _ | .sent _ _ | .passes _ => { c with machine := m }

/-- What comes of something that happens, if it can happen. -/
def happen? (c : Muster) (h : Happening) : Option Muster :=
  (c.machine.happen? h).map (c.after · h)

/-- What comes of some happenings, one after another. -/
def course? (c : Muster) : List Happening → Option Muster
  | [] => some c
  | h :: rest => (c.happen? h).bind (course? · rest)

variable {c c' : Muster} {m : Machine} {h : Happening} {evs : List Happening}

@[simp] theorem machine_after (c : Muster) (m : Machine) (h : Happening) :
    (c.after m h).machine = m := by
  unfold after
  split <;> first | rfl | (split <;> first | rfl | (split <;> rfl))

/-- The records change nothing. -/
theorem machine_course? (c : Muster) (evs : List Happening) :
    (c.course? evs).map machine = c.machine.course? evs := by
  induction evs generalizing c with
  | nil => rfl
  | cons h rest ih =>
    unfold course? Machine.course? happen?
    cases c.machine.happen? h with
    | none => rfl
    | some m =>
      refine (ih (c.after m h)).trans ?_
      rw [machine_after]
      rfl

/-- The processes of jobs are on their way, and programs have started with clear signals. -/
structure Ready (c : Muster) : Prop where
  governed : c.machine.Governed
  single : ∀ p, c.machine.process? = some p → p.signals.Single
  recruits : ∀ pid ∈ c.recruits, c.machine.IsRecruit pid
  starts : ∀ start ∈ c.starts, start.2.Clear

theorem isRecruit_joined (hold : ∀ pid ∈ c.recruits, m.IsRecruit pid)
    (hnew : m.world.nextPid ≠ c.machine.world.nextPid → m.IsRecruit c.machine.world.nextPid) :
    ∀ pid ∈ c.joined m, m.IsRecruit pid := by
  unfold joined
  split
  · exact hold
  · rename_i hne
    exact List.forall_mem_cons.2 ⟨hnew hne, hold⟩

section

variable (hr : c.Ready) (hm : c.machine.Happens h m)
include hr hm

/-- Nothing that happens matters to the records but turns of the processes of jobs and forks. -/
theorem Ready.stays (hturn : ∀ pid ∈ c.recruits, h ≠ .turn pid) :
    Ready { c with machine := m } where
  governed := hr.governed.happens hm
  single := hm.single hr.governed hr.single
  recruits pid hpid := (hr.recruits pid hpid).happens hr.governed hm (hturn pid hpid)
  starts := hr.starts

theorem Ready.joined (hold : ∀ pid ∈ c.recruits, m.IsRecruit pid)
    (hnew : m.world.nextPid ≠ c.machine.world.nextPid → m.IsRecruit c.machine.world.nextPid) :
    Ready { c with machine := m, recruits := c.joined m } where
  governed := hr.governed.happens hm
  single := hm.single hr.governed hr.single
  recruits := isRecruit_joined hold hnew
  starts := hr.starts

end

/-- A process of a job has taken a step. -/
theorem Ready.turn {pid : Pid} (hr : c.Ready) (hpid : pid ∈ c.recruits)
    (hm : c.machine.Happens (.turn pid) m) : (c.after m (.turn pid)).Ready := by
  have hg := hr.governed
  have hself := hr.recruits pid hpid
  have hothers (r : Pid) (hmem : r ∈ c.recruits) (hne : r ≠ pid) : m.IsRecruit r :=
    (hr.recruits r hmem).happens hg hm fun heq => hne (Happening.turn.inj heq).symm
  show Ready (if pid ∈ c.recruits then _ else _)
  rw [if_pos hpid]
  split
  · rename_i hx
    refine ⟨hg.happens hm, hm.single hg hr.single, fun r hmem => ?_, fun start hmem => ?_⟩
    · obtain ⟨hmem, hne⟩ := List.mem_filter.1 hmem
      exact hothers r hmem (of_decide_eq_true hne)
    · rcases List.mem_append.1 hmem with hmem | hmem
      · exact hr.starts start hmem
      · obtain ⟨q, hq, rfl⟩ := Option.map_eq_some_iff.1 (Option.mem_toList.1 hmem)
        exact hself.clear_of_turn hg hm hx hq
  · rename_i hx
    refine hr.joined hm (fun r hmem => ?_) (hself.made_of_turn hg hm)
    by_cases hne : r = pid
    · rw [hne]
      exact hself.of_turn hg hm hx
    · exact hothers r hmem hne

theorem Ready.happens (hr : c.Ready) (hm : c.machine.Happens h m) : (c.after m h).Ready := by
  have hg := hr.governed
  cases h with
  | works =>
    have hw : c.machine.Works m := by cases hm; assumption
    exact hr.joined hm (fun pid hpid => (hr.recruits pid hpid).happens hg hm nofun)
      (hw.isRecruit hg hr.single)
  | turn pid =>
    by_cases hpid : pid ∈ c.recruits
    · exact hr.turn hpid hm
    · show Ready (if pid ∈ c.recruits then _ else _)
      rw [if_neg hpid]
      refine hr.stays hm fun r hmem heq => hpid ?_
      rwa [Happening.turn.inj heq]
  | line | refused | sent | passes => exact hr.stays hm nofun

theorem Ready.course? (hr : c.Ready) (hcourse : c.course? evs = some c') : c'.Ready := by
  induction evs generalizing c with
  | nil =>
    obtain rfl := Option.some.inj hcourse
    exact hr
  | cons h rest ih =>
    obtain ⟨c₁, hfirst, hrest⟩ := Option.bind_eq_some_iff.1 hcourse
    obtain ⟨m, hm, rfl⟩ := Option.map_eq_some_iff.1 hfirst
    exact ih (hr.happens (Machine.happens_of_happen? hr.governed.keyed hm)) hrest

/-- An interpreter rests, with SIGCHLD let through and no foreground job, whatever its dispositions
are. Whatever happens then, every program of a job has started with the default dispositions of
SIGINT, SIGCHLD and SIGPIPE and with SIGCHLD let through, and in no process forked for a job does a
handler run for SIGCHLD before it executes a program. -/
theorem starts_clear {m : Machine} {p : Process} {r : LineResult} (hsound : m.world.Sound)
    (hp : m.process? = some p) (hrest : (m.current p).need = .rest r)
    (hopen : Signal.child ∉ p.signals.blocked) (hfree : m.shell.tracker.foreground = none)
    (hsingle : p.signals.Single) (hcourse : Muster.course? { machine := m } evs = some c) :
    (∀ pid s, (pid, s) ∈ c.starts → s.disposition Signal.interrupt = .default ∧
      s.disposition Signal.child = .default ∧ s.disposition Signal.pipe = .default ∧
      Signal.child ∉ s.blocked) ∧
    ∀ pid ∈ c.recruits, ∀ n q, (c.machine.world.takeSignals n pid).process? pid = some q →
      Signal.child ∉ q.caught := by
  have hg := Machine.governed_of_rest hsound hp hrest hopen hfree
  have hstart : Ready { machine := m } := by
    refine ⟨hg, fun q hq => ?_, List.forall_mem_nil _, List.forall_mem_nil _⟩
    obtain rfl := Option.some.inj (hp.symm.trans hq)
    exact hsingle
  have hr := hstart.course? hcourse
  refine ⟨fun pid s hmem => ?_, fun pid hpid n q hq => ?_⟩
  · have hclear := hr.starts _ hmem
    exact ⟨hclear.interrupt, hclear.child, hclear.pipe, hclear.unblocked⟩
  · have hrec := World.recruited_takeSignals hr.governed.keyed n (hr.recruits pid hpid).recruited hq
    exact hrec.caught

/-! ## The first of two stages ends at once -/

/-- The leader is sent SIGCHLD before it has undone the interpreter's settings. It then starts the
first stage, which executes its program and ends before the leader has executed the other. -/
def pipedCourse : List Happening :=
  [.line (Bytes.ofString "/a | /a"), .works, .works, .works, .sent 11 Signal.child] ++
    List.replicate 8 (.turn 11) ++ List.replicate 6 (.turn 12)

theorem starts_clear_pipedCourse : ∃ c s,
    Muster.course? { machine := Machine.spareMachine } pipedCourse = some c ∧
    (12, s) ∈ c.starts ∧ s.disposition Signal.interrupt = .default ∧
    s.disposition Signal.child = .default ∧ s.disposition Signal.pipe = .default ∧
    Signal.child ∉ s.blocked ∧ 11 ∈ c.recruits ∧
    ∀ n q, (c.machine.world.takeSignals n 11).process? 11 = some q → Signal.child ∉ q.caught := by
  have hends : (Muster.course? { machine := Machine.spareMachine } pipedCourse).any fun c =>
      c.recruits = [11] ∧ c.starts.map (·.1) = [12] := by decide +kernel
  obtain ⟨c, hcourse, hends⟩ := Option.any_eq_true _ _ |>.1 hends
  obtain ⟨hrecruits, hstarts⟩ := of_decide_eq_true hends
  have hrecruit : 11 ∈ c.recruits := hrecruits ▸ List.mem_singleton.2 rfl
  obtain ⟨⟨pid, s⟩, hmem, rfl⟩ : ∃ x ∈ c.starts, x.1 = 12 :=
    List.mem_map.1 (hstarts ▸ List.mem_singleton.2 rfl)
  have hp : Machine.spareMachine.process? = some _ := World.process?_setProcess _ _ 10
  obtain ⟨hclear, hcaught⟩ := starts_clear (r := .next) Machine.sound_spareMachine hp rfl
    (by decide) rfl (by unfold Signals.Single; decide) hcourse
  obtain ⟨hinterrupt, hchild, hpipe, hopen⟩ := hclear _ s hmem
  exact ⟨c, s, hcourse, hmem, hinterrupt, hchild, hpipe, hopen, hrecruit, hcaught 11 hrecruit⟩

end Muster

end JobShell
