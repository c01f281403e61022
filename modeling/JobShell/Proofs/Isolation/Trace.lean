import JobShell.Proofs.Isolation.Interpreter
import JobShell.Proofs.Line.Evaluation
import JobShell.Proofs.Wiring.Stages

/-!
# A job leaves no trace

* `Machine.Governed`: the guard and the foreground job go with the line.
* `Machine.Undisturbed`: a line that launches a job is being carried out, and all that is the
  interpreter's own, but for the guard, is as it was before the line.
* `Machine.leaves_no_trace`: when the line is over, the guard and the foreground job are gone as
  well.
-/

namespace JobShell.Machine

variable {m m' : Machine} {p p' : Process} {h : Happening}

/-- The guard and the foreground job go with the line. -/
structure Governed (m : Machine) : Prop extends Numbered m where
  guards : ∀ p, m.process? = some p → (m.current p).Guards

theorem Governed.happens (hg : m.Governed) (hm : m.Happens h m') : m'.Governed := by
  refine ⟨hg.toNumbered.happens hm, fun p' hp' => ?_⟩
  obtain ⟨p, hp, hfollows⟩ := hm.follows hg.keyed hg.known hp'
  exact hfollows.guards (hg.guards p hp)

theorem grip?_process (hp : m.process? = some p) : m.world.grip? m.pid = some p.grip :=
  Option.map_eq_some_iff.2 ⟨p, hp, rfl⟩

/-- Between lines, without a guard and without a foreground job, all is as it should be. -/
theorem governed_of_rest {r : LineResult} (hsound : m.world.Sound)
    (hp : m.process? = some p) (hrest : (m.current p).need = .rest r)
    (hopen : Signal.child ∉ p.signals.blocked) (hfree : m.shell.tracker.foreground = none) :
    m.Governed := by
  refine ⟨⟨hsound.keyed, hsound.pids _ _ (grip?_process hp)⟩, fun q hq => ?_⟩
  obtain rfl := Option.some.inj (hp.symm.trans hq)
  have hphase := Shell.standing_of_rest hrest
  refine ⟨?_, fun _ => hfree⟩
  rw [hphase]
  exact ⟨hopen, False.elim⟩

/-- Nothing but a line makes the interpreter do something else than it does. -/
theorem Happens.serves {request : Except LineError Request} (hm : m.Happens h m')
    (hline : h.isLine = false) (hs : m.shell.phase.Serves request) :
    m'.shell.phase.Serves request := by
  cases hm with
  | line text hrest => cases hline
  | works hw =>
    have hstep : m.step = (m.step.1, m.step.2) := rfl
    rcases leads_of_step hstep with hphase | ⟨p, hlead⟩
    · rw [hphase]
      exact hs
    · exact Phase.Serves.step (s := m.current p) hs hlead
  | @refused e p s hp hrefused =>
    have hs : (m.current p).phase.Serves request := hs
    show s.phase.Serves request
    unfold Shell.refused? at hrefused
    split at hrefused
    · rename_i job h0 hphase
      obtain rfl := Option.some.inj hrefused
      rw [hphase] at hs
      cases hs with
      | launching => exact .underway _ rfl
      | underway _ hu => cases hu
    · rename_i job h0 hphase
      obtain rfl := Option.some.inj hrefused
      rw [hphase] at hs
      rw [hs.of_guarded]
      exact .underway _ rfl
    · cases hrefused
  | turn | sent | passes => exact hs

/-- `m₀` has been given a line for this job, and its process was `p₀`. -/
structure Undisturbed (m₀ : Machine) (p₀ : Process) (job : Job) (m : Machine) : Prop where
  pid : m.pid = m₀.pid
  governed : m.Governed
  serves : m.shell.phase.Serves (.ok (.launch job))
  grows : m₀.world.Grows m.world
  own : ∀ p, m.process? = some p → p.unguarded = p₀.unguarded

variable {m₀ : Machine} {p₀ : Process} {job : Job}

theorem Undisturbed.happens (hu : m₀.Undisturbed p₀ job m) (hm : m.Happens h m')
    (hline : h.isLine = false) : m₀.Undisturbed p₀ job m' := by
  have hg := hu.governed
  refine ⟨hm.pid_eq.trans hu.pid, hg.happens hm, hm.serves hline hu.serves,
    hu.grows.trans (hm.grows hg.keyed hg.known), fun p' hp' => ?_⟩
  obtain ⟨p, hp, hfollows⟩ := hm.follows hg.keyed hg.known hp'
  rcases hfollows.own with hown | ⟨path, hphase⟩
  · exact hown.trans (hu.own p hp)
  · -- a line that launches a job changes no directory
    have hserves := hu.serves
    rw [hphase] at hserves
    obtain ⟨target, heq, -⟩ := hserves.of_changing
    cases heq

theorem Undisturbed.course? {evs : List Happening} (hu : m₀.Undisturbed p₀ job m)
    (hevs : ∀ h ∈ evs, h.isLine = false) (hcourse : m.course? evs = some m') :
    m₀.Undisturbed p₀ job m' :=
  course?_induction (fun _ _ _ hmem hu hm =>
    hu.happens (happens_of_happen? hu.governed.keyed hm) (hevs _ hmem)) hu hcourse

theorem Undisturbed.begin {line : Bytes} {r : LineResult} (hg : m.Governed)
    (hp : m.process? = some p) (hrest : (m.current p).need = .rest r)
    (hline : Request.ofLine line = .ok (.launch job)) :
    m.Undisturbed p job (m.begin line) := by
  have hresting : m.isResting := by
    unfold isResting
    rw [hp]
    dsimp only
    rw [hrest]
  refine ⟨rfl, hg.happens (.line line hresting), ?_, .refl m.world, fun q hq => ?_⟩
  · have hserves := m.shell.serves_phaseOf (Request.ofLine line)
    rw [hline] at hserves
    show (m.shell.phaseOf (Request.ofLine line)).Serves _
    rw [hline]
    exact hserves
  · rw [Option.some.inj (hp.symm.trans hq)]

/-- Once the interpreter rests again, all that is its own is as it was. -/
theorem Undisturbed.of_rest {r : LineResult} (hu : m₀.Undisturbed p₀ job m)
    (hopen : Signal.child ∉ p₀.signals.blocked) (hp : m.process? = some p)
    (hrest : (m.current p).need = .rest r) :
    m.shell.tracker.foreground = none ∧ Signal.child ∉ p.signals.blocked ∧ p.own = p₀.own := by
  have hguards := hu.governed.guards p hp
  have hphase := Shell.standing_of_rest hrest
  have hblocked : Signal.child ∉ p.signals.blocked := fun hc => by
    have := hguards.blocked.1 hc
    rw [hphase] at this
    exact this
  refine ⟨hguards.free (by rw [hphase]; trivial), hblocked, ?_⟩
  have hown := hu.own p hp
  have hsettings := Signals.settings_eq_of_unguarded (s := p.signals) (t := p₀.signals)
    (congrArg (·.signals) hown) hblocked hopen
  calc p.own = { p.unguarded with signals := p.signals.settings } := rfl
    _ = { p₀.unguarded with signals := p₀.signals.settings } := by rw [hown, hsettings]
    _ = p₀.own := rfl

/-- Between lines, with SIGCHLD let through and no foreground job, the interpreter is given a line
that launches a job. Whatever happens then, when it rests again it has no foreground job, SIGCHLD is
let through, its descriptors are the same and refer to the same, and so are its dispositions and its
directory. -/
theorem leaves_no_trace {line : Bytes} {r r' : LineResult} {evs : List Happening}
    (hsound : m.world.Sound) (hp : m.process? = some p) (hrest : (m.current p).need = .rest r)
    (hopen : Signal.child ∉ p.signals.blocked) (hfree : m.shell.tracker.foreground = none)
    (hline : Request.ofLine line = .ok (.launch job)) (hevs : ∀ h ∈ evs, h.isLine = false)
    (hcourse : (m.begin line).course? evs = some m') (hp' : m'.process? = some p')
    (hrest' : (m'.current p').need = .rest r') :
    m'.shell.tracker.foreground = none ∧ Signal.child ∉ p'.signals.blocked ∧
    p'.descriptors = p.descriptors ∧ p'.closing = p.closing ∧
    (∀ fd id, Table.get? p.descriptors fd = some id →
      m'.world.object? id = m.world.object? id) ∧
    p'.signals.dispositions = p.signals.dispositions ∧ p'.directory = p.directory := by
  have hg := governed_of_rest hsound hp hrest hopen hfree
  have hu := (Undisturbed.begin hg hp hrest hline).course? hevs hcourse
  obtain ⟨hforeground, hblocked, hown⟩ := hu.of_rest hopen hp' hrest'
  refine ⟨hforeground, hblocked, congrArg (·.descriptors) hown, congrArg (·.closing) hown,
    fun fd id hfd => hu.grows.objects id ?_, congrArg (·.signals.dispositions) hown,
    congrArg (·.directory) hown⟩
  refine hsound.held _ _ (grip?_process hp) fd { file := id, closing := decide (fd ∈ p.closing) } ?_
  show (Table.get? p.descriptors fd).map _ = _
  rw [hfd]
  rfl

/-! ## A redirection that cannot be opened -/

/-- An interpreter that handles SIGINT and SIGCHLD, with three standard streams and a program
`/a`. -/
def spareMachine : Machine where
  pid := 10
  env := []
  shell := {}
  world := Wiring.threeStagesWorld.setProcess
    { Wiring.threeStagesLeader with
      program := none, signals := Signals.initial.install, farewell := some Shell.farewell }

theorem farewell_spareMachine (hp : spareMachine.process? = some p) :
    p.farewell = some Shell.farewell := by
  obtain rfl := Option.some.inj (hp.symm.trans (World.process?_setProcess _ _ 10))
  rfl

theorem sound_spareMachine : spareMachine.world.Sound := by
  have hold : Wiring.threeStagesWorld.grip? 10 = some Wiring.threeStagesLeader.grip := by
    rw [Wiring.threeStagesWorld, World.grip?_setProcess]
    rfl
  have hs := Wiring.sound_threeStagesWorld
  have hbelow := hs.held 10 _ hold
  refine hs.of_keeps (World.keeps_setProcess _ _) (World.grip?_setProcess_self _ _) ?_
  intro g hg
  obtain rfl := Option.some.inj hg
  exact ⟨rfl, hs.pids 10 _ hold, hbelow, by decide⟩

/-- There is no file `/b`. -/
def failingLine : Bytes := Bytes.ofString "/a < /b"

/-- The job is launched, its process fails, and the interpreter is told while it waits. -/
def failingCourse : List Happening :=
  List.replicate 5 .works ++ List.replicate 8 (.turn 11) ++ List.replicate 7 .works

theorem leaves_no_trace_failingLine : ∃ m' p',
    (spareMachine.begin failingLine).course? failingCourse = some m' ∧ m'.process? = some p' ∧
    m'.shell.tracker.foreground = none ∧ Signal.child ∉ p'.signals.blocked ∧
    p'.descriptors = [(0, 1), (1, 2), (2, 3)] ∧
    p'.signals.dispositions = Signals.initial.install.dispositions := by
  have hresting : ((spareMachine.begin failingLine).course? failingCourse).any isResting := by
    decide +kernel
  obtain ⟨m', hcourse, hrest'⟩ := Option.any_eq_true _ _ |>.1 hresting
  obtain ⟨p', r', hp', hneed'⟩ := exists_of_isResting hrest'
  have hp : spareMachine.process? = some _ := World.process?_setProcess _ _ 10
  have hline : Request.ofLine failingLine =
      .ok (.launch ⟨⟨[["/a"]], some ⟨.input, "/b"⟩⟩, false⟩) := by decide +kernel
  obtain ⟨hforeground, hblocked, hdescriptors, -, -, hdispositions, -⟩ :=
    leaves_no_trace (r := .next) sound_spareMachine hp rfl (by decide) rfl hline (by decide)
      hcourse hp' hneed'
  exact ⟨m', p', hcourse, hp', hforeground, hblocked, hdescriptors, hdispositions⟩

end JobShell.Machine
