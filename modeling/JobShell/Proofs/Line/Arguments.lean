import JobShell.Proofs.Line.Delivery
import JobShell.Proofs.Line.Evaluation

/-!
# From the bytes of a line to what the system is handed

* `Machine.Evaluates.ofLine_of_fork`, `Machine.Evaluates.ofLine_of_changeDirectory`: the interpreter
  forks, and changes its directory, only for what stands on the line.
* `Machine.keeps_arguments`: a line is refused or handed over byte for byte.
-/

namespace JobShell.Machine

variable {m m' : Machine} {p : Process} {line : Bytes}

theorem Evaluates.notUtf8_iff (h : m.Evaluates line) :
    m.shell.phase = .finished (.failed (.line .notUtf8)) ↔ ¬Utf8.WellFormed line :=
  h.serves.refused_iff.trans Request.ofLine_eq_notUtf8_iff

/-- The pipeline that is handed to a new process is the one on the line. -/
theorem Evaluates.ofLine_of_fork {pipeline : Pipeline} {next : Pid → Shell}
    (h : m.Evaluates line) (hneed : (m.current p).need = .fork pipeline next) :
    ∃ background, Request.ofLine line = .ok (.launch ⟨pipeline, background⟩) := by
  obtain ⟨h0, job, hphase, -⟩ := Shell.fork_of_need hneed
  rw [Shell.need_of_guarded h0 hphase] at hneed
  obtain ⟨rfl, -⟩ := Need.fork.inj hneed
  have hserves := h.serves
  rw [show m.shell.phase = .guarded job from hphase] at hserves
  exact ⟨job.background, hserves.of_guarded⟩

/-- The directory that is gone to is the one on the line, if there is one on it. -/
theorem Evaluates.ofLine_of_changeDirectory {path : Bytes} {next : Except Errno Unit → Shell}
    (h : m.Evaluates line) (hneed : (m.current p).need = .changeDirectory path next) :
    ∃ target, Request.ofLine line = .ok (.builtin (.cd target)) ∧
      ∀ t ∈ target, path = Bytes.ofString t := by
  obtain ⟨-, hphase, -⟩ := Shell.changeDirectory_of_need hneed
  have hserves := h.serves
  rw [show m.shell.phase = .changing path from hphase] at hserves
  exact hserves.of_changing

theorem act_fork {pipeline : Pipeline} {next : Pid → Shell}
    (hneed : (m.current p).need = .fork pipeline next) :
    (m.act p).1.world = (m.world.fork p (Launch.leader m.env pipeline).run).2 := by
  simp only [act, hneed]
  rfl

theorem act_changeDirectory {path : Bytes} {next : Except Errno Unit → Shell}
    (hneed : (m.current p).need = .changeDirectory path next) :
    (m.act p).1.world = if 0 ∈ path then m.world else (m.world.chdir p path).1 := by
  simp only [act, hneed]
  split <;> rfl

/-- The process that is started for a line hands over its segments. -/
theorem Evaluates.hands_of_fork {text : String} {pipeline : Pipeline} {next : Pid → Shell}
    (h : m.Evaluates (Bytes.ofString text))
    (hneed : (m.current p).need = .fork pipeline next) :
    ∃ background,
      (Delivery.ofPipeline pipeline background).segments = (tokenize text).map Bytes.ofString ∧
      ((Launch.leader m.env pipeline).run).Hands
        (0 ∉ Bytes.ofString text ∧
          (Delivery.ofPipeline pipeline background).Reaches (Environment.get? m.env "PATH"))
        (Delivery.ofPipeline pipeline background).target
        (Delivery.ofPipeline pipeline background).argvs := by
  obtain ⟨background, hline⟩ := h.ofLine_of_fork hneed
  rw [Request.ofLine_ofString] at hline
  obtain ⟨hjob, hwords, -⟩ := Job.ofWords_eq_ok_iff.1 (Request.ofWords_of_launch hline)
  have hsegments : (Delivery.ofPipeline pipeline background).segments =
      (tokenize text).map Bytes.ofString := by
    rw [← hwords]
    exact Delivery.segments_ofPipeline ⟨pipeline, background⟩
  exact ⟨background, hsegments,
    Delivery.hands_ofPipeline hjob (Bytes.segmented_ofString.2 hsegments.symm)⟩

/-- The interpreter goes to the directory in the second segment of the line, if it has one. -/
theorem Evaluates.second_of_changeDirectory {text : String} {path : Bytes}
    {next : Except Errno Unit → Shell} (h : m.Evaluates (Bytes.ofString text))
    (hneed : (m.current p).need = .changeDirectory path next) :
    ((tokenize text).map Bytes.ofString)[0]? = some (Bytes.ofString "cd") ∧
      ∀ second ∈ ((tokenize text).map Bytes.ofString)[1]?, path = second := by
  obtain ⟨target, hline, hpath⟩ := h.ofLine_of_changeDirectory hneed
  rw [Request.ofLine_ofString] at hline
  obtain ⟨rest, htok, rfl⟩ := Request.ofText_eq_cd_iff.1 hline
  rw [htok]
  refine ⟨rfl, fun second hsecond => ?_⟩
  cases rest with
  | nil => cases hsecond
  | cons t rest =>
    obtain rfl := Option.some.inj hsecond
    exact hpath t rfl

/-- A line of `cd` and a second segment is carried out by going there. -/
theorem lineNeed_of_cd {text : String} {second : Bytes} {rest : List Bytes}
    (hsegments : (tokenize text).map Bytes.ofString = Bytes.ofString "cd" :: second :: rest)
    (s : Shell) :
    ∃ next, (s.begin (Bytes.ofString text)).lineNeed = .changeDirectory second next := by
  obtain ⟨w, ws, htok, hw, hws⟩ := List.map_eq_cons_iff.1 hsegments
  obtain ⟨t, ts, rfl, rfl, -⟩ := List.map_eq_cons_iff.1 hws
  obtain rfl := Bytes.ofString_inj.1 hw
  have hline : Request.ofLine (Bytes.ofString text) = .ok (.builtin (.cd (some t))) := by
    rw [Request.ofLine_ofString]
    exact Request.ofText_eq_cd_iff.2 ⟨_, htok, rfl⟩
  have hphase : (s.begin (Bytes.ofString text)).phase = .changing (Bytes.ofString t) := by
    rw [Shell.begin, hline]
    rfl
  rw [Shell.lineNeed, hphase]
  exact ⟨_, rfl⟩

/-- A line that is not well-formed is refused as such, and no other line is. A well-formed line has
one list of segments. The process that is started for its job hands over the segments, but for `|`,
the operator of the redirection and the last `&`, each once and in order, and nothing else; nothing
keeps it from that if there is no NUL in the line. `cd` goes to the second segment. -/
theorem keeps_arguments (h : m.Evaluates line) :
    (m.shell.phase = .finished (.failed (.line .notUtf8)) ↔ ¬Utf8.WellFormed line) ∧
    (∀ m' r, m.step = (m', .resting r) →
      (r = .failed (.line .notUtf8) ↔ ¬Utf8.WellFormed line)) ∧
    (Utf8.WellFormed line → ∃ segments,
      (∀ other, Bytes.Segmented line other ↔ segments = other) ∧
      (∀ p pipeline next, (m.current p).need = .fork pipeline next → ∃ program background,
        (m.act p).1.world = (m.world.fork p program).2 ∧
        (Delivery.ofPipeline pipeline background).segments = segments ∧
        program.Hands
          (0 ∉ line ∧
            (Delivery.ofPipeline pipeline background).Reaches (Environment.get? m.env "PATH"))
          (Delivery.ofPipeline pipeline background).target
          (Delivery.ofPipeline pipeline background).argvs) ∧
      (∀ p path next, (m.current p).need = .changeDirectory path next →
        (m.act p).1.world = (if 0 ∈ path then m.world else (m.world.chdir p path).1) ∧
        segments[0]? = some (Bytes.ofString "cd") ∧ ∀ second ∈ segments[1]?, path = second) ∧
      ∀ second rest, segments = Bytes.ofString "cd" :: second :: rest → ∀ s : Shell,
        ∃ next, (s.begin line).lineNeed = .changeDirectory second next) := by
  refine ⟨h.notUtf8_iff, fun m' r hstep => ?_, fun hwf => ?_⟩
  · rw [← h.notUtf8_iff, h.phase_of_resting hstep, Phase.finished.injEq]
  · obtain ⟨text, rfl⟩ := Utf8.wellFormed_iff.1 hwf
    refine ⟨(tokenize text).map Bytes.ofString, fun other => Bytes.segmented_ofString, ?_, ?_, ?_⟩
    · intro p pipeline next hneed
      obtain ⟨background, hsegments, hhands⟩ := h.hands_of_fork hneed
      exact ⟨_, background, act_fork hneed, hsegments, hhands⟩
    · intro p path next hneed
      exact ⟨act_changeDirectory hneed, h.second_of_changeDirectory hneed⟩
    · intro second rest hsegments s
      exact lineNeed_of_cd hsegments s

/-- A line with a letter and a blank of more than one byte. -/
def wideText : String := "cat a | tr é x >\u3000out &"

def widePipeline : Pipeline where
  stages := [["cat", "a"], ["tr", "é", "x"]]
  redirect := some { kind := .truncate, target := "out" }

/-- An interpreter without any open files. -/
def bareMachine : Machine where
  pid := 10
  env := []
  shell := {}
  world :=
    { processes := (∅ : Std.TreeMap Pid Process).insert 10
        { pid := 10, parent := 1, group := 10, program := none, descriptors := []
          directory := .inode FileTree.root } }

/-- SIGCHLD is held back for a job with this pipeline, and no handler runs. -/
def isGuardedFor (m : Machine) (pipeline : Pipeline) : Bool :=
  match m.shell.phase, m.shell.handlers with
  | .guarded job, [] => decide (job.pipeline = pipeline)
  | _, _ => false

/-- It is about to fork for that line. -/
def wideMachine : Machine := (bareMachine.begin (Bytes.ofString wideText)).step.1

theorem keeps_arguments_wideText :
    wideMachine.Evaluates (Bytes.ofString wideText) ∧
    ∀ p, ∃ program, (wideMachine.act p).1.world = (wideMachine.world.fork p program).2 ∧
      program.Hands True (some (Bytes.ofString "out"))
        [[Bytes.ofString "cat", Bytes.ofString "a"],
          [Bytes.ofString "tr", [0xc3, 0xa9], Bytes.ofString "x"]] := by
  have h : wideMachine.Evaluates (Bytes.ofString wideText) := .works (.begins bareMachine) rfl
  refine ⟨h, fun p => ?_⟩
  have hguarded : wideMachine.isGuardedFor widePipeline := by decide +kernel
  unfold isGuardedFor at hguarded
  split at hguarded
  · rename_i job hphase hhandlers
    have hneed := Shell.need_of_guarded (s := wideMachine.current p) hhandlers hphase
    obtain ⟨-, -, hwf⟩ := keeps_arguments h
    obtain ⟨segments, -, hfork, -⟩ := hwf ⟨wideText.toList, rfl⟩
    obtain ⟨program, background, hworld, -, hhands⟩ := hfork p _ _ hneed
    rw [of_decide_eq_true hguarded] at hhands
    have hall : 0 ∉ Bytes.ofString wideText ∧
        (Delivery.ofPipeline widePipeline background).Reaches
          (Environment.get? wideMachine.env "PATH") := by
      have henv : wideMachine.env = [] := by decide +kernel
      rw [henv]
      refine ⟨by decide, ?_⟩
      unfold Delivery.Reaches
      cases background <;> decide
    rw [eq_true hall] at hhands
    exact ⟨program, hworld, hhands⟩
  · cases hguarded

end JobShell.Machine
