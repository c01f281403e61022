import JobShell.Proofs.Line.Evaluation
import JobShell.Proofs.Reading.Transcript

/-!
# Runs of the read loop

Between two steps of the loop the interpreter carries out its line, and other processes and the
system do what they like with the world.

* `ReadLoop.seen`: what can be seen of a step, by the answers that the system gives to it.
* `ReadLoop.moves_of_act`: a step of the loop is one of its moves.
* `ReadLoop.Course`: the runs of the loop; `ReadLoop.course_run` says that the runs in turns are such.
* `ReadLoop.evaluates_lines`: a loop evaluates the lines of its input.
-/

namespace JobShell.ReadLoop

/-- The loop has waited for this result. -/
def heard (l : ReadLoop) (result : LineResult) : List LoopEvent :=
  if l.stage = .evaluating then [.concluded result] else []

/-- What can be seen of a step of the loop while the interpreter rests. -/
def seen (l : ReadLoop) (p : Process) (result : LineResult) : List LoopEvent :=
  l.heard result ++
    match l.need result with
    | .print text _ =>
      match l.machine.world.write p 1 (l.machine.shell.kept ++ text) with
      | .done _ r => [.wrote 1 text r]
      | _ => []
    | .report text _ =>
      match l.machine.world.write p 2 text with
      | .done _ r => [.wrote 2 text r]
      | _ => []
    | .read _ =>
      match l.machine.world.read p 0 pieceSize with
      | .done _ r => [.received r]
      | _ => []
    | .evaluate line _ => [.evaluated line]
    | .leave code _ => [.left code]
    | .step _ | .nothing => []

/-- The system answers the call that the loop makes next, if it makes one. -/
def Answered (l : ReadLoop) (p : Process) (result : LineResult) : Prop :=
  match l.need result with
  | .print text _ =>
    ∃ world r, l.machine.world.write p 1 (l.machine.shell.kept ++ text) = .done world r
  | .report text _ => ∃ world r, l.machine.world.write p 2 text = .done world r
  | .read _ => ∃ world r, l.machine.world.read p 0 pieceSize = .done world r
  | .leave _ _ => (l.machine.flush p).isSome
  | _ => True

variable {l l' l₁ : ReadLoop} {p : Process} {result : LineResult}

/-! ## Steps -/

theorem act_print {text : Bytes} {next : LoopState} (hn : l.need result = .print text next)
    (h : l.act p result = (l', true)) :
    ∃ r, l.seen p result = l.heard result ++ [.wrote 1 text r] ∧ l'.toLoopState = next := by
  simp only [act, hn] at h
  split at h
  · rename_i world r hw
    obtain ⟨rfl, -⟩ := Prod.mk.inj h
    exact ⟨r, by simp only [seen, hn, hw], rfl⟩
  · cases (Prod.mk.inj h).2

theorem act_report {text : Bytes} {next : Except Errno Nat → LoopState}
    (hn : l.need result = .report text next) (h : l.act p result = (l', true)) :
    ∃ r, l.seen p result = l.heard result ++ [.wrote 2 text r] ∧ l'.toLoopState = next r := by
  simp only [act, hn] at h
  split at h
  · rename_i world r hw
    obtain ⟨rfl, -⟩ := Prod.mk.inj h
    exact ⟨r, by simp only [seen, hn, hw], rfl⟩
  · cases (Prod.mk.inj h).2

theorem act_read {next : Except Errno Bytes → LoopState}
    (hn : l.need result = .read next) (h : l.act p result = (l', true)) :
    ∃ r, l.seen p result = l.heard result ++ [.received r] ∧ l'.toLoopState = next r := by
  simp only [act, hn] at h
  split at h
  · rename_i world r hw
    obtain ⟨rfl, -⟩ := Prod.mk.inj h
    exact ⟨r, by simp only [seen, hn, hw], rfl⟩
  · cases (Prod.mk.inj h).2

theorem act_step {s : LoopState} (hn : l.need result = .step s)
    (h : l.act p result = (l', true)) :
    l.seen p result = l.heard result ∧ l'.toLoopState = s := by
  simp only [act, hn] at h
  obtain ⟨rfl, -⟩ := Prod.mk.inj h
  exact ⟨by simp only [seen, hn, List.append_nil], rfl⟩

theorem act_evaluate {line : Bytes} {s : LoopState} (hn : l.need result = .evaluate line s)
    (h : l.act p result = (l', true)) :
    l.seen p result = l.heard result ++ [.evaluated line] ∧ l'.toLoopState = s := by
  simp only [act, hn] at h
  obtain ⟨rfl, -⟩ := Prod.mk.inj h
  exact ⟨by simp only [seen, hn], rfl⟩

/-- The process of the interpreter ends with the exit code. -/
theorem act_leave {code : UInt8} {s : LoopState} (hn : l.need result = .leave code s)
    (h : l.act p result = (l', true)) :
    l.seen p result = l.heard result ++ [.left code] ∧ l'.toLoopState = s ∧
      ∃ w, l.machine.flush p = some w ∧
        l'.machine.world = w.finish l.machine.pid (.exited code) := by
  simp only [act, hn] at h
  split at h
  · rename_i w hw
    obtain ⟨rfl, -⟩ := Prod.mk.inj h
    exact ⟨by simp only [seen, hn], rfl, w, hw, rfl⟩
  · cases (Prod.mk.inj h).2

theorem act_tell {text : Bytes} {next : LoopState} (hn : l.need result = l.tell text next)
    (h : l.act p result = (l', true)) :
    ∃ es, l.seen p result = l.heard result ++ es ∧ l.Tells text es ∧ l'.toLoopState = next := by
  cases hi : l.config.interactive with
  | false =>
    have hn' : l.need result = .step next := by simp only [hn, LoopState.tell, hi]; rfl
    obtain ⟨hseen, hnext⟩ := act_step hn' h
    exact ⟨[], by rw [hseen, List.append_nil], .silent hi, hnext⟩
  | true =>
    have hn' : l.need result = .print text next := by
      simp only [hn, LoopState.tell, hi, if_true]
    obtain ⟨r, hseen, hnext⟩ := act_print hn' h
    exact ⟨_, hseen, .wrote hi r, hnext⟩

theorem heard_of_ne (hs : l.stage ≠ .evaluating) : l.heard result = [] := if_neg hs

/-- A step of the loop that goes on reading is one of its moves. -/
theorem moves_of_reading (hs : l.stage = .reading) (h : l.act p result = (l', true)) :
    l.toLoopState.Moves (l.seen p result) l'.toLoopState := by
  have hheard : l.heard result = [] := heard_of_ne (by simp [hs])
  have hneed : l.need result = l.readNeed := by simp only [LoopState.need, hs]
  unfold LoopState.readNeed at hneed
  split at hneed
  · rename_i hahead
    obtain ⟨r, hseen, hnext⟩ := act_read hneed h
    rw [List.isEmpty_iff] at hahead
    rw [hseen, hheard, hnext]
    match r with
    | .error e => exact .fails hs e
    | .ok (b :: text) => exact .receives hs hahead (List.cons_ne_nil b text)
    | .ok [] =>
      by_cases hline : l.line = []
      · have hr : l.received (.ok []) = { l.toLoopState with stage := .closing } := by
          simp [LoopState.received, hline]
        exact hr ▸ .ends hs hahead hline
      · have hr : l.received (.ok []) = { l.toLoopState with stage := .completing } := by
          simp [LoopState.received, hline]
        exact hr ▸ .breaks hs hahead hline
  · rename_i hahead
    rw [List.isEmpty_iff] at hahead
    split at hneed
    · rename_i text hcut
      obtain ⟨rfl, hnone⟩ := Bytes.cut_eq_none hcut
      obtain ⟨hseen, hnext⟩ := act_step hneed h
      rw [hseen, hheard, hnext]
      exact .gathers hs hahead hnone
    · rename_i text rest hcut
      obtain ⟨hsplit, hnone⟩ := Bytes.cut_eq_some hcut
      obtain ⟨hseen, hnext⟩ := act_evaluate hneed h
      rw [hseen, hheard, hnext]
      exact .evaluates hs hsplit hnone

/-- What follows a line is one of the moves. -/
theorem moves_of_evaluating (hs : l.stage = .evaluating) (h : l.act p result = (l', true)) :
    l.toLoopState.Moves (l.seen p result) l'.toLoopState := by
  have hheard : l.heard result = [.concluded result] := if_pos hs
  have hneed : l.need result = l.concludeNeed result := by simp only [LoopState.need, hs]
  match result with
  | .next =>
    obtain ⟨hseen, hnext⟩ := act_step hneed h
    rw [hseen, hheard, hnext]
    exact .concludes hs nofun rfl
  | .exit =>
    obtain ⟨hseen, hnext⟩ := act_step hneed h
    rw [hseen, hheard, hnext]
    exact .exits hs
  | .failed f =>
    by_cases hf : f.isReported = true
    · have hneed' : l.need (.failed f) =
          .report (Bytes.ofString (reportLine f.message)) l.reported := by
        rw [hneed, LoopState.concludeNeed, if_pos hf]
      obtain ⟨r, hseen, hnext⟩ := act_report hneed' h
      rw [hseen, hheard, hnext]
      exact .reports hs (LineResult.report_of_isReported hf) r
    · have hneed' : l.need (.failed f) = .step { l.toLoopState with stage := .prompting } := by
        rw [hneed, LoopState.concludeNeed, if_neg hf]
      obtain ⟨hseen, hnext⟩ := act_step hneed' h
      rw [hseen, hheard, hnext]
      exact .concludes hs nofun (LineResult.report_of_not_isReported hf)

/-- A step of the loop is one of its moves. -/
theorem moves_of_act (h : l.act p result = (l', true)) :
    l.toLoopState.Moves (l.seen p result) l'.toLoopState := by
  cases hs : l.stage with
  | prompting =>
    obtain ⟨es, hseen, htells, hnext⟩ := act_tell (by simp only [LoopState.need, hs]; rfl) h
    rw [hseen, heard_of_ne (by simp [hs]), hnext]
    exact .prompts hs htells
  | reading => exact moves_of_reading hs h
  | completing =>
    obtain ⟨hseen, hnext⟩ := act_evaluate (by simp only [LoopState.need, hs]; rfl) h
    rw [hseen, heard_of_ne (by simp [hs]), hnext]
    exact .evaluatesLast hs
  | evaluating => exact moves_of_evaluating hs h
  | closing =>
    obtain ⟨es, hseen, htells, hnext⟩ := act_tell (by simp only [LoopState.need, hs]; rfl) h
    rw [hseen, heard_of_ne (by simp [hs]), hnext]
    exact .parts hs htells
  | leaving code =>
    obtain ⟨hseen, hnext, -⟩ := act_leave (by simp only [LoopState.need, hs]; rfl) h
    rw [hseen, heard_of_ne (by simp [hs]), hnext]
    exact .leaves hs
  -- the loop is over
  | _ =>
    simp only [act, LoopState.need, hs] at h
    cases (Prod.mk.inj h).2

/-! ## Runs -/

/-- A run of the loop with the number of its own steps and what can be seen of them. -/
inductive Course : ReadLoop → Nat → List LoopEvent → ReadLoop → Prop where
  | done (l : ReadLoop) : Course l 0 [] l
  /-- Other processes and the system have a turn. They leave alone what the interpreter remembers. -/
  | others {l l' : ReadLoop} {n : Nat} {es : List LoopEvent} (world : World)
      (h : Course { l with machine.world := world } n es l') : Course l n es l'
  /-- The interpreter carries out its line. -/
  | works {l l' : ReadLoop} {n : Nat} {es : List LoopEvent} {m : Machine} {progress : Progress}
      (hm : l.machine.step = (m, progress)) (hprogress : ∀ r, progress ≠ .resting r)
      (h : Course { l with machine := m } n es l') : Course l n es l'
  | acts {l l₁ l' : ReadLoop} {n : Nat} {es : List LoopEvent} {m : Machine} {r : LineResult}
      {p : Process} (hm : l.machine.step = (m, .resting r)) (hp : m.process? = some p)
      (ha : act { l with machine := m } p r = (l₁, true)) (h : Course l₁ n es l') :
      Course l (n + 1) (seen { l with machine := m } p r ++ es) l'

variable {n : Nat} {es : List LoopEvent}

/-- A step that does not get on leaves the loop as it is. -/
theorem act_false (h : l.act p result = (l', false)) : l' = l := by
  have hstands (h : (l, false) = (l', false)) : l' = l := (Prod.mk.inj h).1.symm
  unfold act at h
  split at h
  case h_1 | h_5 => cases (Prod.mk.inj h).2
  case h_2 | h_3 | h_4 | h_6 =>
    split at h
    · cases (Prod.mk.inj h).2
    · exact hstands h
  case h_7 => exact hstands h

/-- A step of the loop or of the interpreter begins a run. -/
theorem Course.of_step (h : Course l.step.1 n es l') : ∃ n es, Course l n es l' := by
  cases hm : l.machine.step with
  | mk m progress =>
  have hworks (hprogress : ∀ r, progress ≠ .resting r)
      (h : Course { l with machine := m } n es l') : ∃ n es, Course l n es l' :=
    ⟨n, es, .works hm hprogress h⟩
  cases progress with
  | moved => exact hworks nofun (by simpa only [step, hm] using h)
  | blocked => exact hworks nofun (by simpa only [step, hm] using h)
  | gone => exact hworks nofun (by simpa only [step, hm] using h)
  | resting r =>
    obtain rfl := (Machine.rest_of_step hm).1
    simp only [step, hm] at h
    cases hp : l.machine.process? with
    | none =>
      rw [hp] at h
      exact ⟨n, es, h⟩
    | some p =>
      rw [hp] at h
      dsimp only at h
      cases ha : l.act p r with
      | mk l₁ moved =>
      rw [ha] at h
      cases moved with
      | true => exact ⟨_, _, .acts hm hp ha h⟩
      | false => exact ⟨n, es, act_false ha ▸ h⟩

theorem Course.of_steps (k : Nat) (h : Course (steps k l).1 n es l') :
    ∃ n es, Course l n es l' := by
  induction k generalizing l n es with
  | zero => exact ⟨n, es, h⟩
  | succ k ih =>
    rw [steps] at h
    split at h
    · rename_i l₁ hstep
      have hl₁ : l₁ = l.step.1 := by rw [hstep]
      subst hl₁
      split at h
      · exact h.of_step
      · obtain ⟨n, es, h⟩ := ih h
        exact h.of_step
    · rename_i l₁ hstep
      have hl₁ : l₁ = l.step.1 := by rw [hstep]
      subst hl₁
      exact h.of_step

/-- The turns of a run are a run. -/
theorem course_run (k : Nat) (l : ReadLoop) : ∃ n es, Course l n es (run k l) := by
  induction k generalizing l with
  | zero => exact ⟨0, [], .done l⟩
  | succ k ih =>
    have hturn {l' : ReadLoop} (h : ∃ n es, Course (steps Machine.turn l).1 n es l') :
        ∃ n es, Course l n es l' := by
      obtain ⟨n, es, h⟩ := h
      exact h.of_steps Machine.turn
    refine hturn ?_
    rw [run]
    dsimp only
    split
    · exact ⟨0, [], .done _⟩
    · split
      · rename_i world _
        obtain ⟨n, es, h⟩ := ih { (steps Machine.turn l).1 with machine.world := world }
        exact ⟨n, es, .others world h⟩
      · split
        · exact ih _
        · exact ⟨0, [], .done _⟩

theorem Course.advances (h : Course l n es l') {input : Bytes} (hfits : l.Fits input)
    (hdelivered : Delivered (es.filterMap LoopEvent.answer?) input)
    (hwritable : ∀ text e, .wrote 2 text (.error e) ∉ es) :
    ∃ rest, l'.Fits rest ∧
      l.script input (es.filterMap LoopEvent.result?) =
        es.filterMap LoopEvent.deed? ++ l'.script rest [] ∧
      n + l'.work rest ≤ l.work input := by
  induction h generalizing input with
  | done l => exact ⟨input, hfits, rfl, Nat.le_of_eq (Nat.zero_add _)⟩
  | others world h ih => exact ih hfits hdelivered hwritable
  | works hm hprogress h ih => exact ih hfits hdelivered hwritable
  | @acts l l₁ l' n es m r p hm hp ha h ih =>
    rw [List.filterMap_append] at hdelivered
    obtain ⟨rest, hmore, hfits₁, hscript, hwork⟩ :=
      (moves_of_act ha).advances hfits hdelivered
        (fun text e he => hwritable text e (List.mem_append_left _ he))
        (es.filterMap LoopEvent.result?)
    obtain ⟨rest', hfits', hscript', hwork'⟩ :=
      ih hfits₁ hmore fun text e he => hwritable text e (List.mem_append_right _ he)
    refine ⟨rest', hfits', ?_, by dsimp only at hwork; omega⟩
    rw [List.filterMap_append, List.filterMap_append, List.append_assoc, ← hscript']
    exact hscript

/-- The loop has ended: what standard output kept was written, the process of the interpreter has ended
with this exit code, and the loop has made no step since. -/
def HasLeft (l : ReadLoop) (code : UInt8) (l' : ReadLoop) : Prop :=
  ∃ n es l₁ p w l₂, Course l n es l₁ ∧ l₁.machine.process? = some p ∧
    l₁.machine.flush p = some w ∧ l₂.machine.world = w.finish l₁.machine.pid (.exited code) ∧
    Course l₂ 0 [] l'

theorem Course.eq_zero_of_over (h : Course l n es l') (hover : l.stage = .over) :
    n = 0 ∧ es = [] := by
  induction h with
  | done l => exact ⟨rfl, rfl⟩
  | others world h ih => exact ih hover
  | works hm hprogress h ih => exact ih hover
  | acts hm hp ha h ih => exact absurd hover (moves_of_act ha).ne_over

/-- A run that has come to its end has left. -/
theorem Course.left_of_over (h : Course l n es l') (hstart : l.stage ≠ .over)
    (hover : l'.stage = .over) : ∃ code, .left code ∈ es ∧ HasLeft l code l' := by
  induction h with
  | done l => exact absurd hover hstart
  | others world h ih =>
    obtain ⟨code, hleft, n, es, l₁, p, w, l₂, hcourse, hrest⟩ := ih hstart hover
    exact ⟨code, hleft, n, es, l₁, p, w, l₂, .others world hcourse, hrest⟩
  | works hm hprogress h ih =>
    obtain ⟨code, hleft, n, es, l₁, p, w, l₂, hcourse, hrest⟩ := ih hstart hover
    exact ⟨code, hleft, n, es, l₁, p, w, l₂, .works hm hprogress hcourse, hrest⟩
  | @acts l l₁ l' n es m r p hm hp ha h ih =>
    by_cases hl₁ : l₁.stage = .over
    · obtain ⟨code, hs⟩ := (moves_of_act ha).leaving_of_over hl₁
      have hs : l.stage = .leaving code := hs
      obtain ⟨hseen, -, w, hflush, hworld⟩ := act_leave (by simp only [LoopState.need, hs]; rfl) ha
      obtain ⟨rfl, rfl⟩ := h.eq_zero_of_over hl₁
      obtain ⟨rfl, -⟩ := Machine.rest_of_step hm
      refine ⟨code, ?_, 0, [], l, p, w, l₁, .done l, hp, hflush, hworld, h⟩
      rw [hseen]
      simp
    · obtain ⟨code, hleft, k, fs, l₂, q, w, l₃, hcourse, hrest⟩ := ih hl₁ hover
      exact ⟨code, List.mem_append_right _ hleft, k + 1, _, l₂, q, w, l₃, .acts hm hp ha hcourse,
        hrest⟩

theorem need_ne_nothing (hover : l.stage ≠ .over) : l.need result ≠ .nothing := by
  have htell (text : Bytes) (next : LoopState) : l.tell text next ≠ .nothing := by
    unfold LoopState.tell
    split <;> nofun
  unfold LoopState.need
  split
  · exact htell _ _
  · unfold LoopState.readNeed
    split
    · nofun
    · split <;> nofun
  · nofun
  · unfold LoopState.concludeNeed
    split
    · nofun
    · nofun
    · split <;> nofun
  · exact htell _ _
  · nofun
  · rename_i hs
    exact absurd hs hover

/-- A loop that is not over gets on when the interpreter rests and the system answers. -/
theorem act_of_answered (hover : l.stage ≠ .over) (h : l.Answered p result) :
    (l.act p result).2 = true := by
  have hneed : l.need result ≠ .nothing := need_ne_nothing hover
  unfold Answered at h
  unfold act
  cases hn : l.need result <;> rw [hn] at h
  case print | report | read =>
    obtain ⟨world, r, hw⟩ := h
    simp only [hw]
  case leave =>
    obtain ⟨world, hw⟩ := Option.isSome_iff_exists.1 h
    simp only [hw]
  case nothing => exact absurd hn hneed

/-- Whatever a step of the loop changes of what the interpreter remembers can be seen. -/
theorem shell_act (h : l.act p result = (l', true)) :
    l'.machine.shell = (l.seen p result).foldl LoopEvent.remembered l.machine.shell := by
  have hheard : (l.heard result).foldl LoopEvent.remembered l.machine.shell = l.machine.shell := by
    unfold heard
    split <;> rfl
  unfold act at h
  rw [seen, List.foldl_append, hheard]
  cases hn : l.need result <;> rw [hn] at h <;> dsimp only at h
  case print | report | read =>
    split at h
    · rename_i hw
      obtain ⟨rfl, -⟩ := Prod.mk.inj h
      simp only [hw]
      rfl
    · cases (Prod.mk.inj h).2
  case leave =>
    split at h
    · obtain ⟨rfl, -⟩ := Prod.mk.inj h
      rfl
    · cases (Prod.mk.inj h).2
  case nothing => cases (Prod.mk.inj h).2
  case step | evaluate =>
    obtain ⟨rfl, -⟩ := Prod.mk.inj h
    rfl

/-! ## Runs of the loop alone -/

/-- At most `k` steps with nobody else in between: how many of them are the loop's own, what can be seen
of these, and the loop after them. -/
def follow : Nat → ReadLoop → Nat × List LoopEvent × ReadLoop
  | 0, l => (0, [], l)
  | k + 1, l =>
    match l.machine.step with
    | (m, .resting r) =>
      match m.process? with
      | some p =>
        match { l with machine := m }.act p r with
        | (l₁, true) =>
          let (n, es, l') := follow k l₁
          (n + 1, { l with machine := m }.seen p r ++ es, l')
        | _ => (0, [], l)
      | none => (0, [], l)
    | (m, _) => follow k { l with machine := m }

theorem course_follow (k : Nat) (l : ReadLoop) :
    Course l (follow k l).1 (follow k l).2.1 (follow k l).2.2 := by
  induction k generalizing l with
  | zero => exact .done l
  | succ k ih =>
    rw [follow]
    split
    · rename_i m r hm
      split
      · rename_i p hp
        split
        · rename_i l₁ ha
          exact .acts hm hp ha (ih l₁)
        · exact .done l
      · exact .done l
    · rename_i m progress hprogress hm
      exact .works hm hprogress (ih _)

/-- The bytes of a line that fails, an empty line, and a line without a newline. -/
def threeLines : Bytes := Bytes.ofString "|\n\ncd"

/-- An interpreter with `threeLines` as its standard input, and with a pipe for what it writes. -/
def threeLinesLoop : ReadLoop where
  config := { prompt := ">>", interactive := true }
  machine :=
    { pid := 10
      env := []
      shell := {}
      world :=
        { files := (((∅ : Std.TreeMap Nat OpenFile).insert 1
              { object := .text threeLines, readable := true }).insert 2
              { object := .writeEnd 1, writable := true }).insert 3
              { object := .readEnd 1, readable := true }
          processes := (∅ : Std.TreeMap Pid Process).insert 10
            { pid := 10, parent := 1, group := 10, program := none
              descriptors := [(0, 1), (1, 2), (2, 2), (3, 3)]
              directory := .inode FileTree.root } } }

/-! ## The lines of the input -/

/-- Whatever pieces the input comes in, and whatever other processes do between two steps, the loop
does with the lines of its input what the transcript says, as far as it has come; when it is over it
has done all of it, and the process of the interpreter has ended with exit code 0. It makes a limited
number of steps, and the next one whenever the interpreter has come to the end of its line and the
system answers. -/
theorem evaluates_lines (hstage : l.stage = .prompting) (hahead : l.ahead = []) (hline : l.line = [])
    (h : Course l n es l') {input : Bytes}
    (hinput : Delivered (es.filterMap LoopEvent.answer?) input)
    (hwritable : ∀ text e, .wrote 2 text (.error e) ∉ es) :
    es.filterMap LoopEvent.deed? <+:
        l.config.transcript (Bytes.lines input) (es.filterMap LoopEvent.result?) ∧
      (l'.stage = .over →
        es.filterMap LoopEvent.deed? =
            l.config.transcript (Bytes.lines input) (es.filterMap LoopEvent.result?) ∧
          .left 0 ∈ es.filterMap LoopEvent.deed? ∧ HasLeft l 0 l' ∧
          (l.config.interactive = true →
            (es.filterMap LoopEvent.deed?).count
                (.wrote 1 (Bytes.ofString (l.config.prompt ++ " "))) =
              (es.filterMap LoopEvent.deed?).countP LoopDeed.isEvaluation +
                (es.filterMap LoopEvent.deed?).count (.wrote 1 [Bytes.newline]))) ∧
      n ≤ 6 * input.length + 4 ∧
      ∀ r p, l'.stage ≠ .over → l'.machine.step = (l'.machine, .resting r) →
        l'.machine.process? = some p → l'.Answered p r →
          ∃ next, l'.step = (next, true) ∧
            next.machine.shell = (l'.seen p r).foldl LoopEvent.remembered l'.machine.shell := by
  have hfits : l.Fits input :=
    { line := by simp [hline]
      between := fun _ _ => hline
      last := by simp [hstage] }
  obtain ⟨rest, -, hscript, hwork⟩ := h.advances hfits hinput hwritable
  have hstart : l.script input (es.filterMap LoopEvent.result?) =
      l.config.transcript (Bytes.lines input) (es.filterMap LoopEvent.result?) := by
    simp only [LoopState.script, hstage, hline, hahead, List.nil_append]
  rw [hstart] at hscript
  refine ⟨⟨_, hscript.symm⟩, fun hover => ?_, ?_, fun r p hover hm hp hanswered => ?_⟩
  · have hall : es.filterMap LoopEvent.deed? =
        l.config.transcript (Bytes.lines input) (es.filterMap LoopEvent.result?) := by
      simpa only [LoopState.script, hover, List.append_nil] using hscript.symm
    obtain ⟨code, hleft, hgone⟩ := h.left_of_over (by simp [hstage]) hover
    have hdeed : .left code ∈ es.filterMap LoopEvent.deed? := List.mem_filterMap.2 ⟨_, hleft, rfl⟩
    have hpart := hdeed
    rw [hall] at hpart
    obtain ⟨rfl, hends⟩ := l.config.ends_of_left_mem hpart
    refine ⟨hall, hdeed, hgone, fun hi => ?_⟩
    rw [hall]
    exact l.config.count_prompt hi hends
  · have hwork₀ : l.work input = 6 * input.length + 4 := by
      simp [LoopState.work, hahead, hline, hstage, LoopState.distance]
    omega
  · have hgot := act_of_answered hover hanswered
    have hstep : l'.step = l'.act p r := by simp only [step, hm, hp]
    cases ha : l'.act p r with
    | mk next moved =>
      rw [ha] at hgot hstep
      obtain rfl : moved = true := hgot
      exact ⟨next, hstep, shell_act ha⟩

theorem evaluates_threeLines :
    (follow 30 threeLinesLoop).2.2.stage = .over ∧
      (follow 30 threeLinesLoop).2.1.filterMap LoopEvent.deed? =
        threeLinesLoop.config.transcript [Bytes.ofString "|", [], Bytes.ofString "cd"]
          [.failed (.line (.malformed .emptyStage)), .next, .next] := by
  have hover : (follow 30 threeLinesLoop).2.2.stage = .over := by decide +kernel
  have hanswers : (follow 30 threeLinesLoop).2.1.filterMap LoopEvent.answer? =
      [.ok threeLines, .ok [], .ok []] := by decide +kernel
  have hresults : (follow 30 threeLinesLoop).2.1.filterMap LoopEvent.result? =
      [.failed (.line (.malformed .emptyStage)), .next, .next] := by decide +kernel
  have hlines : Bytes.lines threeLines = [Bytes.ofString "|", [], Bytes.ofString "cd"] := by decide
  have hwritten : (follow 30 threeLinesLoop).2.1.all (!·.isUnreported) := by decide +kernel
  have hdelivered : Delivered ((follow 30 threeLinesLoop).2.1.filterMap LoopEvent.answer?)
      threeLines := by
    rw [hanswers]
    exact ⟨[], rfl, rfl, rfl, trivial⟩
  obtain ⟨-, hend, -⟩ := evaluates_lines rfl rfl rfl (course_follow 30 threeLinesLoop) hdelivered
    fun text e he => absurd (List.all_eq_true.1 hwritten _ he) Bool.false_ne_true
  rw [← hlines, ← hresults]
  exact ⟨hover, (hend hover).1⟩

end JobShell.ReadLoop
