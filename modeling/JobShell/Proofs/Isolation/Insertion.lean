import JobShell.Proofs.Chronicle.Dialogue
import JobShell.Proofs.Isolation.Standstill
import JobShell.Proofs.Isolation.Trace

/-!
# Lines that ask for nothing

Blank lines, comments and lines that are refused may be put into a session wherever the interpreter
rests: every other line ends as it would have ended without them, with the interpreter and all of
the world in the same state.

* `Machine.Matches`: two machines that differ at most in the result of the latest line.
* `Machine.Inserts`: a course with further lines in it that ask for nothing.
* `Machine.conclusions`: the other lines and the machine each of them leaves.
* `Machine.lines_without_jobs`: the theorem for all lines that launch nothing.
-/

namespace JobShell

/-- A line that is blank, a comment or refused. -/
def asksNothing (line : Bytes) : Bool :=
  match Request.ofLine line with
  | .ok .noop => true
  | .error _ => true
  | _ => false

/-- The interpreter is given a line that asks for nothing. -/
def Happening.isIdle : Happening → Bool
  | line text => asksNothing text
  | _ => false

/-- The line that is being carried out, if it was `line` before. -/
def Happening.lineAfter (line : Bytes) : Happening → Bytes
  | .line text => text
  | _ => line

/-- The result of a line that is over. -/
def Phase.result? : Phase → Option LineResult
  | finished r => some r
  | _ => none

/-- A line that asks for nothing has been carried out once it is given. -/
theorem atRest_of_asksNothing {line : Bytes} (h : asksNothing line) (s : Shell) :
    (s.phaseOf (Request.ofLine line)).atRest := by
  unfold asksNothing at h
  split at h
  · rename_i hreq
    rw [hreq]
    rfl
  · rename_i e hreq
    rw [hreq]
    rfl
  · cases h

namespace Machine

variable {m m' m₁ m₁' : Machine} {p : Process} {phase : Phase} {h ev : Happening}
  {evs evs' : List Happening} {line : Bytes}

/-! ## The result of the latest line -/

/-- The machine with another result of the latest line. -/
def withPhase (m : Machine) (phase : Phase) : Machine := { m with shell := { m.shell with phase } }

/-- The same machine, or the same but for the result of the latest line, which is over. -/
def Matches (m m' : Machine) : Prop :=
  m' = m ∨ ∃ phase, m.shell.phase.atRest ∧ phase.atRest ∧ m' = m.withPhase phase

theorem lineNeed_of_atRest {s : Shell} (h : s.phase.atRest) : ∃ r, s.lineNeed = .rest r := by
  unfold Shell.lineNeed
  generalize s.phase = phase at h
  cases phase with
  | idle => exact ⟨.next, rfl⟩
  | finished r => exact ⟨r, rfl⟩
  | _ => cases h

theorem refused?_of_atRest {s : Shell} (h : s.phase.atRest) (e : Errno) : s.refused? e = none := by
  generalize hp : s.phase = phase at h
  cases phase with
  | idle | finished r => exact Shell.refused?_eq_none (by rw [hp]; nofun) (by rw [hp]; nofun) e
  | _ => cases h

theorem isResting_iff :
    m.isResting ↔ m.process?.isSome ∧ m.shell.handlers = [] ∧ m.shell.phase.atRest := by
  constructor
  · intro h
    obtain ⟨p, r, hp, hneed⟩ := exists_of_isResting h
    obtain ⟨h0, hphase⟩ := Shell.rest_of_need hneed
    have hphase : m.shell.phase = .idle ∨ m.shell.phase = .finished r := hphase
    refine ⟨by rw [hp]; rfl, h0, ?_⟩
    rcases hphase with hphase | hphase <;> rw [hphase] <;> rfl
  · rintro ⟨hsome, h0, hrest⟩
    obtain ⟨p, hp⟩ := Option.isSome_iff_exists.1 hsome
    obtain ⟨r, hr⟩ := lineNeed_of_atRest (s := m.current p) hrest
    have hneed : (m.current p).need = .rest r := by
      rw [Shell.need, show (m.current p).handlers = [] from h0]
      exact hr
    unfold isResting
    rw [hp]
    dsimp only
    rw [hneed]

theorem deliver?_withPhase (s : Shell) (phase : Phase) :
    { s with phase }.deliver? = s.deliver?.map ({ · with phase }) := by
  unfold Shell.deliver?
  rw [Option.map_map]
  rfl

theorem takeSignal?_withPhase (m : Machine) (p : Process) (phase : Phase) :
    (m.withPhase phase).takeSignal? p = (m.takeSignal? p).map (·.withPhase phase) := by
  have hcurrent : (m.withPhase phase).current p = { m.current p with phase } := rfl
  unfold takeSignal?
  dsimp only
  rw [hcurrent, deliver?_withPhase]
  cases (m.current p).deliver? with
  | some s => rfl
  | none =>
    dsimp only [Option.map_none]
    rw [Option.map_map]
    rfl

/-- A handler does not look at the line below it. -/
theorem act_withPhase (h0 : m.shell.handlers ≠ []) (phase : Phase) :
    ((m.withPhase phase).act p).1 = (m.act p).1.withPhase phase := by
  obtain ⟨world, ⟨home, tracker, status, old, handlers, children, signals, kept⟩, pid, env, leader⟩ := m
  obtain ⟨d, rest, rfl⟩ := List.exists_cons_of_ne_nil h0
  unfold act
  cases d with
  | newline =>
    dsimp only [withPhase, current, Shell.need, Shell.handlerNeed]
    cases world.write p 1 Shell.farewell <;> rfl
  | interrupting | noticing =>
    dsimp only [withPhase, current, Shell.need, Shell.handlerNeed]
    cases tracker.foreground <;> rfl
  | forwarding pid => rfl
  | leaving => rfl
  | reaping pass =>
    dsimp only [withPhase, current, Shell.need, Shell.handlerNeed]
    cases pass.result? <;> rfl

theorem act_of_atRest (h0 : m.shell.handlers = []) (hrest : m.shell.phase.atRest) :
    (m.act p).1 = m := by
  have hneed : (m.current p).need = (m.current p).lineNeed := by
    rw [Shell.need, show (m.current p).handlers = [] from h0]
  obtain ⟨r, hr⟩ := lineNeed_of_atRest (s := m.current p) hrest
  rw [act, hneed, hr]

theorem step_withPhase (hrest : m.shell.phase.atRest) (hphase : phase.atRest) :
    (m.withPhase phase).step.1 = m.step.1.withPhase phase := by
  have hprocess : (m.withPhase phase).process? = m.process? := rfl
  unfold step
  rw [hprocess]
  cases m.process? with
  | none => rfl
  | some p =>
    dsimp only
    by_cases hstopped : p.stopped = true
    · rw [if_pos hstopped, if_pos hstopped]
    · rw [if_neg hstopped, if_neg hstopped, takeSignal?_withPhase]
      cases m.takeSignal? p with
      | some m' => rfl
      | none =>
        dsimp only [Option.map_none]
        by_cases h0 : m.shell.handlers = []
        · rw [act_of_atRest (m := m.withPhase phase) h0 hphase, act_of_atRest h0 hrest]
        · exact act_withPhase h0 phase

/-- The result of a line that is over stays until the next line, and makes no difference. -/
theorem happen?_withPhase (hrest : m.shell.phase.atRest) (hphase : phase.atRest)
    (hline : h.isLine = false) :
    (m.withPhase phase).happen? h = (m.happen? h).map (·.withPhase phase) := by
  cases h with
  | line text => cases hline
  | works => exact congrArg some (step_withPhase hrest hphase)
  | refused e =>
    rw [happen?, happen?, show (m.withPhase phase).process? = m.process? from rfl]
    cases m.process? with
    | none => rfl
    | some p =>
      dsimp only [Option.bind_some]
      rw [refused?_of_atRest (s := (m.withPhase phase).current p) hphase,
        refused?_of_atRest (s := m.current p) hrest]
      rfl
  | turn pid =>
    rw [happen?, happen?, show (m.withPhase phase).pid = m.pid from rfl]
    split <;> rfl
  | sent pid n => rfl
  | passes clock => rfl

theorem phase_of_happen? (hrest : m.shell.phase.atRest) (hline : h.isLine = false)
    (hm : m.happen? h = some m') : m'.shell.phase = m.shell.phase := by
  -- The phase it has is as good as any other one.
  have hsame := happen?_withPhase hrest hrest hline
  rw [show m.withPhase m.shell.phase = m from rfl, hm] at hsame
  exact congrArg (·.shell.phase) (Option.some.inj hsame)

/-! ## Machines that match -/

theorem Matches.refl (m : Machine) : m.Matches m := .inl rfl

theorem Matches.symm (h : m.Matches m') : m'.Matches m := by
  rcases h with rfl | ⟨phase, hrest, hphase, rfl⟩
  · exact .refl m'
  · exact .inr ⟨m.shell.phase, hphase, hrest, rfl⟩

theorem Matches.atRest_eq (h : m.Matches m') :
    m'.shell.phase.atRest = m.shell.phase.atRest := by
  rcases h with rfl | ⟨phase, hrest, hphase, rfl⟩
  · rfl
  · exact hphase.trans hrest.symm

theorem Matches.isResting_eq (h : m.Matches m') : m'.isResting = m.isResting := by
  rcases h with rfl | ⟨phase, hrest, hphase, rfl⟩
  · rfl
  · rw [Bool.eq_iff_iff, isResting_iff, isResting_iff]
    have hiff : phase.atRest ↔ m.shell.phase.atRest := iff_of_true hphase hrest
    exact and_congr_right fun _ => and_congr_right fun _ => hiff

/-- What can happen to one of two machines that match can happen to the other one. After a line they
are the same. -/
theorem Matches.happen? (h : m.Matches m') (hm : m.happen? ev = some m₁) :
    ∃ m₁', m'.happen? ev = some m₁' ∧ m₁.Matches m₁' ∧
      (ev.isLine ∨ m.shell.phase.atRest = false → m₁' = m₁) := by
  rcases h with rfl | ⟨phase, hrest, hphase, rfl⟩
  · exact ⟨m₁, hm, .refl m₁, fun _ => rfl⟩
  · cases hline : ev.isLine with
    | false =>
      refine ⟨m₁.withPhase phase, ?_, .inr ⟨phase, ?_, hphase, rfl⟩, ?_⟩
      · rw [happen?_withPhase hrest hphase hline, hm]
        rfl
      · rw [phase_of_happen? hrest hline hm]
        exact hrest
      · rw [hrest]
        rintro (h | h) <;> cases h
    | true =>
      cases ev with
      | line text =>
        have hresting : (m.withPhase phase).isResting = m.isResting :=
          Matches.isResting_eq (.inr ⟨phase, hrest, hphase, rfl⟩)
        refine ⟨m₁, ?_, .refl m₁, fun _ => rfl⟩
        rw [← hm, Machine.happen?, Machine.happen?, hresting]
        rfl
      | _ => cases hline

/-- A line that asks for nothing makes no difference. -/
theorem Matches.begin (h : m.Matches m') (hidle : asksNothing line) (hrest : m.isResting) :
    m.Matches (m'.begin line) := by
  obtain ⟨-, -, hatRest⟩ := isResting_iff.1 hrest
  have hphase := atRest_of_asksNothing hidle m.shell
  rcases h with rfl | ⟨phase, -, -, rfl⟩
  · exact .inr ⟨_, hatRest, hphase, rfl⟩
  · exact .inr ⟨_, hatRest, hphase, rfl⟩

/-! ## Lines put in -/

/-- `evs'` is the course `evs` of `m` with lines put in that ask for nothing, each where the
interpreter rests. -/
inductive Inserts : Machine → List Happening → List Happening → Prop where
  | nil (m : Machine) : Inserts m [] []
  | keep {m m' : Machine} {ev : Happening} {evs evs' : List Happening}
      (hm : m.happen? ev = some m') (h : Inserts m' evs evs') : Inserts m (ev :: evs) (ev :: evs')
  | insert {m : Machine} {line : Bytes} {evs evs' : List Happening} (hrest : m.isResting)
      (hidle : asksNothing line) (h : Inserts m evs evs') : Inserts m evs (.line line :: evs')

/-- The line is over with what has led from `m` to `m'`. -/
def ends (m : Machine) (ev : Happening) (m' : Machine) : Bool :=
  m'.shell.phase.atRest && (ev.isLine || !m.shell.phase.atRest)

/-- The lines that ask for something, each with the machine it leaves when it is over. -/
def conclusions (line : Bytes) (m : Machine) : List Happening → List (Bytes × Machine)
  | [] => []
  | ev :: rest =>
    match m.happen? ev with
    | none => []
    | some m' =>
      if ev.isIdle then conclusions line m' rest
      else
        let line := ev.lineAfter line
        (if m.ends ev m' then [(line, m')] else []) ++ conclusions line m' rest

/-- Where a line ends, the machines are the same. -/
theorem Matches.ends_eq (h : m.Matches m') (h₁ : m₁.Matches m₁')
    (hsame : ev.isLine ∨ m.shell.phase.atRest = false → m₁' = m₁) (line : Bytes) :
    (if m'.ends ev m₁' then [(line, m₁')] else []) = if m.ends ev m₁ then [(line, m₁)] else [] := by
  have hends : m'.ends ev m₁' = m.ends ev m₁ := by
    rw [ends, ends, h.atRest_eq, h₁.atRest_eq]
  rw [hends]
  by_cases he : m.ends ev m₁ = true
  · have hover : ev.isLine ∨ m.shell.phase.atRest = false := by
      simpa using (Bool.and_eq_true_iff.1 he).2
    rw [hsame hover]
  · rw [if_neg he, if_neg he]

/-- By induction on the lines that are put in: the two courses match all along. -/
theorem Matches.inserts (hmatch : m.Matches m') (h : m.Inserts evs evs')
    (hcourse : m.course? evs = some m₁) (line : Bytes) :
    ∃ m₁', m'.course? evs' = some m₁' ∧ m₁.Matches m₁' ∧
      m'.conclusions line evs' = m.conclusions line evs := by
  induction h generalizing m' line with
  | nil m =>
    obtain rfl := Option.some.inj hcourse
    exact ⟨m', rfl, hmatch, rfl⟩
  | @keep m m₂ ev evs evs' hm h ih =>
    rw [Machine.course?, hm] at hcourse
    obtain ⟨m₂', hm', hmatch', hsame⟩ := hmatch.happen? hm
    obtain ⟨m₁', hrest, hfinal, -⟩ := ih hmatch' hcourse line
    refine ⟨m₁', ?_, hfinal, ?_⟩
    · rw [Machine.course?, hm']
      exact hrest
    · have hlater (line : Bytes) : m₂'.conclusions line evs' = m₂.conclusions line evs := by
        obtain ⟨-, -, -, hlines⟩ := ih hmatch' hcourse line
        exact hlines
      rw [conclusions, conclusions, hm, hm']
      dsimp only
      rw [hlater, hlater, hmatch.ends_eq hmatch' hsame]
  | @insert m text evs evs' hrest hidle h ih =>
    obtain ⟨m₁', hcourse', hfinal, hlines⟩ := ih (hmatch.begin hidle hrest) hcourse line
    have hgiven : m'.happen? (.line text) = some (m'.begin text) := by
      rw [Machine.happen?, hmatch.isResting_eq, if_pos hrest]
    refine ⟨m₁', ?_, hfinal, ?_⟩
    · rw [Machine.course?, hgiven]
      exact hcourse'
    · have hskip : (Happening.line text).isIdle = true := hidle
      rw [conclusions, hgiven, ← hlines]
      dsimp only
      rw [if_pos hskip]

/-- The lines that ask for nothing can be left out of a course. -/
theorem Matches.filter (hmatch : m.Matches m') (hcourse : m'.course? evs = some m₁') :
    m.Inserts (evs.filter (!·.isIdle)) evs ∧
      ∃ m₁, m.course? (evs.filter (!·.isIdle)) = some m₁ := by
  induction evs generalizing m m' with
  | nil => exact ⟨.nil m, m, rfl⟩
  | cons ev rest ih =>
    obtain ⟨m₂', hm', hrest⟩ := Option.bind_eq_some_iff.1 hcourse
    cases hidle : ev.isIdle with
    | true =>
      rw [List.filter_cons_of_neg (by simp [hidle])]
      cases ev with
      | line text =>
        have hidle : asksNothing text = true := hidle
        rw [Machine.happen?] at hm'
        split at hm'
        · rename_i hresting
          obtain rfl := Option.some.inj hm'
          have hresting : m.isResting = true := hmatch.isResting_eq ▸ hresting
          obtain ⟨hinserts, hcourse⟩ := ih (hmatch.begin hidle hresting) hrest
          exact ⟨.insert hresting hidle hinserts, hcourse⟩
        · cases hm'
      | _ => cases hidle
    | false =>
      rw [List.filter_cons_of_pos (by simp [hidle])]
      obtain ⟨m₂, hm, hmatch', -⟩ := hmatch.symm.happen? hm'
      obtain ⟨hinserts, m₁, hcourse⟩ := ih hmatch'.symm hrest
      refine ⟨.keep hm hinserts, m₁, ?_⟩
      rw [Machine.course?, hm]
      exact hcourse

/-! ## Lines that launch nothing -/

/-- A line that launches no job, whatever happens while it is carried out, leaves alone what it
should: the interpreter makes no process and opens no file, its last status, its foreground job and
the signals it holds back stay as they are, its directory is left only by a `cd` that succeeds, and
the steps of the line itself do nothing but the one write of `status` and the one change of
directory of `cd`. Lines that ask for nothing may be put into a course wherever the interpreter
rests and may be left out of one: all other lines end with the same machine, and at last the two
machines are the same but for the result of the latest line. -/
theorem lines_without_jobs (hn : m.Numbered) :
    (∀ line evs m' p p', m.process? = some p → ¬LaunchesJob (Request.ofLine line) →
      (∀ h ∈ evs, h.isLine = false) → (m.begin line).course? evs = some m' →
      m'.process? = some p' → m.LeavesBe p (Request.ofLine line) m' p') ∧
    (∀ evs evs' m₁ line, m.Inserts evs evs' → m.course? evs = some m₁ →
      ∃ m₁', m.course? evs' = some m₁' ∧ m₁.Matches m₁' ∧
        m.conclusions line evs' = m.conclusions line evs) ∧
    ∀ evs m₁' line, m.course? evs = some m₁' →
      ∃ m₁, m.course? (evs.filter (!·.isIdle)) = some m₁ ∧ m₁.Matches m₁' ∧
        m.conclusions line evs = m.conclusions line (evs.filter (!·.isIdle)) := by
  refine ⟨fun line evs m' p p' hp hline hevs hcourse hp' =>
    leavesBe_of_course? hn hp hline hevs hcourse hp', fun evs evs' m₁ line hinserts hcourse =>
    (Matches.refl m).inserts hinserts hcourse line, fun evs m₁' line hcourse => ?_⟩
  obtain ⟨hinserts, m₁, hcourse₁⟩ := (Matches.refl m).filter hcourse
  obtain ⟨m₂, hcourse₂, hmatch, hlines⟩ := (Matches.refl m).inserts hinserts hcourse₁ line
  obtain rfl := Option.some.inj (hcourse.symm.trans hcourse₂)
  exact ⟨m₁, hcourse₁, hmatch, hlines⟩

/-- There is no directory `/b`; a blank line and a malformed one stand around `status`. -/
theorem lines_without_jobs_spareMachine :
    (∃ m' p', (spareMachine.begin (Bytes.ofString "cd /b")).course? [.works] = some m' ∧
      m'.process? = some p' ∧ p'.directory = Wiring.threeStagesLeader.directory) ∧
    ∃ m₁ m₁', spareMachine.course? [.line (Bytes.ofString "status"), .works] = some m₁ ∧
      spareMachine.course? [.line (Bytes.ofString " "), .line (Bytes.ofString "status"), .works,
        .line (Bytes.ofString "|")] = some m₁' ∧ m₁.Matches m₁' := by
  have hn : spareMachine.Numbered := ⟨sound_spareMachine.keyed, by decide⟩
  obtain ⟨hleaves, -, hfilter⟩ := lines_without_jobs hn
  refine ⟨?_, ?_⟩
  · have hfailed : ((spareMachine.begin (Bytes.ofString "cd /b")).course? [.works]).any fun m =>
        m.process?.isSome && m.shell.phase.result? ≠ some .next := by decide +kernel
    obtain ⟨m', hcourse, hm'⟩ := Option.any_eq_true _ _ |>.1 hfailed
    rw [Bool.and_eq_true] at hm'
    obtain ⟨p', hp'⟩ := Option.isSome_iff_exists.1 hm'.1
    have hp : spareMachine.process? = some _ := World.process?_setProcess _ _ 10
    have hline : Request.ofLine (Bytes.ofString "cd /b") = .ok (.builtin (.cd (some "/b"))) := by
      decide +kernel
    have hjob : ¬LaunchesJob (Request.ofLine (Bytes.ofString "cd /b")) := by
      rw [hline]
      rintro ⟨job, h⟩
      cases h
    refine ⟨m', p', hcourse, hp', ?_⟩
    rcases (hleaves _ _ m' _ p' hp hjob (by decide) hcourse hp').directory with h | h
    · exact h
    · obtain ⟨_, _, -, -, -, -, hphase⟩ := h
      rw [hphase] at hm'
      exact absurd rfl (of_decide_eq_true hm'.2)
  · have hsome : (spareMachine.course? [.line (Bytes.ofString " "),
        .line (Bytes.ofString "status"), .works, .line (Bytes.ofString "|")]).isSome := by
      decide +kernel
    obtain ⟨m₁', hcourse⟩ := Option.isSome_iff_exists.1 hsome
    obtain ⟨m₁, hcourse₁, hmatch, -⟩ := hfilter _ m₁' [] hcourse
    have hleft : [Happening.line (Bytes.ofString " "), .line (Bytes.ofString "status"), .works,
        .line (Bytes.ofString "|")].filter (!·.isIdle) =
          [.line (Bytes.ofString "status"), .works] := by decide +kernel
    rw [hleft] at hcourse₁
    exact ⟨m₁, m₁', hcourse₁, hcourse, hmatch⟩

end Machine

end JobShell
