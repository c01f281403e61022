import JobShell.Interp.ReadLoop
import JobShell.Proofs.Reading.Lines

/-!
# What the read loop does

The loop is driven by the answers to its reads and by the results of its lines. Whatever pieces the
input comes in, what it does is a function of the lines of the input and of their results.

* `LoopEvent`: what can be seen of the loop.
* `LoopState.Moves`: what one step of the loop can be.
* `Config.transcript`: what the loop has to do with its input, one line after another.
* `LoopState.script`: the same for a loop that has begun.
* `LoopState.Advances`, `LoopState.Moves.advances`: a step does the next piece of it and brings the end
  nearer.
-/

namespace JobShell

/-- What can be seen of a step of the loop. -/
inductive LoopEvent where
  /-- A text was to be written; on descriptor 1 it stands behind what standard output keeps. -/
  | wrote (fd : Nat) (text : Bytes) (answer : Except Errno Nat)
  /-- A read of standard input was answered. -/
  | received (answer : Except Errno Bytes)
  /-- The interpreter was given a line. -/
  | evaluated (line : Bytes)
  /-- The interpreter has come to the end of its line. -/
  | concluded (result : LineResult)
  | left (code : UInt8)

/-- What the loop does, apart from what it is told. -/
inductive LoopDeed where
  | wrote (fd : Nat) (text : Bytes)
  | evaluated (line : Bytes)
  | left (code : UInt8)
  deriving DecidableEq, Repr

def LoopDeed.isEvaluation : LoopDeed → Bool
  | evaluated _ => true
  | _ => false

namespace LoopEvent

def deed? : LoopEvent → Option LoopDeed
  | wrote fd text _ => some (.wrote fd text)
  | evaluated line => some (.evaluated line)
  | left code => some (.left code)
  | _ => none

/-- A report that could not be written. -/
def isUnreported : LoopEvent → Bool
  | wrote 2 _ (.error _) => true
  | _ => false

def answer? : LoopEvent → Option (Except Errno Bytes)
  | received answer => some answer
  | _ => none

/-- What the interpreter remembers after a step of the loop. -/
def remembered (s : Shell) : LoopEvent → Shell
  | wrote 1 text answer => s.told text (answer.map fun _ => ())
  | evaluated line => s.begin line
  | _ => s

def result? : LoopEvent → Option LineResult
  | concluded result => some result
  | _ => none

end LoopEvent

/-- The answers to reads deliver this text, or the first part of it. Once the end of the input has
been seen, all of it has been delivered. -/
def Delivered : List (Except Errno Bytes) → Bytes → Prop
  | [], _ => True
  | .ok [] :: answers, input => input = [] ∧ Delivered answers []
  | .ok text :: answers, input => ∃ more, input = text ++ more ∧ Delivered answers more
  | .error _ :: _, _ => False

theorem delivered_cons {text input : Bytes} {answers : List (Except Errno Bytes)}
    (htext : text ≠ []) : Delivered (.ok text :: answers) input ↔
      ∃ more, input = text ++ more ∧ Delivered answers more := by
  cases text with
  | nil => exact absurd rfl htext
  | cons b text => rfl

/-! ## Transcripts -/

/-- What is done about the result of a line: a failure is reported, but not that the directory could
not be changed. -/
def LineResult.report : LineResult → List LoopDeed
  | .next | .exit | .failed (.changeDirectory _ _) => []
  | .failed f => [.wrote 2 (Bytes.ofString ("error: " ++ f.message ++ "\n"))]

theorem LineResult.report_cases (result : LineResult) :
    result.report = [] ∨ ∃ text, result.report = [.wrote 2 text] := by
  match result with
  | .next | .exit | .failed (.changeDirectory _ _) => exact .inl rfl
  | .failed (.line _) | .failed (.launch _) | .failed (.output _) => exact .inr ⟨_, rfl⟩

theorem LineResult.report_of_isReported {f : Failure} (h : f.isReported = true) :
    report (.failed f) = [.wrote 2 (Bytes.ofString (reportLine f.message))] := by
  cases f with
  | changeDirectory path e => cases h
  | line e => rfl
  | launch e => rfl
  | output f => rfl

theorem LineResult.report_of_not_isReported {f : Failure} (h : ¬f.isReported = true) :
    report (.failed f) = [] := by
  cases f with
  | changeDirectory path e => rfl
  | line e => exact absurd rfl h
  | launch e => exact absurd rfl h
  | output f => exact absurd rfl h

namespace Config

variable (c : Config)

def prompted : List LoopDeed :=
  if c.interactive then [.wrote 1 (Bytes.ofString (c.prompt ++ " "))] else []

/-- What is done at the end of the input. -/
def parting : List LoopDeed := if c.interactive then [.wrote 1 [Bytes.newline], .left 0] else [.left 0]

/-- What is done after a prompt, as far as the results of the lines go. -/
def continued : List Bytes → List LineResult → List LoopDeed
  | [], _ => c.parting
  | line :: rest, results =>
    .evaluated line :: match results with
      | [] => []
      | .exit :: _ => [.left 0]
      | result :: results => result.report ++ (c.prompted ++ continued rest results)

/-- What is done with these lines: each is prompted for and evaluated, and its failure reported. A
line that asks for it ends the loop, as does the end of the input, which is prompted for too. -/
def transcript (lines : List Bytes) (results : List LineResult) : List LoopDeed :=
  c.prompted ++ c.continued lines results

/-- What is done after a line has been evaluated. -/
def concluding (rest : List Bytes) : List LineResult → List LoopDeed
  | [] => []
  | .exit :: _ => [.left 0]
  | result :: results => result.report ++ c.transcript rest results

theorem concluding_cons {result : LineResult} (h : result ≠ .exit) (rest : List Bytes)
    (results : List LineResult) :
    c.concluding rest (result :: results) = result.report ++ c.transcript rest results := by
  match result with
  | .next => rfl
  | .exit => exact absurd rfl h
  | .failed _ => rfl

theorem continued_cons (line : Bytes) (rest : List Bytes) (results : List LineResult) :
    c.continued (line :: rest) results = .evaluated line :: c.concluding rest results := by
  match results with
  | [] => rfl
  | .exit :: _ => rfl
  | .next :: _ => rfl
  | .failed _ :: _ => rfl

theorem transcript_cons (line : Bytes) (rest : List Bytes) (results : List LineResult) :
    c.transcript (line :: rest) results =
      c.prompted ++ .evaluated line :: c.concluding rest results := by
  rw [transcript, continued_cons]

/-- The results lead to the end of the loop. -/
inductive Ends : List Bytes → List LineResult → Prop where
  | input (results : List LineResult) : Ends [] results
  | exit (line : Bytes) (rest : List Bytes) (results : List LineResult) :
      Ends (line :: rest) (.exit :: results)
  | line {rest : List Bytes} {result : LineResult} {results : List LineResult} (line : Bytes)
      (hexit : result ≠ .exit) (h : Ends rest results) : Ends (line :: rest) (result :: results)

theorem left_not_mem_prompted (code : UInt8) : .left code ∉ c.prompted := by
  unfold prompted
  split <;> simp

/-- The loop leaves when it has come to its end, with exit code 0. -/
theorem ends_of_left_mem {code : UInt8} {ls : List Bytes} {results : List LineResult}
    (h : .left code ∈ c.transcript ls results) : code = 0 ∧ Ends ls results := by
  induction ls generalizing results with
  | nil =>
    refine ⟨?_, .input results⟩
    have hparting := (List.mem_append.1 h).resolve_left (c.left_not_mem_prompted code)
    unfold continued parting at hparting
    split at hparting <;> simpa using hparting
  | cons line rest ih =>
    rw [transcript_cons] at h
    have hconcluding := (List.mem_append.1 h).resolve_left (c.left_not_mem_prompted code)
    have hconcluding := (List.mem_cons.1 hconcluding).resolve_left nofun
    cases results with
    | nil => cases hconcluding
    | cons result results =>
      by_cases hexit : result = .exit
      · subst hexit
        exact ⟨LoopDeed.left.inj (List.mem_singleton.1 hconcluding), .exit line rest results⟩
      · rw [c.concluding_cons hexit] at hconcluding
        have hreport : .left code ∉ result.report := by
          rcases result.report_cases with hreport | ⟨text, hreport⟩ <;> simp [hreport]
        obtain ⟨hcode, hends⟩ := ih ((List.mem_append.1 hconcluding).resolve_left hreport)
        exact ⟨hcode, .line line hexit hends⟩

/-- In an interactive loop that comes to its end there is a prompt for each line, and one more if the
end of the input is seen. -/
theorem count_prompt (hi : c.interactive = true) {ls : List Bytes} {results : List LineResult}
    (h : Ends ls results) :
    (c.transcript ls results).count (.wrote 1 (Bytes.ofString (c.prompt ++ " "))) =
      (c.transcript ls results).countP LoopDeed.isEvaluation +
        (c.transcript ls results).count (.wrote 1 [Bytes.newline]) := by
  have hprompt : Bytes.ofString (c.prompt ++ " ") ≠ [Bytes.newline] := by
    have hblank : Bytes.ofString (c.prompt ++ " ") = Bytes.ofString c.prompt ++ [0x20] := by
      simp [Bytes.ofString, Bytes.ofChars, String.utf8EncodeChar]
    intro heq
    have hlast := congrArg List.getLast? (hblank.symm.trans heq)
    simp only [List.getLast?_concat, List.getLast?_singleton, Option.some.injEq] at hlast
    exact absurd hlast (by decide)
  have hprompted : c.prompted = [.wrote 1 (Bytes.ofString (c.prompt ++ " "))] := if_pos hi
  induction h with
  | input results =>
    have hparting : c.parting = [.wrote 1 [Bytes.newline], .left 0] := if_pos hi
    simp [transcript, continued, hprompted, hparting, LoopDeed.isEvaluation, hprompt, hprompt.symm]
  | exit line rest results =>
    simp [transcript, continued, hprompted, List.countP_cons, LoopDeed.isEvaluation, hprompt]
  | @line rest result results line hexit h ih =>
    rw [transcript_cons, c.concluding_cons hexit, hprompted]
    rcases result.report_cases with hreport | ⟨text, hreport⟩ <;> rw [hreport] <;>
      simp [List.countP_cons, LoopDeed.isEvaluation, hprompt, ih] <;> omega

end Config

/-! ## Steps of the loop -/

namespace LoopState

/-- A text is printed for whoever sits at the terminal, if there is one. -/
inductive Tells (s : LoopState) (text : Bytes) : List LoopEvent → Prop where
  | silent (h : s.config.interactive = false) : Tells s text []
  | wrote (h : s.config.interactive = true) (answer : Except Errno Nat) :
      Tells s text [.wrote 1 text answer]

/-- What a step of the loop can be, and what can be seen of it. -/
inductive Moves (s : LoopState) : List LoopEvent → LoopState → Prop where
  | prompts {es : List LoopEvent} (hs : s.stage = .prompting)
      (h : s.Tells (Bytes.ofString (s.config.prompt ++ " ")) es) :
      Moves s es { s with stage := .reading }
  /-- A piece of the input arrives. -/
  | receives (hs : s.stage = .reading) (hahead : s.ahead = []) {text : Bytes} (htext : text ≠ []) :
      Moves s [.received (.ok text)] { s with ahead := text }
  /-- The end of the input is seen between two lines. -/
  | ends (hs : s.stage = .reading) (hahead : s.ahead = []) (hline : s.line = []) :
      Moves s [.received (.ok [])] { s with stage := .closing }
  /-- The end of the input is seen within a line. -/
  | breaks (hs : s.stage = .reading) (hahead : s.ahead = []) (hline : s.line ≠ []) :
      Moves s [.received (.ok [])] { s with stage := .completing }
  | fails (hs : s.stage = .reading) (e : Errno) :
      Moves s [.received (.error e)] { s with stage := .leaving 0 }
  /-- What has been read belongs to the line as a whole. -/
  | gathers (hs : s.stage = .reading) (hahead : s.ahead ≠ []) (hnone : Bytes.newline ∉ s.ahead) :
      Moves s [] { s with ahead := [], line := s.line ++ s.ahead }
  | evaluates (hs : s.stage = .reading) {text rest : Bytes}
      (hahead : s.ahead = text ++ Bytes.newline :: rest) (hnone : Bytes.newline ∉ text) :
      Moves s [.evaluated (s.line ++ text)]
        { s with ahead := rest, line := [], stage := .evaluating }
  | evaluatesLast (hs : s.stage = .completing) :
      Moves s [.evaluated s.line] { s with line := [], stage := .evaluating }
  | concludes (hs : s.stage = .evaluating) {result : LineResult} (hexit : result ≠ .exit)
      (hreport : result.report = []) :
      Moves s [.concluded result] { s with stage := .prompting }
  | exits (hs : s.stage = .evaluating) : Moves s [.concluded .exit] { s with stage := .leaving 0 }
  | reports (hs : s.stage = .evaluating) {result : LineResult} {text : Bytes}
      (hreport : result.report = [.wrote 2 text]) (answer : Except Errno Nat) :
      Moves s [.concluded result, .wrote 2 text answer] (s.reported answer)
  | parts {es : List LoopEvent} (hs : s.stage = .closing) (h : s.Tells [Bytes.newline] es) :
      Moves s es { s with stage := .leaving 0 }
  | leaves {code : UInt8} (hs : s.stage = .leaving code) :
      Moves s [.left code] { s with stage := .over }

variable {s s' : LoopState} {es : List LoopEvent}

/-! ## The rest of the transcript -/

/-- What is still to be done, with the rest of the input to come and the results to come. -/
def script (s : LoopState) (input : Bytes) (results : List LineResult) : List LoopDeed :=
  match s.stage with
  | .prompting => s.config.transcript (Bytes.lines (s.line ++ s.ahead ++ input)) results
  | .reading | .completing => s.config.continued (Bytes.lines (s.line ++ s.ahead ++ input)) results
  | .evaluating => s.config.concluding (Bytes.lines (s.line ++ s.ahead ++ input)) results
  | .closing => s.config.parting
  | .leaving code => [.left code]
  | .over => []

/-- What the loop remembers fits the rest of the input. -/
structure Fits (s : LoopState) (input : Bytes) : Prop where
  /-- The line that is being read has not come to its newline. -/
  line : Bytes.newline ∉ s.line
  /-- Between lines, no line is being read. -/
  between : s.stage ≠ .reading → s.stage ≠ .completing → s.line = []
  /-- A line without a newline is the last one. -/
  last : s.stage = .completing → s.line ≠ [] ∧ s.ahead = [] ∧ input = []

theorem Tells.deeds {text : Bytes} (h : s.Tells text es) :
    es.filterMap LoopEvent.deed? = if s.config.interactive then [.wrote 1 text] else [] := by
  cases h with
  | silent h => rw [h]; rfl
  | wrote h answer => rw [h]; rfl

theorem Tells.answers {text : Bytes} (h : s.Tells text es) :
    es.filterMap LoopEvent.answer? = [] ∧ es.filterMap LoopEvent.result? = [] := by
  cases h with
  | silent h => exact ⟨rfl, rfl⟩
  | wrote h answer => exact ⟨rfl, rfl⟩

/-! ## How much is left to do -/

/-- How far a stage is from the end of the loop when there is no more input. -/
def distance : LoopStage → Nat
  | .evaluating => 5
  | .prompting => 4
  | .reading => 3
  | .completing | .closing => 2
  | .leaving _ => 1
  | .over => 0

/-- A bound on the steps the loop has still to make. A byte costs a read, a step that takes it into
the line, and the four steps that the line takes if it ends with that byte. -/
def work (s : LoopState) (input : Bytes) : Nat :=
  6 * input.length + 5 * s.ahead.length + (if s.line = [] then 0 else 4) + distance s.stage

/-- A step does the next piece of what is to be done; of `input`, `rest` is still to come then, and
there is less to do. -/
structure Advances (s : LoopState) (es : List LoopEvent) (s' : LoopState) (input rest : Bytes)
    (results : List LineResult) : Prop where
  fits : s'.Fits rest
  script : s.script input (es.filterMap LoopEvent.result? ++ results) =
    es.filterMap LoopEvent.deed? ++ s'.script rest results
  work : s'.work rest < s.work input

variable {input rest text : Bytes} {results : List LineResult} {result : LineResult}

theorem advances_prompting (hs : s.stage = .prompting) (hfits : s.Fits input)
    (h : s.Tells (Bytes.ofString (s.config.prompt ++ " ")) es) :
    s.Advances es { s with stage := .reading } input input results := by
  obtain ⟨config, ahead, line, stage⟩ := s
  subst hs
  refine ⟨⟨hfits.line, fun h => absurd rfl h, nofun⟩, ?_, ?_⟩
  · rw [h.answers.2, h.deeds]
    rfl
  · simp [work, distance]

theorem advances_receiving (hs : s.stage = .reading) (hahead : s.ahead = []) (htext : text ≠ [])
    (hfits : s.Fits (text ++ rest)) :
    s.Advances [.received (.ok text)] { s with ahead := text } (text ++ rest) rest results := by
  obtain ⟨config, ahead, line, stage⟩ := s
  subst hs hahead
  have hpos := List.length_pos_iff.2 htext
  refine ⟨⟨hfits.line, fun h => absurd rfl h, nofun⟩, ?_, ?_⟩
  · simp only [script, List.append_nil, List.append_assoc]
    rfl
  · simp only [work, List.length_append, List.length_nil]
    omega

/-- The end of the input is seen between two lines. -/
theorem advances_ending (hs : s.stage = .reading) (hahead : s.ahead = []) (hline : s.line = [])
    (hfits : s.Fits []) :
    s.Advances [.received (.ok [])] { s with stage := .closing } [] [] results := by
  obtain ⟨config, ahead, line, stage⟩ := s
  subst hs hahead hline
  exact ⟨⟨hfits.line, fun _ _ => rfl, nofun⟩, rfl, by simp [work, distance]⟩

/-- The end of the input is seen within a line. -/
theorem advances_breaking (hs : s.stage = .reading) (hahead : s.ahead = []) (hline : s.line ≠ [])
    (hfits : s.Fits []) :
    s.Advances [.received (.ok [])] { s with stage := .completing } [] [] results := by
  obtain ⟨config, ahead, line, stage⟩ := s
  subst hs hahead
  exact ⟨⟨hfits.line, fun _ h => absurd rfl h, fun _ => ⟨hline, rfl, rfl⟩⟩, rfl,
    by simp [work, distance]⟩

theorem advances_gathering (hs : s.stage = .reading) (hahead : s.ahead ≠ [])
    (hnone : Bytes.newline ∉ s.ahead) (hfits : s.Fits input) :
    s.Advances [] { s with ahead := [], line := s.line ++ s.ahead } input input results := by
  obtain ⟨config, ahead, line, stage⟩ := s
  subst hs
  have hpos : 0 < ahead.length := List.length_pos_iff.2 hahead
  have hgathered : Bytes.newline ∉ line ++ ahead := by
    rw [List.mem_append, not_or]
    exact ⟨hfits.line, hnone⟩
  refine ⟨⟨hgathered, fun h => absurd rfl h, nofun⟩, ?_, ?_⟩
  · simp only [script, List.append_nil]
    rfl
  · simp only [work, List.length_nil]
    split <;> split <;> omega

/-- A line is complete at its newline. -/
theorem advances_evaluating {rest' : Bytes} (hs : s.stage = .reading)
    (hahead : s.ahead = text ++ Bytes.newline :: rest') (hnone : Bytes.newline ∉ text)
    (hfits : s.Fits input) :
    s.Advances [.evaluated (s.line ++ text)]
      { s with ahead := rest', line := [], stage := .evaluating } input input results := by
  obtain ⟨config, ahead, line, stage⟩ := s
  subst hs hahead
  have hwhole : Bytes.newline ∉ line ++ text := by
    rw [List.mem_append, not_or]
    exact ⟨hfits.line, hnone⟩
  refine ⟨⟨List.not_mem_nil, fun _ _ => rfl, nofun⟩, ?_, ?_⟩
  · have hsplit : line ++ (text ++ Bytes.newline :: rest') ++ input =
        (line ++ text) ++ Bytes.newline :: (rest' ++ input) := by
      simp only [List.append_assoc, List.cons_append]
    simp only [script, hsplit, Bytes.lines_append_newline hwhole, Config.continued_cons]
    rfl
  · simp only [work, List.length_append, List.length_cons, distance, if_true]
    omega

/-- What is left at the end of the input is the last line. -/
theorem advances_completing (hs : s.stage = .completing) (hfits : s.Fits input) :
    s.Advances [.evaluated s.line] { s with line := [], stage := .evaluating } input input
      results := by
  obtain ⟨hne, hahead, rfl⟩ := hfits.last hs
  obtain ⟨config, ahead, line, stage⟩ := s
  subst hs hahead
  refine ⟨⟨List.not_mem_nil, fun _ _ => rfl, nofun⟩, ?_, ?_⟩
  · simp only [script, List.append_nil, Bytes.lines_of_not_mem hfits.line hne,
      Config.continued_cons]
    rfl
  · have hne : line ≠ [] := hne
    simp [work, distance, hne]

/-- The line is over, and its failure is reported if it has one to report. -/
theorem advances_concluding (hs : s.stage = .evaluating) (hexit : result ≠ .exit)
    (hes : es.filterMap LoopEvent.result? = [result])
    (hreport : es.filterMap LoopEvent.deed? = result.report) (hfits : s.Fits input) :
    s.Advances es { s with stage := .prompting } input input results := by
  have hline := hfits.between (by simp [hs]) (by simp [hs])
  obtain ⟨config, ahead, line, stage⟩ := s
  subst hs hline
  refine ⟨⟨hfits.line, fun _ _ => rfl, nofun⟩, ?_, by simp [work, distance]⟩
  rw [hes, hreport]
  exact config.concluding_cons hexit _ _

theorem advances_exiting (hs : s.stage = .evaluating) (hfits : s.Fits input) :
    s.Advances [.concluded .exit] { s with stage := .leaving 0 } input input results := by
  have hline := hfits.between (by simp [hs]) (by simp [hs])
  obtain ⟨config, ahead, line, stage⟩ := s
  subst hs hline
  exact ⟨⟨hfits.line, fun _ _ => rfl, nofun⟩, rfl, by simp [work, distance]⟩

theorem advances_leaving {code : UInt8} (hs : s.stage = .leaving code) (hfits : s.Fits input) :
    s.Advances [.left code] { s with stage := .over } input input results := by
  have hline := hfits.between (by simp [hs]) (by simp [hs])
  obtain ⟨config, ahead, line, stage⟩ := s
  subst hs hline
  exact ⟨⟨hfits.line, fun _ _ => rfl, nofun⟩, rfl, by simp [work, distance]⟩

theorem advances_parting (hs : s.stage = .closing) (h : s.Tells [Bytes.newline] es)
    (hfits : s.Fits input) :
    s.Advances es { s with stage := .leaving 0 } input input results := by
  have hline := hfits.between (by simp [hs]) (by simp [hs])
  obtain ⟨config, ahead, line, stage⟩ := s
  subst hs hline
  refine ⟨⟨hfits.line, fun _ _ => rfl, nofun⟩, ?_, by simp [work, distance]⟩
  rw [h.answers.2, h.deeds]
  simp only [script, Config.parting]
  split <;> rfl

/-- A step does the next piece of what is to be done, and there is less to do after it. -/
theorem Moves.advances (h : s.Moves es s') (hfits : s.Fits input)
    {answers : List (Except Errno Bytes)}
    (hdelivered : Delivered (es.filterMap LoopEvent.answer? ++ answers) input)
    (hwritable : ∀ text e, .wrote 2 text (.error e) ∉ es) (results : List LineResult) :
    ∃ rest, Delivered answers rest ∧ s.Advances es s' input rest results := by
  -- Only a move that receives something takes of the input.
  cases h with
  | prompts hs h =>
    rw [h.answers.1] at hdelivered
    exact ⟨input, hdelivered, advances_prompting hs hfits h⟩
  | receives hs hahead htext =>
    obtain ⟨rest, rfl, hmore⟩ := (delivered_cons htext).1 hdelivered
    exact ⟨rest, hmore, advances_receiving hs hahead htext hfits⟩
  | ends hs hahead hline =>
    obtain ⟨rfl, hmore⟩ := hdelivered
    exact ⟨[], hmore, advances_ending hs hahead hline hfits⟩
  | breaks hs hahead hline =>
    obtain ⟨rfl, hmore⟩ := hdelivered
    exact ⟨[], hmore, advances_breaking hs hahead hline hfits⟩
  | fails hs e => exact hdelivered.elim
  | gathers hs hahead hnone =>
    exact ⟨input, hdelivered, advances_gathering hs hahead hnone hfits⟩
  | evaluates hs hahead hnone =>
    exact ⟨input, hdelivered, advances_evaluating hs hahead hnone hfits⟩
  | evaluatesLast hs => exact ⟨input, hdelivered, advances_completing hs hfits⟩
  | concludes hs hexit hreport =>
    exact ⟨input, hdelivered, advances_concluding hs hexit rfl hreport.symm hfits⟩
  | exits hs => exact ⟨input, hdelivered, advances_exiting hs hfits⟩
  | @reports hs result text hreport answer =>
    cases answer with
    | error e => exact (hwritable text e (List.mem_cons_of_mem _ List.mem_cons_self)).elim
    | ok n =>
      have hexit : result ≠ .exit := by
        rintro rfl
        cases hreport
      exact ⟨input, hdelivered, advances_concluding hs hexit rfl hreport.symm hfits⟩
  | parts hs h =>
    rw [h.answers.1] at hdelivered
    exact ⟨input, hdelivered, advances_parting hs h hfits⟩
  | leaves hs => exact ⟨input, hdelivered, advances_leaving hs hfits⟩

/-- The loop is over only when it has left. -/
theorem Moves.leaving_of_over (h : s.Moves es s') (hover : s'.stage = .over) :
    ∃ code, s.stage = .leaving code := by
  cases h with
  | leaves hs => exact ⟨_, hs⟩
  | reports hs hreport answer =>
    unfold reported at hover
    split at hover <;> cases hover
  | _ => simp_all

theorem Moves.ne_over (h : s.Moves es s') : s.stage ≠ .over := by
  cases h <;> simp_all

end LoopState

end JobShell
