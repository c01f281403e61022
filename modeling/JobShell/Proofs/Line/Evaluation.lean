import JobShell.Interp.Machine
import JobShell.Proofs.Chronicle.Step

/-!
# The interpreter while it carries out a line

* `Shell.Advances` and `Shell.Handles`: what one step makes of the interpreter, of the line and of a
  handler. What a step keeps is proved by cases on them.
* `Phase.Serves`: the interpreter does what the line asks for, with what stands on the line.
* `Phase.Serves.step`: it goes on with that.
* `Machine.Evaluates`: a line is carried out, whatever happens to the world between two steps;
  `Machine.Evaluates.runUntil` says that turns do that.
* `Machine.Evaluates.serves`: what holds throughout a line.
-/

namespace JobShell

/-- The request of the line has been taken up, and nothing is handed over any more. -/
def Phase.isUnderway : Phase → Bool
  | .idle | .launching _ | .guarded _ | .changing _ | .finished (.failed (.line _)) => false
  | _ => true

/-- The interpreter does what the line asks for, with what stands on the line. -/
inductive Phase.Serves : Except LineError Request → Phase → Prop where
  | refused (e : LineError) : Serves (.error e) (.finished (.failed (.line e)))
  | launching (job : Job) : Serves (.ok (.launch job)) (.launching job)
  | guarded (job : Job) : Serves (.ok (.launch job)) (.guarded job)
  | changing {target : Option String} {path : Bytes}
      (h : ∀ t ∈ target, path = Bytes.ofString t) :
      Serves (.ok (.builtin (.cd target))) (.changing path)
  | underway (request : Request) {phase : Phase} (h : phase.isUnderway) :
      Serves (.ok request) phase

namespace Phase.Serves

variable {request : Except LineError Request} {phase : Phase}

theorem refused_iff {e : LineError} (h : phase.Serves request) :
    phase = .finished (.failed (.line e)) ↔ request = .error e := by
  constructor
  · rintro rfl
    cases h with
    | refused => rfl
    | underway request hu => cases hu
  · rintro rfl
    cases h
    rfl

theorem ne_idle (h : phase.Serves request) : phase ≠ .idle := by
  rintro rfl
  cases h with
  | underway request hu => cases hu

theorem of_guarded {job : Job} (h : (Phase.guarded job).Serves request) :
    request = .ok (.launch job) := by
  cases h with
  | guarded => rfl
  | underway request hu => cases hu

theorem of_changing {path : Bytes} (h : (Phase.changing path).Serves request) :
    ∃ target, request = .ok (.builtin (.cd target)) ∧
      ∀ t ∈ target, path = Bytes.ofString t := by
  cases h with
  | changing h => exact ⟨_, rfl, h⟩
  | underway request hu => cases hu

end Phase.Serves

/-- The states that may follow. -/
def Need.Leads : Need → Shell → Prop
  | .step next, t => t = next
  | .fork _ next, t => ∃ pid, t = next pid
  | .group _ next, t => t = next
  | .write _ next, t => ∃ r, t = next r
  | .changeDirectory _ next, t => ∃ r, t = next r
  | .send _ _ next, t => t = next
  | .leave, _ | .blocked, _ | .rest _, _ => False

namespace Shell

variable {s t : Shell} {request : Except LineError Request}

/-! ## What a step does -/

/-- What a step of the line makes of the interpreter. -/
inductive Advances (s : Shell) : Shell → Prop where
  | hold {job : Job} (hp : s.phase = .launching job) :
    s.Advances { s with signals := s.signals.block Signal.child, phase := .guarded job }
  | fork {job : Job} (pid : Pid) (hp : s.phase = .guarded job) :
    s.Advances { s with children := s.children.add pid, phase := .forked job pid }
  | group {job : Job} {pid : Pid} (hp : s.phase = .forked job pid) :
    s.Advances { s with phase := .grouped job pid }
  | note {job : Job} {pid : Pid} (hp : s.phase = .grouped job pid) :
    s.Advances { s with tracker := s.note job pid, phase := .noted job pid }
  | unhold {job : Job} {pid : Pid} (hp : s.phase = .noted job pid) :
    s.Advances { s with
      signals := s.signals.unblock Signal.child
      phase := if job.background then .announcing pid else .waiting pid }
  | announce {pid : Pid} (r : Except Errno Unit) (hp : s.phase = .announcing pid) :
    s.Advances (s.written (lineOf (toString pid)) r)
  | print (r : Except Errno Unit) (hp : s.phase = .printing) :
    s.Advances (s.written (lineOf s.lastStatus.text) r)
  | change {path : Bytes} (r : Except Errno Unit) (hp : s.phase = .changing path) :
    s.Advances (s.changed path r)
  | orphan {pid : Pid} {cs : Children} (hp : s.phase = .waiting pid)
      (hw : s.children.waitFor pid = (.absent, cs)) :
    s.Advances { s with phase := .collected (.error .ECHILD) }
  | await {pid q : Pid} {e : Ending} {cs : Children} (hp : s.phase = .waiting pid)
      (hw : s.children.waitFor pid = (.collected q e, cs)) :
    s.Advances { s with children := cs, phase := .collected e.status }
  | clear {result : Except Errno Status} (hp : s.phase = .collected result) :
    s.Advances { s with tracker := s.tracker.clearForeground, phase := .cleared result }
  | sweep {result : Except Errno Status} (hp : s.phase = .cleared result) :
    s.Advances { s with phase := .reaping .start result }
  | pass {pass : Reap} {result : Except Errno Status} (hp : s.phase = .reaping pass result)
      (hpass : pass.result? = none) :
    s.Advances { s with
      tracker := (pass.step s.tracker s.children).2.1
      children := (pass.step s.tracker s.children).2.2
      phase := .reaping (pass.step s.tracker s.children).1 result }
  | conclude {pass : Reap} {result : Except Errno Status} {n : Nat}
      (hp : s.phase = .reaping pass result) (hpass : pass.result? = some n) :
    s.Advances (s.concluded result)

/-- What a step of a handler makes of the interpreter; the handlers `rest` are below it. -/
inductive Handles (s : Shell) (rest : List Handler) : Handler → Shell → Prop where
  | writes : s.Handles rest .newline { s with handlers := .interrupting :: rest }
  | forwards {leader : Pid} (hf : s.tracker.foreground = some leader) :
    s.Handles rest .interrupting { s with handlers := .forwarding leader :: rest }
  | leaves (hf : s.tracker.foreground = none) :
    s.Handles rest .interrupting { s with handlers := .leaving :: rest }
  | sends (leader : Pid) : s.Handles rest (.forwarding leader) { s with handlers := rest }
  | ignores {leader : Pid} (hf : s.tracker.foreground = some leader) :
    s.Handles rest .noticing { s with handlers := rest }
  | starts (hf : s.tracker.foreground = none) :
    s.Handles rest .noticing { s with handlers := .reaping .start :: rest }
  | passes {pass : Reap} (hpass : pass.result? = none) :
    s.Handles rest (.reaping pass) { s with
      tracker := (pass.step s.tracker s.children).2.1
      children := (pass.step s.tracker s.children).2.2
      handlers := .reaping (pass.step s.tracker s.children).1 :: rest }
  | returns {pass : Reap} {n : Nat} (hpass : pass.result? = some n) :
    s.Handles rest (.reaping pass) { s with handlers := rest }

theorem advances_of_leads (ht : s.lineNeed.Leads t) : s.Advances t := by
  unfold lineNeed at ht
  cases hp : s.phase with
  | idle | finished =>
    rw [hp] at ht
    exact ht.elim
  | launching job =>
    rw [hp] at ht
    exact ht ▸ .hold hp
  | guarded job =>
    rw [hp] at ht
    obtain ⟨pid, rfl⟩ := ht
    exact .fork pid hp
  | forked job pid =>
    rw [hp] at ht
    exact ht ▸ .group hp
  | grouped job pid =>
    rw [hp] at ht
    exact ht ▸ .note hp
  | noted job pid =>
    rw [hp] at ht
    exact ht ▸ .unhold hp
  | announcing pid =>
    rw [hp] at ht
    obtain ⟨r, rfl⟩ := ht
    exact .announce r hp
  | printing =>
    rw [hp] at ht
    obtain ⟨r, rfl⟩ := ht
    exact .print r hp
  | changing path =>
    rw [hp] at ht
    obtain ⟨r, rfl⟩ := ht
    exact .change r hp
  | waiting pid =>
    rw [hp] at ht
    dsimp only at ht
    split at ht
    · exact ht.elim
    · rename_i hw
      exact ht ▸ .orphan hp hw
    · rename_i hw
      rw [heard_ofEnding] at ht
      exact ht ▸ .await hp hw
  | collected result =>
    rw [hp] at ht
    exact ht ▸ .clear hp
  | cleared result =>
    rw [hp] at ht
    exact ht ▸ .sweep hp
  | reaping pass result =>
    rw [hp] at ht
    dsimp only at ht
    split at ht
    · rename_i hpass
      exact ht ▸ .conclude hp hpass
    · rename_i hpass
      exact ht ▸ .pass hp hpass

theorem handles_of_leads {h : Handler} {rest : List Handler}
    (ht : (s.handlerNeed h rest).Leads t) : s.Handles rest h t := by
  unfold handlerNeed at ht
  cases h with
  | newline =>
    obtain ⟨r, rfl⟩ := ht
    exact .writes
  | interrupting =>
    dsimp only at ht
    split at ht
    · rename_i hf
      exact ht ▸ .forwards hf
    · rename_i hf
      exact ht ▸ .leaves hf
  | forwarding leader => exact ht ▸ .sends leader
  | leaving => exact ht.elim
  | noticing =>
    dsimp only at ht
    split at ht
    · rename_i hf
      exact ht ▸ .ignores hf
    · rename_i hf
      exact ht ▸ .starts hf
  | reaping pass =>
    dsimp only at ht
    split at ht
    · rename_i hpass
      exact ht ▸ .returns hpass
    · rename_i hpass
      exact ht ▸ .passes hpass

/-- A handler does nothing to the line below it. -/
theorem phase_of_handlerNeed {h : Handler} {rest : List Handler}
    (ht : (s.handlerNeed h rest).Leads t) : t.phase = s.phase := by
  cases handles_of_leads ht <;> rfl

/-! ## What the line asks for -/

theorem serves_phaseOf (s : Shell) (request : Except LineError Request) :
    (s.phaseOf request).Serves request := by
  unfold phaseOf
  split
  · exact .refused _
  · exact .underway _ rfl
  · exact .underway _ rfl
  · exact .underway _ rfl
  · rename_i target
    split
    · rename_i path hpath
      refine .changing fun t ht => ?_
      rw [Option.mem_def.1 ht] at hpath
      exact (Option.some.inj hpath).symm
    · exact .underway _ rfl
  · exact .launching _

theorem need_of_guarded {job : Job} (h0 : s.handlers = []) (hphase : s.phase = .guarded job) :
    s.need = .fork job.pipeline fun pid =>
      { s with children := s.children.add pid, phase := .forked job pid } := by
  have hline : s.need = s.lineNeed := by rw [need, h0]
  rw [hline, lineNeed, hphase]

/-- What has been taken up is not asked for again. -/
theorem isUnderway_of_lineNeed (hs : s.phase.isUnderway) (ht : s.lineNeed.Leads t) :
    t.phase.isUnderway := by
  cases advances_of_leads ht with
  | hold hp | fork _ hp | change _ hp =>
    rw [hp] at hs
    cases hs
  | @unhold job =>
    cases job.background <;> rfl
  | announce r | print r =>
    show (Phase.finished (.ofWrite r)).isUnderway
    rcases LineResult.ofWrite_cases r with hr | ⟨e, hr⟩ <;> rw [hr] <;> rfl
  | @conclude pass result => cases result <;> rfl
  | group | note | orphan | await | clear | sweep | pass => rfl

end Shell

/-- A step of the interpreter goes on with what the line asks for. -/
theorem Phase.Serves.step {s t : Shell} {request : Except LineError Request}
    (h : s.phase.Serves request) (ht : s.need.Leads t) : t.phase.Serves request := by
  unfold Shell.need at ht
  split at ht
  · generalize hp : s.phase = phase at h
    cases h with
    | refused e =>
      rw [Shell.lineNeed, hp] at ht
      exact ht.elim
    | launching job =>
      rw [Shell.lineNeed, hp] at ht
      exact ht ▸ .guarded job
    | guarded job =>
      rw [Shell.lineNeed, hp] at ht
      obtain ⟨pid, rfl⟩ := ht
      exact .underway _ rfl
    | changing =>
      rw [Shell.lineNeed, hp] at ht
      obtain ⟨r, rfl⟩ := ht
      cases r <;> exact .underway _ rfl
    | underway request h => exact .underway request (Shell.isUnderway_of_lineNeed (hp ▸ h) ht)
  · rw [Shell.phase_of_handlerNeed ht]
    exact h

namespace Machine

variable {m m' : Machine} {p : Process} {progress : Progress} {line : Bytes}

/-- The interpreter carries out a line: it has been given the line and takes steps, while other
processes and the system do what they like with the world. -/
inductive Evaluates (line : Bytes) : Machine → Prop where
  | begins (m : Machine) : Evaluates line (m.begin line)
  | others {m : Machine} (h : Evaluates line m) (world : World) :
      Evaluates line { m with world := world }
  | works {m m' : Machine} {progress : Progress} (h : Evaluates line m)
      (hstep : m.step = (m', progress)) : Evaluates line m'

theorem leads_of_act (h : m.act p = (m', progress)) :
    m'.shell.phase = m.shell.phase ∨ (m.current p).need.Leads m'.shell := by
  unfold act at h
  split at h <;> rename_i hneed
  · obtain ⟨rfl, -⟩ := Prod.mk.inj h
    exact .inr (hneed ▸ rfl)
  · obtain ⟨rfl, -⟩ := Prod.mk.inj h
    exact .inr (hneed ▸ ⟨_, rfl⟩)
  · obtain ⟨rfl, -⟩ := Prod.mk.inj h
    exact .inr (hneed ▸ rfl)
  · split at h
    · obtain ⟨rfl, -⟩ := Prod.mk.inj h
      exact .inr (hneed ▸ ⟨_, rfl⟩)
    · obtain ⟨rfl, -⟩ := Prod.mk.inj h
      exact .inl rfl
    · obtain ⟨rfl, -⟩ := Prod.mk.inj h
      exact .inl rfl
  · split at h
    · obtain ⟨rfl, -⟩ := Prod.mk.inj h
      exact .inr (hneed ▸ ⟨_, rfl⟩)
    · obtain ⟨rfl, -⟩ := Prod.mk.inj h
      exact .inr (hneed ▸ ⟨_, rfl⟩)
  · obtain ⟨rfl, -⟩ := Prod.mk.inj h
    exact .inr (hneed ▸ rfl)
  · obtain ⟨rfl, -⟩ := Prod.mk.inj h
    exact .inl rfl
  · obtain ⟨rfl, -⟩ := Prod.mk.inj h
    exact .inl rfl
  · obtain ⟨rfl, -⟩ := Prod.mk.inj h
    exact .inl rfl

theorem phase_takeSignal? (h : m.takeSignal? p = some m') : m'.shell.phase = m.shell.phase := by
  unfold takeSignal? at h
  dsimp only at h
  split at h
  · rename_i s hs
    obtain rfl := Option.some.inj h
    obtain ⟨n, -, rfl⟩ := Option.map_eq_some_iff.1 hs
    rfl
  · obtain ⟨n, -, rfl⟩ := Option.map_eq_some_iff.1 h
    rfl

/-- A step of the interpreter is one that it needs, or does nothing to the line. -/
theorem leads_of_step (h : m.step = (m', progress)) :
    m'.shell.phase = m.shell.phase ∨ ∃ p, (m.current p).need.Leads m'.shell := by
  unfold step at h
  split at h
  · obtain ⟨rfl, -⟩ := Prod.mk.inj h
    exact .inl rfl
  · rename_i p hp
    split at h
    · obtain ⟨rfl, -⟩ := Prod.mk.inj h
      exact .inl rfl
    · split at h
      · rename_i hsignal
        obtain ⟨rfl, -⟩ := Prod.mk.inj h
        exact .inl (phase_takeSignal? hsignal)
      · exact (leads_of_act h).imp_right fun hlead => ⟨p, hlead⟩

theorem Evaluates.steps (n : Nat) (h : m.Evaluates line) : (steps n m).1.Evaluates line := by
  induction n generalizing m with
  | zero => exact h
  | succ n ih =>
    rw [Machine.steps]
    split
    · rename_i m' hstep
      split
      · exact .works h hstep
      · exact ih (.works h hstep)
    · exact .works h rfl

/-- Turns of the interpreter and of the other processes carry out a line. -/
theorem Evaluates.runUntil (done : World → Bool) (n : Nat) (h : m.Evaluates line) :
    (runUntil done n m).1.Evaluates line := by
  induction n generalizing m with
  | zero => exact h
  | succ n ih =>
    have hturn := h.steps turn
    rw [Machine.runUntil]
    refine iteInduction (motive := fun r : Machine × Progress => r.1.Evaluates line) (fun _ => hturn) fun _ => ?_
    dsimp only
    split
    · exact ih (.others hturn _)
    · exact ih hturn
    · exact hturn

/-- Throughout a line, the interpreter does what the line asks for. -/
theorem Evaluates.serves (h : m.Evaluates line) :
    m.shell.phase.Serves (Request.ofLine line) := by
  induction h with
  | begins m => exact m.shell.serves_phaseOf _
  | others h world ih => exact ih
  | works h hstep ih =>
    rcases leads_of_step hstep with hphase | ⟨p, hlead⟩
    · rw [hphase]
      exact ih
    · exact Phase.Serves.step (s := current _ p) ih hlead

theorem rest_of_act {r : LineResult} (h : m.act p = (m', .resting r)) :
    m' = m ∧ (m.current p).need = .rest r := by
  unfold act at h
  cases hneed : (m.current p).need <;> rw [hneed] at h <;> dsimp only at h
  case rest r' =>
    cases h
    exact ⟨rfl, rfl⟩
  case write text next => split at h <;> cases (Prod.mk.inj h).2
  case changeDirectory path next => split at h <;> cases (Prod.mk.inj h).2
  all_goals cases (Prod.mk.inj h).2

/-- An interpreter that rests stays as it is. -/
theorem rest_of_step {r : LineResult} (h : m.step = (m', .resting r)) :
    m' = m ∧ ∃ p, (m.current p).need = .rest r := by
  unfold step at h
  split at h
  · cases h
  · rename_i p hp
    split at h
    · cases h
    · split at h
      · have hprogress := (Prod.mk.inj h).2
        split at hprogress <;> cases hprogress
      · obtain ⟨heq, hneed⟩ := rest_of_act h
        exact ⟨heq, p, hneed⟩

/-- A line ends with the result that its last phase has. -/
theorem Evaluates.phase_of_resting {r : LineResult} (h : m.Evaluates line)
    (hstep : m.step = (m', .resting r)) : m.shell.phase = .finished r := by
  obtain ⟨-, p, hneed⟩ := rest_of_step hstep
  exact (Shell.rest_of_need hneed).2.resolve_left h.serves.ne_idle

end Machine

end JobShell
