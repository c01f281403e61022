import JobShell.Proofs.Chronicle.Accounting

/-!
# What lines say

A course has many steps of which a line knows nothing. The dialogue of a course is what remains for
the lines: the lines that are given, what they write and where they go, with the answers, how the
jobs they wait for have ended, and how each line ends.

* `Exchange`: one part of a dialogue; `Chronicle.dialogue` is the dialogue of a course.
* `Dialogue.lines`, `writes`, `moves`, `endings`, `outcomes`: what is said of one kind.
* `Shell.Turn`: what an event can do to the phase of a line, to the last status and to what standard
  output keeps, with what is said. `turn_of_next?` says that this list is complete. Neither a signal,
  nor a handler, nor the end of a child appears in it but as `apart`.
* `dialogue_induction`: an invariant of the dialogue so far and of the interpreter.
-/

namespace JobShell

/-- Between lines. -/
def Phase.atRest : Phase → Bool
  | idle | finished _ => true
  | _ => false

theorem Phase.standing_of_atRest {p : Phase} (h : p.atRest) : p.standing = .settled := by
  cases p <;> first | rfl | cases h

/-- How a line has ended, and what it has left. -/
structure LineOutcome where
  result : LineResult
  lastStatus : Status
  foreground : Option Pid
  /-- What a `status` line has printed of its own. -/
  printed : Option Bytes := none
  deriving DecidableEq, Repr

/-- What is said to or by a line. -/
inductive Exchange where
  | given (line : Bytes)
  /-- The line writes a text and in front of it what standard output keeps, which succeeds or fails. -/
  | wrote (ahead text : Bytes) (r : Except Errno Unit)
  /-- A text is printed between two lines, which succeeds or fails. -/
  | told (text : Bytes) (r : Except Errno Unit)
  /-- The line changes the directory, which succeeds or fails. -/
  | moved (r : Except Errno Unit)
  /-- The wait for the foreground job of the line has found it ended. -/
  | waited (e : Ending)
  | over (o : LineOutcome)
  deriving Repr

/-- What is said in turn. -/
abbrev Dialogue := List Exchange

namespace Dialogue

/-- The lines given. -/
def lines (d : Dialogue) : List Bytes :=
  d.filterMap fun | .given line => some line | _ => none

/-- The texts that lines wrote, with the answers. A signal handler is no line. -/
def writes (d : Dialogue) : List (Bytes × Except Errno Unit) :=
  d.filterMap fun | .wrote _ text r => some (text, r) | _ => none

/-- The answers to changes of directory. -/
def moves (d : Dialogue) : List (Except Errno Unit) :=
  d.filterMap fun | .moved r => some r | _ => none

/-- How the foreground jobs ended that have been collected. -/
def endings (d : Dialogue) : List Ending :=
  d.filterMap fun | .waited e => some e | _ => none

/-- How the lines ended. -/
def outcomes (d : Dialogue) : List LineOutcome :=
  d.filterMap fun | .over o => some o | _ => none

variable (d d' : Dialogue)

@[simp] theorem lines_append : lines (d ++ d') = d.lines ++ d'.lines := List.filterMap_append

@[simp] theorem writes_append : writes (d ++ d') = d.writes ++ d'.writes := List.filterMap_append

@[simp] theorem moves_append : moves (d ++ d') = d.moves ++ d'.moves := List.filterMap_append

@[simp] theorem endings_append : endings (d ++ d') = d.endings ++ d'.endings :=
  List.filterMap_append

@[simp] theorem outcomes_append : outcomes (d ++ d') = d.outcomes ++ d'.outcomes :=
  List.filterMap_append

end Dialogue

namespace Shell

/-- What is said at an event, but for the end of the line. -/
def exchange? (s : Shell) : Event → Option Exchange
  | .line text => some (.given text)
  | .answered r =>
    match s.handlers, s.phase with
    | [], .announcing pid => some (.wrote s.kept (lineOf (toString pid)) r)
    | [], .printing => some (.wrote s.kept (lineOf s.lastStatus.text) r)
    | [], .changing _ => some (.moved r)
    | _, _ => none
  | .told text r => some (.told text r)
  | .move =>
    match s.handlers, s.phase with
    | [], .waiting pid =>
      match s.children.waitFor pid with
      | (.collected _ e, _) => some (.waited e)
      | _ => none
    | _, _ => none
  | _ => none

/-- The end of the line, if this is what has been said led to. -/
def outcome? (s : Shell) (said : Option Exchange) (t : Shell) : Option LineOutcome :=
  match t.phase, said with
  | .finished result, some (.given _) =>
    some { result, lastStatus := t.lastStatus, foreground := t.tracker.foreground }
  | .finished result, said =>
    if s.phase.atRest then none
    else some {
      result, lastStatus := t.lastStatus, foreground := t.tracker.foreground
      printed := match s.phase, said with
        | .printing, some (.wrote _ text (.ok ())) => some text
        | _, _ => none }
  | _, _ => none

/-- All that is said at an event after which the interpreter is `t`. -/
def saidAt (s : Shell) (ev : Event) (t : Shell) : Dialogue :=
  (s.exchange? ev).toList ++ ((s.outcome? (s.exchange? ev) t).map Exchange.over).toList

variable (s t : Shell) (ev : Event)

theorem outcomes_exchange? : Dialogue.outcomes (s.exchange? ev).toList = [] := by
  unfold exchange?
  split <;> try rfl
  · split <;> rfl
  · split <;> try rfl
    split <;> rfl

@[simp] theorem lines_saidAt : (s.saidAt ev t).lines = Dialogue.lines (s.exchange? ev).toList := by
  rw [saidAt, Dialogue.lines_append]
  cases s.outcome? (s.exchange? ev) t <;> exact List.append_nil _

@[simp] theorem writes_saidAt : (s.saidAt ev t).writes = Dialogue.writes (s.exchange? ev).toList := by
  rw [saidAt, Dialogue.writes_append]
  cases s.outcome? (s.exchange? ev) t <;> exact List.append_nil _

@[simp] theorem moves_saidAt : (s.saidAt ev t).moves = Dialogue.moves (s.exchange? ev).toList := by
  rw [saidAt, Dialogue.moves_append]
  cases s.outcome? (s.exchange? ev) t <;> exact List.append_nil _

@[simp] theorem endings_saidAt :
    (s.saidAt ev t).endings = Dialogue.endings (s.exchange? ev).toList := by
  rw [saidAt, Dialogue.endings_append]
  cases s.outcome? (s.exchange? ev) t <;> exact List.append_nil _

@[simp] theorem outcomes_saidAt :
    (s.saidAt ev t).outcomes = (s.outcome? (s.exchange? ev) t).toList := by
  rw [saidAt, Dialogue.outcomes_append, outcomes_exchange?]
  cases s.outcome? (s.exchange? ev) t <;> rfl

end Shell

namespace Chronicle

/-- The dialogue of a course. -/
def dialogue (c : Chronicle) : List Event → Dialogue
  | [] => []
  | ev :: rest =>
    match c.next? ev with
    | some c' => c.shell.saidAt ev c'.shell ++ c'.dialogue rest
    | none => []

theorem dialogue_cons {c c' : Chronicle} {ev : Event} (h : c.next? ev = some c')
    (rest : List Event) :
    c.dialogue (ev :: rest) = c.shell.saidAt ev c'.shell ++ c'.dialogue rest := by
  rw [dialogue, h]

/-- What holds of nothing said at first, and is kept by every event with what is said at it, holds
of the dialogue of every course. -/
theorem dialogue_induction {P : Dialogue → Chronicle → Prop}
    (hstep : ∀ d c c' ev, P d c → c.next? ev = some c' → P (d ++ c.shell.saidAt ev c'.shell) c')
    {evs : List Event} {c c' : Chronicle} (hc : P [] c) (h : c.run evs = some c') :
    P (c.dialogue evs) c' := by
  suffices ∀ d, P d c → P (d ++ c.dialogue evs) c' from this [] hc
  clear hc
  induction evs generalizing c with
  | nil =>
    intro d hd
    cases h
    rwa [dialogue, List.append_nil]
  | cons ev rest ih =>
    intro d hd
    obtain ⟨c₁, hc₁, hrest⟩ := Option.bind_eq_some_iff.1 h
    rw [dialogue_cons hc₁, ← List.append_assoc]
    exact ih hrest _ (hstep d c c₁ ev hd hc₁)

end Chronicle

/-! ## What an event does to a line -/

/-- Steps of a line at which nothing is said. -/
inductive Phase.Advances : Phase → Phase → Prop where
  | held (job : Job) : Advances (launching job) (guarded job)
  | forked (job : Job) (pid : Pid) : Advances (guarded job) (forked job pid)
  | grouped (job : Job) (pid : Pid) : Advances (forked job pid) (grouped job pid)
  | noted (job : Job) (pid : Pid) : Advances (grouped job pid) (noted job pid)
  | unheld (job : Job) (pid : Pid) :
      Advances (noted job pid) (if job.background then announcing pid else waiting pid)
  | cleared (r : Except Errno Status) : Advances (collected r) (cleared r)
  | reaps (r : Except Errno Status) : Advances (cleared r) (reaping .start r)
  | passed (pass pass' : Reap) (r : Except Errno Status) :
      Advances (reaping pass r) (reaping pass' r)

/-- The result of a line that ends with an attempt to go to `path`. -/
def LineResult.ofMove (path : Bytes) : Except Errno Unit → LineResult
  | .ok () => .next
  | .error e => .failed (.changeDirectory (String.ofList (Utf8.decodeLossy path)) e)

/-- The last status once a foreground job has ended: a job without a status leaves it as it was. -/
def Status.following (last : Status) : Except Errno Status → Status
  | .ok status => status
  | .error _ => last

/-- What is said at an event, with the phase, the last status and what standard output keeps after
it. -/
inductive Shell.Turn (s : Shell) : Option Exchange → Phase → Status → Bytes → Prop where
  | given (text : Bytes) (hp : s.phase.atRest) :
      Turn s (some (.given text)) (s.phaseOf (Request.ofLine text)) s.lastStatus s.kept
  | advanced {q : Phase} (hq : s.phase.Advances q) : Turn s none q s.lastStatus s.kept
  | waited {pid : Pid} {e : Ending} (hp : s.phase = .waiting pid)
      (hc : { pid, ending := some e } ∈ s.children) :
      Turn s (some (.waited e)) (.collected e.status) s.lastStatus s.kept
  | concluded {pass : Reap} {r : Except Errno Status} (hp : s.phase = .reaping pass r) :
      Turn s none (.finished (Phase.resultOf r)) (s.lastStatus.following r) s.kept
  | announced {pid : Pid} (hp : s.phase = .announcing pid) (r : Except Errno Unit) :
      Turn s (some (.wrote s.kept (Shell.lineOf (toString pid)) r)) (.finished (.ofWrite r))
        s.lastStatus (Output.left s.kept (Shell.lineOf (toString pid)) r)
  | printed (hp : s.phase = .printing) (r : Except Errno Unit) :
      Turn s (some (.wrote s.kept (Shell.lineOf s.lastStatus.text) r)) (.finished (.ofWrite r))
        s.lastStatus (Output.left s.kept (Shell.lineOf s.lastStatus.text) r)
  | changed {path : Bytes} (hp : s.phase = .changing path) (r : Except Errno Unit) :
      Turn s (some (.moved r)) (.finished (.ofMove path r)) s.lastStatus s.kept
  | told (text : Bytes) (r : Except Errno Unit) (hp : s.phase.atRest) :
      Turn s (some (.told text r)) s.phase s.lastStatus (Output.left s.kept text r)
  | apart : Turn s none s.phase s.lastStatus s.kept

namespace Shell

variable {s t : Shell}

theorem changed_eq (s : Shell) (path : Bytes) (r : Except Errno Unit) :
    s.changed path r = { s with phase := .finished (.ofMove path r) } := by
  cases r <;> rfl

theorem concluded_eq (s : Shell) (r : Except Errno Status) :
    s.concluded r =
      { s with lastStatus := s.lastStatus.following r, phase := .finished (Phase.resultOf r) } := by
  cases r <;> rfl

theorem atRest_of_need {r : LineResult} (h : s.need = .rest r) : s.phase.atRest := by
  obtain ⟨-, hp | hp⟩ := rest_of_need h <;> rw [hp] <;> rfl

theorem turn_line {text : Bytes} (h : s.next? (.line text) = some t) :
    s.Turn (s.exchange? (.line text)) t.phase t.lastStatus t.kept := by
  simp only [next?] at h
  split at h
  · rename_i hn
    cases h
    exact .given text (atRest_of_need hn)
  · cases h

theorem turn_forked {pid : Pid} (h : s.next? (.forked pid) = some t) :
    s.Turn (s.exchange? (.forked pid)) t.phase t.lastStatus t.kept := by
  simp only [next?] at h
  split at h
  · rename_i p next hn
    obtain ⟨-, job, hp, rfl⟩ := fork_of_need hn
    split at h
    · cases h
      refine .advanced ?_
      rw [hp]
      exact .forked job pid
    · cases h
  · cases h

theorem turn_told {text : Bytes} {r : Except Errno Unit} (h : s.next? (.told text r) = some t) :
    s.Turn (s.exchange? (.told text r)) t.phase t.lastStatus t.kept := by
  simp only [next?] at h
  split at h
  · rename_i hn
    cases h
    exact .told text r (atRest_of_need hn)
  · cases h

theorem turn_answered {r : Except Errno Unit} (h : s.next? (.answered r) = some t) :
    s.Turn (s.exchange? (.answered r)) t.phase t.lastStatus t.kept := by
  simp only [next?] at h
  split at h
  · rename_i text next hn
    cases h
    rcases write_of_need hn with ⟨h0, line, hline, -, rfl⟩ | ⟨rest, hh, rfl⟩
    · rcases Phase.of_line? hline with ⟨pid, hp⟩ | hp <;> rw [hp] at hline <;> cases hline <;>
        simp only [exchange?, h0, hp]
      · exact .announced hp r
      · exact .printed hp r
    · simp only [exchange?, hh]
      exact .apart
  · rename_i path next hn
    cases h
    obtain ⟨h0, hp, rfl⟩ := changeDirectory_of_need hn
    rw [changed_eq]
    simp only [exchange?, h0, hp]
    exact .changed hp r
  · cases h

theorem turn_handlerMove {hd : Handler} {rest : List Handler} (hh : s.handlers = hd :: rest)
    (h : s.next? .move = some t) : s.Turn (s.exchange? .move) t.phase t.lastStatus t.kept := by
  have hsaid : s.exchange? .move = none := by simp only [exchange?, hh]
  suffices t.phase = s.phase ∧ t.lastStatus = s.lastStatus ∧ t.kept = s.kept by
    rw [hsaid, this.1, this.2.1, this.2.2]
    exact .apart
  simp only [next?, need, hh] at h
  cases hd <;> simp only [handlerNeed] at h <;> grind

theorem turn_lineMove (hwait : ∀ pid, s.phase = .waiting pid → ¬∀ ch ∈ s.children, ch.pid ≠ pid)
    (h0 : s.handlers = []) (h : s.next? .move = some t) :
    s.Turn (s.exchange? .move) t.phase t.lastStatus t.kept := by
  obtain ⟨home, tracker, status, phase, handlers, children, signals, kept⟩ := s
  subst h0
  cases phase <;> simp only [next?, need, lineNeed] at h <;> try (cases h; done)
  case launching job =>
    cases h
    exact .advanced (.held job)
  case forked job pid =>
    cases h
    exact .advanced (.grouped job pid)
  case grouped job pid =>
    cases h
    exact .advanced (.noted job pid)
  case noted job pid =>
    cases h
    exact .advanced (.unheld job pid)
  case waiting pid =>
    rcases hw : children.waitFor pid with ⟨_ | _ | ⟨q, e⟩, cs⟩ <;> simp only [hw] at h <;> cases h
    · exact absurd (Children.waitFor_absent hw) (hwait pid rfl)
    · obtain ⟨-, hmem, -⟩ := Children.waitFor_collected hw
      rw [heard_ofEnding]
      simp only [exchange?, hw]
      exact .waited rfl hmem
  case collected r =>
    cases h
    exact .advanced (.cleared r)
  case cleared r =>
    cases h
    exact .advanced (.reaps r)
  case reaping pass r =>
    cases hr : pass.result? with
    | some n =>
      rw [hr] at h
      cases h
      rw [concluded_eq]
      exact .concluded rfl
    | none =>
      rw [hr] at h
      cases h
      exact .advanced (.passed pass _ r)

theorem turn_taken (h : s.next? .taken = some t) :
    s.Turn (s.exchange? .taken) t.phase t.lastStatus t.kept := by
  suffices t.phase = s.phase ∧ t.lastStatus = s.lastStatus ∧ t.kept = s.kept by
    rw [this.1, this.2.1, this.2.2]
    exact .apart
  simp only [next?, Option.or_eq_some_iff, deliver?, Option.map_eq_some_iff] at h
  rcases h with ⟨n, -, rfl⟩ | ⟨-, h⟩
  · exact ⟨rfl, rfl, rfl⟩
  · unfold discard? at h
    grind

end Shell

namespace Chronicle

variable {c c' : Chronicle} {ev : Event}

/-- Every event is a turn of the line, the foreground job that is waited for being a child. -/
theorem turn_of_next? (hb : Booked c) (h : c.next? ev = some c') :
    c.shell.Turn (c.shell.exchange? ev) c'.shell.phase c'.shell.lastStatus
      c'.shell.kept := by
  obtain ⟨t, ht, rfl⟩ := Option.map_eq_some_iff.1 h
  cases ev with
  | line text => exact Shell.turn_line ht
  | move =>
    cases hh : c.shell.handlers with
    | nil => exact Shell.turn_lineMove (fun _ => hb.not_orphaned) hh ht
    | cons hd rest => exact Shell.turn_handlerMove hh ht
  | forked pid => exact Shell.turn_forked ht
  | answered r => exact Shell.turn_answered ht
  | told text r => exact Shell.turn_told ht
  | ended pid e =>
    simp only [Shell.next?] at ht
    split at ht
    · cases ht
      exact .apart
    · cases ht
  | raised n =>
    cases ht
    exact .apart
  | taken => exact Shell.turn_taken ht

end Chronicle

end JobShell
