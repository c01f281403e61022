import JobShell.Proofs.Chronicle.Basic

/-!
# The steps of a session

`Step c c'` lists what an event can do to a chronicle, one constructor for each kind: the steps of
a line, the steps of the handlers, and what comes from outside. `step_of_next?` says that the list
is complete; invariants are proved by cases on it and carried over a course by `run_induction`.

A step of a pass over ended children, `Reap.Moves`, is the same for the line and for the handler.
`Standing` is what the phase of a line tells of the job it launches; the steps that a line makes
without touching jobs, `Phase.Quiet`, leave it as it is.
-/

namespace JobShell

/-- Where the job stands that a line launches. -/
inductive Standing where
  /-- No job is being launched. -/
  | settled
  /-- SIGCHLD is held back, and every job that has been forked has been noted. -/
  | guarded
  /-- SIGCHLD is held back, and this job has been forked and not been noted. -/
  | fresh (leader : Pid) (background : Bool)
  /-- SIGCHLD is held back, and this foreground job has been noted. -/
  | shielded (leader : Pid)
  /-- This foreground job is waited for. -/
  | awaited (leader : Pid)
  /-- The foreground job has been collected, and the tracker still has it. -/
  | collected
  deriving DecidableEq, Repr

namespace Standing

/-- SIGCHLD is held back. -/
@[simp] def IsHeldBack : Standing → Prop
  | guarded | fresh _ _ | shielded _ => True
  | settled | awaited _ | collected => False

/-- What the tracker has as its foreground job. -/
@[simp] def Slots (foreground : Option Pid) : Standing → Prop
  | shielded pid | awaited pid => foreground = some pid
  | collected => foreground.isSome
  | settled | guarded | fresh _ _ => foreground = none

end Standing

theorem LineResult.ofWrite_cases (r : Except Errno Unit) :
    ofWrite r = .next ∨ ∃ e, ofWrite r = .failed (.output (.system e)) := by
  cases r with
  | ok u => exact .inl rfl
  | error e =>
    by_cases he : e = .EBADF
    · exact .inl (if_pos he)
    · exact .inr ⟨e, if_neg he⟩

namespace Phase

def standing : Phase → Standing
  | guarded _ => .guarded
  | forked job pid | grouped job pid => .fresh pid job.background
  | noted job pid => if job.background then .guarded else .shielded pid
  | waiting pid => .awaited pid
  | collected _ => .collected
  | _ => .settled

/-- What the wait for the foreground job has given, as far as the line still knows it. -/
def waitResult? : Phase → Option (Except Errno Status)
  | collected r | cleared r | reaping _ r => some r
  | finished (.failed (.launch e)) => some (.error e)
  | _ => none

/-- The line that is printed next, `last` being the last status. -/
def line? (last : Status) : Phase → Option Bytes
  | announcing pid => some (Shell.lineOf (toString pid))
  | printing => some (Shell.lineOf last.text)
  | _ => none

theorem waitResult?_ofWrite (r : Except Errno Unit) : waitResult? (finished (.ofWrite r)) = none := by
  rcases LineResult.ofWrite_cases r with hr | ⟨e, hr⟩ <;> rw [hr] <;> rfl

/-- The result of a foreground job's line. -/
def resultOf : Except Errno Status → LineResult
  | .ok _ => .next
  | .error e => .failed (.launch e)

/-- Steps of a line that touch no job. -/
inductive Quiet : Phase → Phase → Prop where
  | begun {p q : Phase} (hp : p = idle ∨ ∃ r, p = finished r)
      (hq : (∃ job, q = launching job) ∨ (∃ path, q = changing path) ∨ q = printing ∨
        ∃ r, q = finished r ∧ q.waitResult? = none) : Quiet p q
  | grouped (job : Job) (pid : Pid) : Quiet (forked job pid) (grouped job pid)
  | reap (r : Except Errno Status) : Quiet (cleared r) (reaping .start r)
  | concluded {pass : Reap} {n : Nat} {r : Except Errno Status} (hp : pass.result? = some n) :
      Quiet (reaping pass r) (finished (resultOf r))
  | answered {p : Phase} {r : LineResult}
      (hp : (∃ pid, p = announcing pid) ∨ (∃ path, p = changing path) ∨ p = printing)
      (hr : (finished r).waitResult? = none) : Quiet p (finished r)

theorem of_line? {p : Phase} {last : Status} {line : Bytes} (h : p.line? last = some line) :
    (∃ pid, p = announcing pid) ∨ p = printing := by
  cases p with
  | announcing pid => exact .inl ⟨pid, rfl⟩
  | printing => exact .inr rfl
  | _ => cases h

theorem Quiet.standing_eq {p q : Phase} (h : Quiet p q) : q.standing = p.standing := by
  cases h with
  | begun hp hq =>
    rcases hp with rfl | ⟨r, rfl⟩ <;>
      rcases hq with ⟨job, rfl⟩ | ⟨path, rfl⟩ | rfl | ⟨r', rfl, -⟩ <;> rfl
  | answered hp => rcases hp with ⟨pid, rfl⟩ | ⟨path, rfl⟩ | rfl <;> rfl
  | _ => rfl

end Phase

/-- What the handlers of SIGINT do but for sending the signal on and for leaving. -/
inductive Handler.Interrupts (t : Tracker) : Handler → Handler → Prop where
  | written : Interrupts t .newline .interrupting
  | forwarding {pid : Pid} (h : t.foreground = some pid) :
      Interrupts t .interrupting (.forwarding pid)
  | leaving (h : t.foreground = none) : Interrupts t .interrupting .leaving

/-- A handler is over. -/
inductive Handler.Returns (t : Tracker) : Handler → Prop where
  | forwarded (pid : Pid) : Returns t (.forwarding pid)
  | ignored (h : t.foreground.isSome) : Returns t .noticing
  | reaped {pass : Reap} {n : Nat} (h : pass.result? = some n) : Returns t (.reaping pass)

/-- What a step of a pass does, which is made by `who` and is not over. -/
inductive Reap.Moves (who : Collector) (t : Tracker) (cs : Children) :
    Reap → Reap → Tracker → Children → Deed → Prop where
  | count : Moves who t cs .start (.attempting t.background 0) t cs .nothing
  | miss {left reaped : Nat} (hcs : ∀ ch ∈ cs, ch.ending = none) :
      Moves who t cs (.attempting (left + 1) reaped) (.attempting left reaped) t cs .nothing
  | collect {left reaped : Nat} {pid : Pid} {e : Ending} {status : Status}
      (hc : { pid, ending := some e } ∈ cs) (he : e.status = .ok status) :
      Moves who t cs (.attempting (left + 1) reaped) (.releasing left reaped) t
        (cs.filter (·.pid ≠ pid)) (.collected who pid)
  | fail {left reaped : Nat} {pid : Pid} {e : Ending} {err : Errno}
      (hc : { pid, ending := some e } ∈ cs) (he : e.status = .error err) :
      Moves who t cs (.attempting (left + 1) reaped) (.attempting left reaped) t
        (cs.filter (·.pid ≠ pid)) (.collected who pid)
  | release {left reaped n : Nat} (hb : t.background = n + 1) :
      Moves who t cs (.releasing left reaped) (.attempting left (reaped + 1))
        { t with background := n } cs (.released who)
  | underflow {left reaped : Nat} (hb : t.background = 0) :
      Moves who t cs (.releasing left reaped) (.attempting left reaped) t cs (.released who)

namespace Chronicle

/-- What one event does. -/
inductive Step (c : Chronicle) : Chronicle → Prop where
  | quiet {phase : Phase} (status : Status) (kept : Bytes) (h0 : c.shell.handlers = [])
      (hq : c.shell.phase.Quiet phase) :
      Step c { c with shell := { c.shell with phase, lastStatus := status, kept } }
  | hold {job : Job} (h0 : c.shell.handlers = []) (hp : c.shell.phase = .launching job) :
      Step c { c with shell := { c.shell with
        signals := c.shell.signals.block Signal.child, phase := .guarded job } }
  | fork {job : Job} {pid : Pid} (h0 : c.shell.handlers = []) (hp : c.shell.phase = .guarded job)
      (hpos : 0 < pid) (hnew : ∀ ch ∈ c.shell.children, ch.pid ≠ pid) :
      Step c
        { shell := { c.shell with
            children := c.shell.children.add pid, phase := .forked job pid }
          jobs := c.jobs.record (.launched pid job.background) }
  | note {job : Job} {pid : Pid} (h0 : c.shell.handlers = [])
      (hp : c.shell.phase = .grouped job pid) :
      Step c
        { shell := { c.shell with tracker := c.shell.note job pid, phase := .noted job pid }
          jobs := c.jobs.record (.noted pid) }
  | unhold {job : Job} {pid : Pid} (h0 : c.shell.handlers = [])
      (hp : c.shell.phase = .noted job pid) :
      Step c { c with shell := { c.shell with
        signals := c.shell.signals.unblock Signal.child
        phase := if job.background then .announcing pid else .waiting pid } }
  | await {pid : Pid} {e : Ending} {cs : Children} (h0 : c.shell.handlers = [])
      (hp : c.shell.phase = .waiting pid)
      (hw : c.shell.children.waitFor pid = (.collected pid e, cs)) :
      Step c
        { shell := { c.shell with children := cs, phase := .collected e.status }
          jobs := c.jobs.record (.collected .wait pid) }
  | orphan {pid : Pid} (h0 : c.shell.handlers = []) (hp : c.shell.phase = .waiting pid)
      (hw : ∀ ch ∈ c.shell.children, ch.pid ≠ pid) :
      Step c { c with shell := { c.shell with phase := .collected (.error .ECHILD) } }
  | clear {r : Except Errno Status} (h0 : c.shell.handlers = [])
      (hp : c.shell.phase = .collected r) :
      Step c { c with shell := { c.shell with
        tracker := c.shell.tracker.clearForeground, phase := .cleared r } }
  | linePass {pass pass' : Reap} {t : Tracker} {cs : Children} {d : Deed}
      {r : Except Errno Status} (h0 : c.shell.handlers = []) (hp : c.shell.phase = .reaping pass r)
      (hm : Reap.Moves .line c.shell.tracker c.shell.children pass pass' t cs d) :
      Step c
        { shell := { c.shell with tracker := t, children := cs, phase := .reaping pass' r }
          jobs := c.jobs.record d }
  | handlerPass {pass pass' : Reap} {t : Tracker} {cs : Children} {d : Deed} {rest : List Handler}
      (hh : c.shell.handlers = .reaping pass :: rest)
      (hm : Reap.Moves .handler c.shell.tracker c.shell.children pass pass' t cs d) :
      Step c
        { shell := { c.shell with
            tracker := t, children := cs, handlers := .reaping pass' :: rest }
          jobs := c.jobs.record d }
  | handlerStart {rest : List Handler} (hh : c.shell.handlers = .noticing :: rest)
      (hf : c.shell.tracker.foreground = none) :
      Step c { c with shell := { c.shell with handlers := .reaping .start :: rest } }
  | handlerEnd {h : Handler} {rest : List Handler} (hh : c.shell.handlers = h :: rest)
      (hr : h.Returns c.shell.tracker) :
      Step c { c with shell := { c.shell with handlers := rest } }
  | interrupt {h h' : Handler} {rest : List Handler} (hh : c.shell.handlers = h :: rest)
      (hi : h.Interrupts c.shell.tracker h') :
      Step c { c with shell := { c.shell with handlers := h' :: rest } }
  | take {n : Nat}
      (hn : c.shell.signals.next? (c.shell.handlers.map Handler.signal) = some n)
      (hd : c.shell.signals.disposition n = .handled) :
      Step c { c with shell := { c.shell with
        signals := c.shell.signals.take n
        handlers := Shell.handlerOf n :: c.shell.handlers } }
  | discard {n : Nat} (hd : c.shell.signals.disposition n ≠ .handled) :
      Step c { c with shell := { c.shell with signals := c.shell.signals.take n } }
  | told (kept : Bytes) : Step c { c with shell := { c.shell with kept } }
  | raise (n : Nat) :
      Step c { c with shell := { c.shell with signals := c.shell.signals.raise n } }
  | finish {pid : Pid} {e : Ending} (hc : { pid } ∈ c.shell.children) (he : e.IsPossible) :
      Step c
        { shell := { c.shell with
            children := c.shell.children.finish pid e
            signals := c.shell.signals.raise Signal.child }
          jobs := c.jobs.record (.ended pid e) }

end Chronicle

/-! ## What the system answers -/

theorem Children.waitFor_collected {cs cs' : Children} {pid q : Pid} {e : Ending}
    (h : cs.waitFor pid = (.collected q e, cs')) :
    q = pid ∧ { pid := pid, ending := some e : Child } ∈ cs ∧ cs' = cs.filter (·.pid ≠ pid) := by
  unfold waitFor at h
  split at h
  · cases h
  · rename_i c hc
    have hmem := List.mem_of_find?_eq_some hc
    have hpid := List.find?_some hc
    obtain ⟨pid', ending⟩ := c
    split at h <;> simp_all
    rw [← h.2, h.1.1]

theorem Children.waitFor_absent {cs cs' : Children} {pid : Pid}
    (h : cs.waitFor pid = (.absent, cs')) : ∀ ch ∈ cs, ch.pid ≠ pid := by
  unfold waitFor at h
  split at h
  · rename_i hc
    simpa using hc
  · split at h <;> cases h

theorem Children.waitAny_cases (cs : Children) :
    (∃ pid e, { pid, ending := some e } ∈ cs ∧
      cs.waitAny = (.collected pid e, cs.filter (·.pid ≠ pid))) ∨
    ((∀ ch ∈ cs, ch.ending = none) ∧
      (cs.waitAny = (.absent, cs) ∨ cs.waitAny = (.alive, cs))) := by
  unfold waitAny
  split
  · rename_i h0
    rw [List.isEmpty_iff] at h0
    subst h0
    exact .inr ⟨nofun, .inl rfl⟩
  · split
    · rename_i pid e hf
      exact .inl ⟨pid, e, List.mem_of_find?_eq_some hf, rfl⟩
    · rename_i hf
      refine .inr ⟨?_, .inr rfl⟩
      intro ch hch
      cases hc : cs.find? (·.ending.isSome) with
      | none =>
        have := List.find?_eq_none.1 hc ch hch
        simpa using this
      | some c =>
        obtain ⟨pid, ending⟩ := c
        cases ending with
        | none => simpa using List.find?_some hc
        | some e => exact absurd hc (hf pid e)

theorem Ending.eq_EINVAL_of_status {e : Ending} {err : Errno} (h : e.status = .error err) :
    err = .EINVAL := by
  cases e with
  | exited code => cases h
  | killed n =>
    simp only [status] at h
    split at h
    · cases h
    · cases h
      rfl

theorem Reap.eq_of_result? {pass : Reap} {n : Nat} (h : pass.result? = some n) :
    pass = .attempting 0 n := by
  unfold result? at h
  split at h <;> simp_all

theorem Reap.moves_of_result? {pass : Reap} (who : Collector) (t : Tracker) (cs : Children)
    (h : pass.result? = none) :
    Moves who t cs pass (pass.step t cs).1 (pass.step t cs).2.1 (pass.step t cs).2.2
      (pass.deed who cs) := by
  match pass with
  | .start => exact .count
  | .attempting 0 reaped => cases h
  | .attempting (left + 1) reaped =>
    rcases cs.waitAny_cases with ⟨pid, e, hc, hw⟩ | ⟨hcs, hw⟩
    · cases he : e.status with
      | ok status =>
        simp only [step, deed, hw, he]
        exact .collect hc he
      | error err =>
        simp only [step, deed, hw, he]
        exact .fail hc he
    · rcases hw with hw | hw <;> simp only [step, deed, hw] <;> exact .miss hcs
  | .releasing left reaped =>
    cases hb : t.background with
    | zero =>
      simp only [step, Tracker.releaseBackground, hb]
      exact .underflow hb
    | succ n =>
      simp only [step, Tracker.releaseBackground, hb]
      exact .release hb

/-! ## What the interpreter needs -/

namespace Shell

variable {s t : Shell}

theorem heard_ofEnding (s : Shell) (e : Ending) :
    s.heard (.ofEnding e) = { s with phase := .collected e.status } := by
  unfold heard WaitAnswer.ofEnding
  cases hs : e.status with
  | ok status => rfl
  | error err =>
    obtain rfl := Ending.eq_EINVAL_of_status hs
    rfl

/-- Where the interpreter stands when it cannot go on by itself, and what it makes of the answer. -/
inductive Asks (s : Shell) : Need → Prop where
  | rest {r : LineResult} (h0 : s.handlers = []) (hp : s.phase = .idle ∨ s.phase = .finished r) :
    s.Asks (.rest r)
  | fork {job : Job} (h0 : s.handlers = []) (hp : s.phase = .guarded job) :
    s.Asks (.fork job.pipeline fun pid =>
      { s with children := s.children.add pid, phase := .forked job pid })
  | group {job : Job} {pid : Pid} (h0 : s.handlers = []) (hp : s.phase = .forked job pid) :
    s.Asks (.group pid { s with phase := .grouped job pid })
  | print {line : Bytes} (h0 : s.handlers = []) (hp : s.phase.line? s.lastStatus = some line) :
    s.Asks (s.print line)
  | newline {rest : List Handler} (hh : s.handlers = .newline :: rest) :
    s.Asks (.write farewell fun _ => { s with handlers := .interrupting :: rest })
  | changeDirectory {path : Bytes} (h0 : s.handlers = []) (hp : s.phase = .changing path) :
    s.Asks (.changeDirectory path (s.changed path))
  | send {leader : Pid} {rest : List Handler} (hh : s.handlers = .forwarding leader :: rest) :
    s.Asks (.send leader Signal.interrupt { s with handlers := rest })
  | leave {rest : List Handler} (hh : s.handlers = .leaving :: rest) : s.Asks .leave
  | blocked {pid : Pid} {children : Children} (h0 : s.handlers = []) (hp : s.phase = .waiting pid)
      (hw : s.children.waitFor pid = (.alive, children)) : s.Asks .blocked
  | step {t : Shell} : s.Asks (.step t)

theorem asks_lineNeed (h0 : s.handlers = []) : s.Asks s.lineNeed := by
  unfold lineNeed
  cases hp : s.phase with
  | idle => exact .rest h0 (.inl hp)
  | finished r => exact .rest h0 (.inr hp)
  | guarded job => exact .fork h0 hp
  | forked job pid => exact .group h0 hp
  | announcing pid => exact .print h0 (by rw [hp]; rfl)
  | printing => exact .print h0 (by rw [hp]; rfl)
  | changing path => exact .changeDirectory h0 hp
  | waiting pid =>
    dsimp only
    split
    · rename_i hw
      exact .blocked h0 hp hw
    · exact .step
    · exact .step
  | reaping pass result =>
    dsimp only
    split <;> exact .step
  | launching | grouped | noted | collected | cleared => exact .step

theorem asks_handlerNeed {h : Handler} {rest : List Handler} (hh : s.handlers = h :: rest) :
    s.Asks (s.handlerNeed h rest) := by
  cases h with
  | newline => exact .newline hh
  | forwarding leader => exact .send hh
  | leaving => exact .leave hh
  | interrupting | noticing | reaping =>
    unfold handlerNeed
    dsimp only
    split <;> exact .step

/-- The list of what is asked for is complete. -/
theorem asks_need (s : Shell) : s.Asks s.need := by
  unfold need
  split
  · rename_i h0
    exact asks_lineNeed h0
  · rename_i hh
    exact asks_handlerNeed hh

theorem rest_of_need {r : LineResult} (h : s.need = .rest r) :
    s.handlers = [] ∧ (s.phase = .idle ∨ s.phase = .finished r) := by
  cases h ▸ s.asks_need with
  | rest h0 hp => exact ⟨h0, hp⟩

theorem fork_of_need {p : Pipeline} {next : Pid → Shell} (h : s.need = .fork p next) :
    s.handlers = [] ∧ ∃ job, s.phase = .guarded job ∧ next = fun pid =>
      { s with children := s.children.add pid, phase := .forked job pid } := by
  cases h ▸ s.asks_need with
  | fork h0 hp => exact ⟨h0, _, hp, rfl⟩

theorem group_of_need {pid : Pid} (h : s.need = .group pid t) :
    s.handlers = [] ∧
    ∃ job, s.phase = .forked job pid ∧ t = { s with phase := .grouped job pid } := by
  cases h ▸ s.asks_need with
  | group h0 hp => exact ⟨h0, _, hp, rfl⟩

theorem write_of_need {text : Bytes} {next : Except Errno Unit → Shell}
    (h : s.need = .write text next) :
    (s.handlers = [] ∧ ∃ line, s.phase.line? s.lastStatus = some line ∧ text = s.kept ++ line ∧
      next = s.written line) ∨
    (∃ rest, s.handlers = .newline :: rest ∧
      next = fun _ => { s with handlers := .interrupting :: rest }) := by
  cases h ▸ s.asks_need with
  | print h0 hp => exact .inl ⟨h0, _, hp, rfl, rfl⟩
  | newline hh => exact .inr ⟨_, hh, rfl⟩

theorem changeDirectory_of_need {path : Bytes} {next : Except Errno Unit → Shell}
    (h : s.need = .changeDirectory path next) :
    s.handlers = [] ∧ s.phase = .changing path ∧ next = s.changed path := by
  cases h ▸ s.asks_need with
  | changeDirectory h0 hp => exact ⟨h0, hp, rfl⟩

theorem send_of_need {pid : Pid} {n : Nat} (h : s.need = .send pid n t) :
    n = Signal.interrupt ∧
    ∃ rest, s.handlers = .forwarding pid :: rest ∧ t = { s with handlers := rest } := by
  cases h ▸ s.asks_need with
  | send hh => exact ⟨rfl, _, hh, rfl⟩

end Shell

/-! ## Every event is a step -/

namespace Chronicle

variable {s t : Shell} {jobs : Ledger} {c c' : Chronicle} {ev : Event}

theorem step_line {text : Bytes} (h : s.next? (.line text) = some t) :
    Step ⟨s, jobs⟩ ⟨t, jobs⟩ := by
  simp only [Shell.next?] at h
  split at h
  · rename_i r hr
    obtain ⟨h0, hp⟩ := Shell.rest_of_need hr
    cases h
    refine .quiet s.lastStatus s.kept h0 (.begun (hp.imp_right fun hp => ⟨r, hp⟩) ?_)
    unfold Shell.phaseOf
    split <;> try simp [Phase.waitResult?]
    split <;> simp
  · cases h

theorem step_forked {pid : Pid} (h : s.next? (.forked pid) = some t) :
    Step ⟨s, jobs⟩ ⟨t, jobs.record (s.deed (.forked pid))⟩ := by
  simp only [Shell.next?] at h
  split at h
  · rename_i p next hn
    obtain ⟨h0, job, hp, rfl⟩ := Shell.fork_of_need hn
    split at h
    · rename_i hnew
      cases h
      simp only [Shell.deed, hp]
      exact .fork h0 hp hnew.1 hnew.2
    · cases h
  · cases h

theorem step_answered {r : Except Errno Unit} (h : s.next? (.answered r) = some t) :
    Step ⟨s, jobs⟩ ⟨t, jobs⟩ := by
  simp only [Shell.next?] at h
  split at h
  · rename_i text next hn
    cases h
    rcases Shell.write_of_need hn with ⟨h0, line, hp, -, rfl⟩ | ⟨rest, hh, rfl⟩
    · have hp : (∃ pid, s.phase = .announcing pid) ∨ (∃ path, s.phase = .changing path) ∨
          s.phase = .printing := (Phase.of_line? hp).imp_right .inr
      exact .quiet s.lastStatus _ h0 (.answered hp (Phase.waitResult?_ofWrite r))
    · exact .interrupt hh .written
  · rename_i path next hn
    cases h
    obtain ⟨h0, hp, rfl⟩ := Shell.changeDirectory_of_need hn
    have hp : (∃ pid, s.phase = .announcing pid) ∨ (∃ path, s.phase = .changing path) ∨
        s.phase = .printing := .inr (.inl ⟨path, hp⟩)
    cases r with
    | ok u => exact .quiet s.lastStatus s.kept h0 (.answered hp rfl)
    | error e => exact .quiet s.lastStatus s.kept h0 (.answered hp rfl)
  · cases h

theorem step_told {text : Bytes} {r : Except Errno Unit} (h : s.next? (.told text r) = some t) :
    Step ⟨s, jobs⟩ ⟨t, jobs⟩ := by
  simp only [Shell.next?] at h
  split at h
  · cases h
    exact .told _
  · cases h

theorem step_lineMove (h0 : s.handlers = []) (h : s.next? .move = some t) :
    Step ⟨s, jobs⟩ ⟨t, jobs.record (s.deed .move)⟩ := by
  obtain ⟨home, tracker, status, phase, handlers, children, signals, kept⟩ := s
  subst h0
  cases phase <;> simp only [Shell.next?, Shell.need, Shell.lineNeed] at h <;>
    try (cases h; done)
  case launching job =>
    cases h
    exact .hold rfl rfl
  case forked job pid =>
    cases h
    exact .quiet _ kept rfl (.grouped job pid)
  case grouped job pid =>
    cases h
    exact .note rfl rfl
  case noted job pid =>
    cases h
    exact .unhold rfl rfl
  case waiting pid =>
    simp only [Shell.deed, Shell.lineDeed]
    rcases hw : children.waitFor pid with ⟨_ | _ | ⟨q, e⟩, cs⟩ <;> simp only [hw] at h ⊢ <;>
      cases h
    · exact .orphan rfl rfl (Children.waitFor_absent hw)
    · obtain ⟨rfl, -⟩ := Children.waitFor_collected hw
      rw [Shell.heard_ofEnding]
      exact .await rfl rfl hw
  case collected r =>
    cases h
    exact .clear rfl rfl
  case cleared r =>
    cases h
    exact .quiet _ kept rfl (.reap r)
  case reaping pass r =>
    cases hr : pass.result? with
    | some n =>
      rw [hr] at h
      cases h
      obtain rfl := Reap.eq_of_result? hr
      cases r with
      | ok status => exact .quiet _ kept rfl (.concluded hr)
      | error e => exact .quiet _ kept rfl (.concluded hr)
    | none =>
      rw [hr] at h
      cases h
      exact .linePass rfl rfl (Reap.moves_of_result? _ _ _ hr)

theorem step_handlerMove {hd : Handler} {rest : List Handler} (hh : s.handlers = hd :: rest)
    (h : s.next? .move = some t) : Step ⟨s, jobs⟩ ⟨t, jobs.record (s.deed .move)⟩ := by
  obtain ⟨home, tracker, status, phase, handlers, children, signals, kept⟩ := s
  subst hh
  cases hd <;> simp only [Shell.next?, Shell.need, Shell.handlerNeed] at h <;>
    try (cases h; done)
  case interrupting =>
    cases hf : tracker.foreground with
    | some pid =>
      rw [hf] at h
      cases h
      exact .interrupt rfl (.forwarding hf)
    | none =>
      rw [hf] at h
      cases h
      exact .interrupt rfl (.leaving hf)
  case forwarding pid =>
    cases h
    exact .handlerEnd rfl (.forwarded pid)
  case noticing =>
    cases hf : tracker.foreground with
    | some pid =>
      rw [hf] at h
      cases h
      exact .handlerEnd rfl (.ignored (by simp [hf]))
    | none =>
      rw [hf] at h
      cases h
      exact .handlerStart rfl hf
  case reaping pass =>
    cases hr : pass.result? with
    | some n =>
      rw [hr] at h
      cases h
      obtain rfl := Reap.eq_of_result? hr
      exact .handlerEnd rfl (.reaped hr)
    | none =>
      rw [hr] at h
      cases h
      exact .handlerPass rfl (Reap.moves_of_result? _ _ _ hr)

theorem step_taken (h : s.next? .taken = some t) : Step ⟨s, jobs⟩ ⟨t, jobs⟩ := by
  simp only [Shell.next?, Shell.deliver?, Shell.takes?] at h
  split at h
  · rename_i n hn
    split at h
    · rename_i hd
      cases h
      exact .take hn hd
    · rename_i hd
      simp only [Option.map_none, Option.none_or, Shell.discard?, hn, if_neg hd] at h
      split at h
      · cases h
      · obtain rfl := Option.some.inj h
        exact .discard hd
  · rename_i hn
    simp [Shell.discard?, hn] at h

theorem step_of_next? (h : c.next? ev = some c') : c.Step c' := by
  obtain ⟨t, ht, rfl⟩ := Option.map_eq_some_iff.1 h
  cases ev with
  | line text => exact step_line ht
  | move =>
    cases hh : c.shell.handlers with
    | nil => exact step_lineMove hh ht
    | cons hd rest => exact step_handlerMove hh ht
  | forked pid => exact step_forked ht
  | answered r => exact step_answered ht
  | told text r => exact step_told ht
  | ended pid e =>
    simp only [Shell.next?] at ht
    split at ht
    · rename_i hc
      cases ht
      exact .finish hc.1 hc.2
    · cases ht
  | raised n =>
    cases ht
    exact .raise n
  | taken => exact step_taken ht

theorem run_append (c : Chronicle) (evs later : List Event) :
    c.run (evs ++ later) = (c.run evs).bind (·.run later) := by
  induction evs generalizing c with
  | nil => rfl
  | cons ev rest ih =>
    simp only [List.cons_append, run, Option.bind_assoc]
    congr 1
    funext d
    exact ih d

/-- What holds at the start and is kept by every step holds after every course. -/
theorem run_induction {P : Chronicle → Prop} (hstep : ∀ c c', P c → Step c c' → P c')
    {evs : List Event} {c c' : Chronicle} (hc : P c) (h : c.run evs = some c') : P c' := by
  induction evs generalizing c with
  | nil =>
    cases h
    exact hc
  | cons ev rest ih =>
    obtain ⟨d, hd, hrest⟩ := Option.bind_eq_some_iff.1 h
    exact ih (hstep c d hc (step_of_next? hd)) hrest

end Chronicle

end JobShell
