import JobShell.Proofs.Chronicle.Foresight

/-!
# Output that fails

The interpreter prints the number of a background job, the last status and texts between lines, and
on SIGINT it writes a newline. How this goes decides the result of the line that is over with it and
what standard output keeps, and nothing else.

* `Phase.Agrees`, `Shell.Agrees`, `Chronicle.Agrees`: the same, but for the result of a line that has
  ended with a write, and for what is kept.
* `Chronicle.Reworded`: the same events in the same order, but for how writes go.
* `Chronicle.agrees_of_reworded`: they can happen as well, and come to the same.
* `Chronicle.Announced`: the background job whose number is to be written is in the ledger, as one
  that the tracker has been told of.
* `Chronicle.Unwritten`: what an attempt to write leaves, by `Chronicle.exists_unwritten`.
-/

namespace JobShell

/-! ## Two states -/

/-- The same phase, or both are over with a write. -/
inductive Phase.Agrees : Phase → Phase → Prop where
  | same (p : Phase) : Agrees p p
  | wrote (r r' : Except Errno Unit) : Agrees (finished (.ofWrite r)) (finished (.ofWrite r'))

theorem Phase.Agrees.cases {p q : Phase} (h : p.Agrees q) :
    q = p ∨ ∃ r r', p = finished r ∧ q = finished r' := by
  cases h with
  | same => exact .inl rfl
  | wrote r r' => exact .inr ⟨_, _, rfl, rfl⟩

/-- The same state, but for the result of a line that has ended with a write, and for what standard
output keeps. -/
structure Shell.Agrees (s t : Shell) : Prop where
  phase : s.phase.Agrees t.phase
  rest : t = { s with phase := t.phase, kept := t.kept }

/-- The same jobs as well, with what has become of them. -/
structure Chronicle.Agrees (c d : Chronicle) : Prop where
  shell : c.shell.Agrees d.shell
  jobs : d.jobs = c.jobs

namespace Shell

variable {s t s' : Shell} {ev ev' : Event}

theorem Agrees.refl (s : Shell) : s.Agrees s := ⟨.same _, rfl⟩

/-- Two things that may happen next are the same, but for how a write goes. -/
inductive Rewords (s : Shell) : Event → Event → Prop where
  | same (ev : Event) : Rewords s ev ev
  | write {text : Bytes} {next : Except Errno Unit → Shell} (h : s.need = .write text next)
      (r r' : Except Errno Unit) : Rewords s (.answered r) (.answered r')
  | tell (text : Bytes) (r r' : Except Errno Unit) : Rewords s (.told text r) (.told text r')

/-! ## One event -/

theorem need_of_finished {result : LineResult} (h0 : s.handlers = [])
    (hp : s.phase = .finished result) : s.need = .rest result := by
  simp only [need, h0, lineNeed, hp]

/-- The line is over with what it prints next. -/
theorem need_of_line? {line : Bytes} (h0 : s.handlers = [])
    (hline : s.phase.line? s.lastStatus = some line) : s.need = s.print line := by
  rcases Phase.of_line? hline with ⟨pid, hp⟩ | hp <;> rw [hp] at hline <;> cases hline <;>
    simp only [need, h0, lineNeed, hp]

/-- At any point of a line, and whatever standard output keeps. -/
def elsewhere (s : Shell) (q : Phase) (kept : Bytes) : Shell := { s with phase := q, kept }

theorem agrees_elsewhere {q : Phase} (hq : s.phase.Agrees q) (kept : Bytes) :
    s.Agrees (s.elsewhere q kept) := ⟨hq, rfl⟩

theorem Agrees.eq_elsewhere (h : s.Agrees t) : t = s.elsewhere t.phase t.kept := h.rest

/-- A signal is taken anywhere in the same way. -/
theorem taken_elsewhere (s : Shell) (q : Phase) (kept : Bytes) :
    (s.elsewhere q kept).next? .taken = (s.next? .taken).map (·.elsewhere q kept) := by
  have hdeliver :
      (s.elsewhere q kept).deliver? = s.deliver?.map (·.elsewhere q kept) := by
    unfold deliver?
    rw [Option.map_map]
    rfl
  have hdiscard :
      (s.elsewhere q kept).discard? = s.discard?.map (·.elsewhere q kept) := by
    unfold discard? elsewhere
    dsimp only
    split
    · split
      · rfl
      · split <;> rfl
    · rfl
  simp only [next?, hdeliver, hdiscard]
  cases s.deliver? <;> rfl

theorem phase_taken (h : s.next? .taken = some s') : s'.phase = s.phase := by
  have hsame : s.next? .taken = (s.next? .taken).map (·.elsewhere s.phase s.kept) :=
    s.taken_elsewhere s.phase s.kept
  rw [h] at hsame
  have heq : s' = s'.elsewhere s.phase s.kept := Option.some.inj hsame
  rw [heq]
  rfl

/-- A handler looks neither at the line below it nor at what is kept. -/
theorem handlerMove_elsewhere {hd : Handler} {rest : List Handler} (hh : s.handlers = hd :: rest)
    (q : Phase) (kept : Bytes) (h : s.next? .move = some s') :
    (s.elsewhere q kept).next? .move = some (s'.elsewhere q kept) ∧ s'.phase = s.phase := by
  simp only [next?, need, elsewhere, hh] at h ⊢
  cases hd with
  | newline | leaving => cases h
  | forwarding leader =>
    cases h
    exact ⟨rfl, rfl⟩
  | interrupting | noticing =>
    cases hf : s.tracker.foreground <;> simp only [handlerNeed, hf] at h ⊢ <;> cases h <;>
      exact ⟨rfl, rfl⟩
  | reaping pass =>
    cases hr : pass.result? <;> simp only [handlerNeed, hr] at h ⊢ <;> cases h <;> exact ⟨rfl, rfl⟩

/-- A step of the line that writes nothing does not look at what is kept. -/
theorem lineMove_elsewhere (h0 : s.handlers = []) (kept : Bytes) (h : s.next? .move = some s') :
    (s.elsewhere s.phase kept).next? .move = some (s'.elsewhere s'.phase kept) := by
  obtain ⟨home, tracker, status, phase, handlers, children, signals, _⟩ := s
  subst h0
  cases phase <;> simp only [next?, need, lineNeed, elsewhere] at h ⊢ <;> try (cases h; done)
  case waiting pid =>
    rcases hw : children.waitFor pid with ⟨_ | _ | ⟨q, e⟩, cs⟩ <;> simp only [hw] at h ⊢ <;>
      cases h
    · rfl
    · rw [heard_ofEnding, heard_ofEnding]
  case reaping pass r =>
    cases hr : pass.result? <;> simp only [hr] at h ⊢ <;> cases h
    · rfl
    · cases r <;> rfl
  all_goals
    cases h
    rfl

/-- A step that needs no answer is made in both states. -/
theorem Agrees.move (h : s.Agrees t) (hs : s.next? .move = some s') :
    ∃ t', t.next? .move = some t' ∧ s'.Agrees t' := by
  rw [h.eq_elsewhere]
  cases hh : s.handlers with
  | cons hd rest =>
    obtain ⟨ht, hphase⟩ := handlerMove_elsewhere hh t.phase t.kept hs
    exact ⟨_, ht, agrees_elsewhere (hphase ▸ h.phase) _⟩
  | nil =>
    rcases h.phase.cases with hsame | ⟨r, r', hp, -⟩
    · rw [hsame]
      exact ⟨_, lineMove_elsewhere hh t.kept hs, agrees_elsewhere (.same _) _⟩
    · simp only [next?, need_of_finished hh hp] at hs
      cases hs

/-- Both states rest, or none. -/
theorem Agrees.need_rest (h : s.Agrees t) {r : LineResult} (hn : s.need = .rest r) :
    ∃ r', t.need = .rest r' := by
  obtain ⟨h0, hp⟩ := rest_of_need hn
  have h0' : t.handlers = [] := by rw [h.rest]; exact h0
  rcases h.phase.cases with hsame | ⟨_, r', -, hq⟩
  · rcases hp with hp | hp <;> rw [hp] at hsame
    · exact ⟨.next, by simp only [need, h0', lineNeed, hsame]⟩
    · exact ⟨r, need_of_finished h0' hsame⟩
  · exact ⟨r', need_of_finished h0' hq⟩

/-- A line that is not over is at the same point in both states. -/
theorem Agrees.phase_eq (h : s.Agrees t) (hp : ∀ r, s.phase ≠ .finished r) : t.phase = s.phase := by
  rcases h.phase.cases with hsame | ⟨r, _, hq, -⟩
  · exact hsame
  · exact absurd hq (hp r)

/-- How a write goes shows in nothing but the result of the line that is over with it and in what is
kept. -/
theorem Agrees.answered {r : Except Errno Unit} (h : s.Agrees t)
    (hev : s.Rewords (.answered r) ev') (hs : s.next? (.answered r) = some s') :
    ∃ t', t.next? ev' = some t' ∧ s'.Agrees t' := by
  have h0' : t.handlers = s.handlers := by rw [h.rest]
  simp only [next?] at hs
  split at hs
  · rename_i text next hneed
    cases hs
    -- another answer, or the same
    obtain ⟨r', rfl⟩ : ∃ r', ev' = .answered r' := by
      cases hev with
      | same => exact ⟨r, rfl⟩
      | write _ _ r' => exact ⟨r', rfl⟩
    rcases write_of_need hneed with ⟨h0, line, hline, -, rfl⟩ | ⟨rest, hh, rfl⟩
    · have hp : t.phase = s.phase := h.phase_eq fun r hp => by rw [hp] at hline; cases hline
      have hline' : t.phase.line? t.lastStatus = some line := by
        rw [hp, h.rest]
        exact hline
      have hneed' : t.need = t.print line := need_of_line? (h0'.trans h0) hline'
      refine ⟨t.written line r', by simp only [next?, hneed', print], .wrote r r', ?_⟩
      rw [h.rest]
      rfl
    · refine ⟨{ t with handlers := .interrupting :: rest },
        by simp only [next?, need, h0'.trans hh, handlerNeed], h.phase, ?_⟩
      rw [h.rest]
  · rename_i path next hneed
    cases hs
    obtain ⟨h0, hp, rfl⟩ := changeDirectory_of_need hneed
    obtain rfl : ev' = .answered r := by
      cases hev with
      | same => rfl
      | write hwrite _ _ => cases hneed.symm.trans hwrite
    have hp' : t.phase = .changing path :=
      (h.phase_eq fun r hr => by cases hp.symm.trans hr).trans hp
    refine ⟨t.changed path r, by simp only [next?, need, h0'.trans h0, lineNeed, hp'], ?_, ?_⟩
    · rw [changed_eq, changed_eq]
      exact .same _
    · rw [changed_eq, changed_eq, h.rest]
  · cases hs

/-- A fork is made in both states. -/
theorem Agrees.forked {pid : Pid} (h : s.Agrees t) (hs : s.next? (.forked pid) = some s') :
    ∃ t', t.next? (.forked pid) = some t' ∧ s'.Agrees t' := by
  simp only [next?] at hs
  split at hs
  · rename_i hn
    split at hs <;> cases hs
    rename_i hnew
    obtain ⟨h0, job, hp, rfl⟩ := fork_of_need hn
    have hp' : t.phase = .guarded job :=
      (h.phase_eq fun r hr => by cases hp.symm.trans hr).trans hp
    have hrest := h.rest
    rw [hp'] at hrest
    refine ⟨{ t with children := t.children.add pid, phase := .forked job pid }, ?_, .same _, ?_⟩
    · rw [hrest]
      simp only [next?, need, h0, lineNeed]
      exact if_pos hnew
    · rw [hrest]
  · cases hs

/-- States that agree go on to states that agree. -/
theorem Agrees.next (h : s.Agrees t) (hev : s.Rewords ev ev') (hs : s.next? ev = some s') :
    ∃ t', t.next? ev' = some t' ∧ s'.Agrees t' := by
  cases ev with
  | line text =>
    cases hev
    simp only [next?] at hs
    split at hs <;> cases hs
    rename_i hn
    obtain ⟨r', hn'⟩ := h.need_rest hn
    refine ⟨t.begin text, by simp only [next?, hn'], ?_, ?_⟩
    · rw [h.rest]
      exact .same _
    · rw [h.rest]
      rfl
  | move =>
    cases hev
    exact h.move hs
  | forked pid =>
    cases hev
    exact h.forked hs
  | answered r => exact h.answered hev hs
  | told text r =>
    obtain ⟨r', rfl⟩ : ∃ r', ev' = .told text r' := by
      cases hev with
      | same => exact ⟨r, rfl⟩
      | tell _ _ r' => exact ⟨r', rfl⟩
    simp only [next?] at hs
    split at hs <;> cases hs
    rename_i hn
    obtain ⟨_, hn'⟩ := h.need_rest hn
    refine ⟨t.told text r', by simp only [next?, hn'], h.phase, ?_⟩
    rw [h.rest]
    rfl
  | ended pid e =>
    cases hev
    simp only [next?] at hs
    split at hs <;> cases hs
    rename_i hc
    rw [h.eq_elsewhere]
    exact ⟨_, if_pos hc, h.phase, rfl⟩
  | raised n =>
    cases hev
    cases hs
    rw [h.eq_elsewhere]
    exact ⟨_, rfl, h.phase, rfl⟩
  | taken =>
    cases hev
    have hsame := s.taken_elsewhere t.phase t.kept
    rw [hs] at hsame
    rw [h.eq_elsewhere]
    exact ⟨_, hsame, agrees_elsewhere (phase_taken hs ▸ h.phase) _⟩

/-- Whatever is said of the jobs by an event, both states say. -/
theorem Agrees.deed_eq (h : s.Agrees t) (hev : s.Rewords ev ev') : t.deed ev' = s.deed ev := by
  cases hev with
  | same =>
    rw [h.eq_elsewhere]
    rcases h.phase.cases with hsame | ⟨r, r', hp, hq⟩
    · rw [hsame]
      rfl
    · cases ev <;> simp only [deed, lineDeed, elsewhere, hp, hq]
  | write | tell => rfl

end Shell

/-! ## Two courses -/

namespace Chronicle

variable {c c' d : Chronicle} {ev ev' : Event} {evs evs' : List Event}

/-- Events that can happen one after another, and the same but for how writes go. -/
inductive Reworded : Chronicle → List Event → List Event → Prop where
  | nil (c : Chronicle) : Reworded c [] []
  | cons {c c' : Chronicle} {ev ev' : Event} {evs evs' : List Event}
      (hev : c.shell.Rewords ev ev') (hnext : c.next? ev = some c')
      (hrest : Reworded c' evs evs') : Reworded c (ev :: evs) (ev' :: evs')

theorem Reworded.of_run (h : c.run evs = some c') : c.Reworded evs evs := by
  induction evs generalizing c with
  | nil => exact .nil c
  | cons ev evs ih =>
    obtain ⟨c₁, hnext, hrest⟩ := Option.bind_eq_some_iff.1 h
    exact .cons (.same ev) hnext (ih hrest)

/-- Both courses may have begun in the same way. -/
theorem Reworded.after {later later' : List Event} (hrun : c.run evs = some c')
    (h : c'.Reworded later later') : c.Reworded (evs ++ later) (evs ++ later') := by
  induction evs generalizing c with
  | nil =>
    obtain rfl := Option.some.inj hrun
    exact h
  | cons ev evs ih =>
    obtain ⟨c₁, hnext, hrest⟩ := Option.bind_eq_some_iff.1 hrun
    exact .cons (.same ev) hnext (ih hrest)

theorem Reworded.take (h : c.Reworded evs evs') (n : Nat) :
    c.Reworded (evs.take n) (evs'.take n) := by
  induction h generalizing n with
  | nil c => simpa using .nil c
  | cons hev hnext _ ih =>
    cases n with
    | zero => exact .nil _
    | succ n => exact .cons hev hnext (ih n)

theorem Agrees.next (h : c.Agrees d) (hev : c.shell.Rewords ev ev') (hc : c.next? ev = some c') :
    ∃ d', d.next? ev' = some d' ∧ c'.Agrees d' := by
  obtain ⟨s', hs, rfl⟩ := Option.map_eq_some_iff.1 hc
  obtain ⟨t', ht, hagrees⟩ := h.shell.next hev hs
  refine ⟨_, Option.map_eq_some_iff.2 ⟨t', ht, rfl⟩, hagrees, ?_⟩
  dsimp only
  rw [h.jobs, h.shell.deed_eq hev]

theorem agrees_of_reworded (h : c.Reworded evs evs') (hd : c.Agrees d) :
    ∃ c' d', c.run evs = some c' ∧ d.run evs' = some d' ∧ c'.Agrees d' := by
  induction h generalizing d with
  | nil c => exact ⟨c, d, rfl, rfl, hd⟩
  | cons hev hnext _ ih =>
    obtain ⟨d₁, hd₁, hagrees⟩ := hd.next hev hnext
    obtain ⟨c', d', hc', hd', hend⟩ := ih hagrees
    exact ⟨c', d', by rw [run, hnext]; exact hc', by rw [run, hd₁]; exact hd', hend⟩

end Chronicle

/-! ## The job whose number is to be written -/

/-- The background job that has been noted and whose number is still to be written. -/
def Phase.announced? : Phase → Option Pid
  | noted job pid => if job.background then some pid else none
  | announcing pid => some pid
  | _ => none

/-- A background job that the tracker has been told of. -/
structure JobRecord.IsCounted (j : JobRecord) (leader : Pid) : Prop where
  leader : j.leader = leader
  background : j.background
  noted : j.noted

namespace Ledger

theorem exists_mem_amend {jobs : Ledger} {j : JobRecord} (hj : j ∈ jobs) (leader : Pid)
    (f : JobRecord → JobRecord) : ∃ k ∈ jobs.amend leader f, k = j ∨ k = f j := by
  induction jobs with
  | nil => cases hj
  | cons i rest ih =>
    unfold amend
    split
    · rcases List.mem_cons.1 hj with rfl | hj
      · exact ⟨_, List.mem_cons_self, .inr rfl⟩
      · exact ⟨j, List.mem_cons_of_mem _ hj, .inl rfl⟩
    · rcases List.mem_cons.1 hj with rfl | hj
      · exact ⟨j, List.mem_cons_self, .inl rfl⟩
      · obtain ⟨k, hk, heq⟩ := ih hj
        exact ⟨k, List.mem_cons_of_mem _ hk, heq⟩

/-- Whatever becomes of the jobs, one that has been counted stays one. -/
theorem exists_isCounted_record {jobs : Ledger} {pid : Pid} (d : Deed)
    (h : ∃ j ∈ jobs, j.IsCounted pid) : ∃ j ∈ jobs.record d, j.IsCounted pid := by
  obtain ⟨j, hj, hcounted⟩ := h
  obtain ⟨hleader, hbackground, hnoted⟩ := hcounted
  have hamend (leader : Pid) (f : JobRecord → JobRecord) (hf : (f j).IsCounted pid) :
      ∃ k ∈ jobs.amend leader f, k.IsCounted pid := by
    obtain ⟨k, hk, rfl | rfl⟩ := exists_mem_amend hj leader f
    · exact ⟨k, hk, hleader, hbackground, hnoted⟩
    · exact ⟨_, hk, hf⟩
  cases d with
  | launched leader background =>
    exact ⟨j, List.mem_append_left _ hj, hleader, hbackground, hnoted⟩
  | noted leader => exact hamend leader _ ⟨hleader, hbackground, rfl⟩
  | ended leader e => exact hamend leader _ ⟨hleader, hbackground, hnoted⟩
  | collected who leader => exact hamend leader _ ⟨hleader, hbackground, hnoted⟩
  | released who =>
    exact ⟨j.release who, List.mem_map_of_mem hj, by simpa, by simpa, by simpa⟩
  | nothing => exact ⟨j, hj, hleader, hbackground, hnoted⟩

end Ledger

namespace Chronicle

variable {c c' : Chronicle}

/-- The job whose number is to be written is in the ledger. -/
def Announced (c : Chronicle) : Prop :=
  ∀ pid, c.shell.phase.announced? = some pid → ∃ j ∈ c.jobs, j.IsCounted pid

theorem announced_of_none (h : c.shell.phase.announced? = none) : c.Announced := by
  intro pid hpid
  cases h.symm.trans hpid

/-- The job is in the ledger still, whatever has become of jobs. -/
theorem Announced.of_record (h : c.Announced) {s : Shell} (d : Deed)
    (hp : ∀ pid, s.phase.announced? = some pid → c.shell.phase.announced? = some pid) :
    Announced { shell := s, jobs := c.jobs.record d } :=
  fun pid hpid => Ledger.exists_isCounted_record d (h pid (hp pid hpid))

/-- A background job is noted. -/
theorem announced_note (hb : Booked c) {job : Job} {pid : Pid}
    (hp : c.shell.phase = .grouped job pid) :
    Announced
      { shell := { c.shell with tracker := c.shell.note job pid, phase := .noted job pid }
        jobs := c.jobs.record (.noted pid) } := by
  intro q hq
  have hst : c.shell.phase.standing = .fresh pid job.background := by rw [hp]; rfl
  obtain ⟨j, before, after, hat, rfl, hlaunch⟩ := hb.exists_at (by rw [hst]; rfl)
  rw [hst] at hlaunch
  obtain ⟨-, hbg, -⟩ := hlaunch
  change (if job.background then some j.leader else none) = some q at hq
  split at hq
  · rename_i hjob
    obtain rfl := Option.some.inj hq
    exact ⟨_, hat.mem_amend.2 (.inl rfl), rfl, hbg.trans hjob, rfl⟩
  · cases hq

theorem Announced.step (h : c.Announced) (hb : Booked c) (hs : c.Step c') : c'.Announced := by
  cases hs with
  | quiet status kept h0 hq =>
    refine announced_of_none ?_
    generalize c.shell.phase = p at hq
    cases hq with
    | begun hp hq => rcases hq with ⟨job, rfl⟩ | ⟨path, rfl⟩ | rfl | ⟨r, rfl, -⟩ <;> rfl
    | _ => rfl
  | hold | fork | await | orphan | clear | linePass => exact announced_of_none rfl
  | note h0 hp => exact announced_note hb hp
  | @unhold job pid h0 hp =>
    intro q hq
    refine h q ?_
    rw [hp]
    unfold Phase.announced?
    cases hbg : job.background <;> simp_all [Phase.announced?]
  | handlerPass | finish => exact h.of_record _ fun _ => id
  | handlerStart | handlerEnd | interrupt | take | discard | told | raise => exact h

theorem announced_of_run {handlers : Bool} {home : Option Bytes} {evs : List Event}
    (h : (start handlers home).run evs = some c) : c.Announced := by
  have hkept : Kept c ∧ c.Announced := by
    refine run_induction (P := fun c => Kept c ∧ c.Announced) ?_
      ⟨.start handlers home, announced_of_none rfl⟩ h
    intro c c' hc hs
    exact ⟨hc.1.step hs, hc.2.step hc.1.booked hs⟩
  exact hkept.2

/-! ## Attempts to write -/

/-- A line is over with an attempt to print `line`, and the next one can be given. -/
structure Unwritten (c : Chronicle) (line : Bytes) (r : Except Errno Unit) (c' : Chronicle) :
    Prop where
  next : c.next? (.answered r) = some c'
  jobs : c'.jobs = c.jobs
  shell : c'.shell = { c.shell with
    kept := Output.left c.shell.kept line r, phase := .finished (.ofWrite r) }
  goesOn : ∀ text, c'.next? (.line text) = some { c' with shell := c'.shell.begin text }

/-- An attempt to print the number of a background job or the last status changes nothing but the
result of the line and what standard output keeps, however it goes. -/
theorem exists_unwritten (h0 : c.shell.handlers = []) {line : Bytes}
    (hline : c.shell.phase.line? c.shell.lastStatus = some line) (r : Except Errno Unit) :
    ∃ c', c.Unwritten line r c' := by
  have hneed : c.shell.need = c.shell.print line := Shell.need_of_line? h0 hline
  have hrest : (c.shell.written line r).need = .rest (.ofWrite r) :=
    Shell.need_of_finished h0 rfl
  refine ⟨{ c with shell := c.shell.written line r }, ?_, rfl, rfl, ?_⟩
  · simp only [Chronicle.next?, Shell.next?, hneed, Shell.print]
    rfl
  · intro text
    simp only [Chronicle.next?, Shell.next?, hrest]
    rfl

/-- The count goes up by one when a background job is noted, which comes before its number is
written. -/
theorem background_note {job : Job} {pid : Pid} (h0 : c.shell.handlers = [])
    (hp : c.shell.phase = .grouped job pid) (hbg : job.background = true) :
    ∃ c', c.next? .move = some c' ∧ c'.shell.phase = .noted job pid ∧
      c'.shell.tracker.background = c.shell.tracker.background + 1 := by
  have hneed : c.shell.need = .step
      { c.shell with tracker := c.shell.note job pid, phase := .noted job pid } := by
    simp only [Shell.need, h0, Shell.lineNeed, hp]
  refine ⟨_, by rw [Chronicle.next?, Shell.next?, hneed]; rfl, rfl, ?_⟩
  show (c.shell.note job pid).background = _
  rw [Shell.note, if_pos hbg]
  rfl

end Chronicle

end JobShell
