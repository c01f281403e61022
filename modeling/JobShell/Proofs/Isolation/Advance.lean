import JobShell.Proofs.Isolation.Conclusion
import JobShell.Proofs.Isolation.Crew
import JobShell.Proofs.Wiring.Fates

/-!
# How far a process of a job comes by itself

Nothing that such a process does before it executes a program has to wait, but for a report.

* `Act.Only.of_forall`, `Act.Only.rest`: a program whose paths are all of one kind, and what is left
  of one.
* `World.Stuck`: why a process does not go on.
* `Machine.Runs.finishes`: given turns, a process does its last with its program or does not go on.
-/

namespace JobShell

/-- It waits for nobody, unless it is on standard error that it writes. -/
def Doing.IsPrompt (d : Doing) : Prop :=
  d.waits = false ∧ ∀ fd text, d.write? = some (fd, text) → fd = 2

namespace Act

variable {P : Doing → Prop} {a b : Act} {ds : Doings}

theorem Only.of_forall (h : ∀ ds o, a.Path ds o → ∀ d ∈ ds, P d) : a.Only P := by
  induction a with
  | exit code => exact .exit (h _ _ (.ends .exits) _ List.mem_cons_self)
  | call c next ih =>
    have hnext (reply : c.Reply) (ds : Doings) (o : Option Act) (hpath : (next reply).Path ds o) :
        ∀ d ∈ ds, P d :=
      fun d hd => h _ o (.goes (.calls reply) hpath) d (List.mem_cons_of_mem _ hd)
    refine .call (fun reply => ?_) ?_ fun reply => ih reply (hnext reply)
    · exact h _ _ (.goes (.calls reply) (.start _)) _ List.mem_cons_self
    · rintro path args env rfl
      exact h _ _ (.ends .executes) _ List.mem_cons_self
  | fork child next _ ih =>
    have hnext (reply : Except Errno Pid) (ds : Doings) (o : Option Act)
        (hpath : (next reply).Path ds o) : ∀ d ∈ ds, P d :=
      fun d hd => h _ o (.goes (.forks reply) hpath) d (List.mem_cons_of_mem _ hd)
    refine .fork (fun reply => ?_) fun reply => ih reply (hnext reply)
    exact h _ _ (.goes (.forks reply) (.start _)) _ List.mem_cons_self

theorem Only.of_does {d : Doing} (ha : a.Only P) (h : a.Does d (some b)) : b.Only P := by
  cases ha with
  | exit => cases h
  | call _ _ hnext => cases h with | calls reply => exact hnext reply
  | fork _ hnext => cases h with | forks reply => exact hnext reply

/-- What is left of a program does nothing else either. -/
theorem Only.rest (ha : a.Only P) (h : a.Path ds (some b)) : b.Only P := by
  generalize ho : some b = o at h
  induction h with
  | start =>
    obtain rfl := Option.some.inj ho
    exact ha
  | goes hd _ ih => exact ih (ha.of_does hd) ho
  | ends => cases ho

end Act

namespace World

variable {w : World} {p : Process} {pid : Pid} {a : Act}

/-- A process does not go on: it is stopped, or what it writes on standard error is not taken from
it, or its farewell. -/
def Stuck (w : World) (pid : Pid) : Prop :=
  ∃ p, (w.takeSignals signalCount pid).process? pid = some p ∧ (p.stopped = true ∨
    (∃ text w', (w.takeSignals signalCount pid).perform p (.write 2 text) = .wait w') ∨
    (w.takeSignals signalCount pid).Lingers p)

theorem of_perform_wait {c : Call} {w' : World} (h : w.perform p c = .wait w') :
    (∃ fd text, c = .write fd text) ∨ c.waits := by
  cases c with
  | write fd text => exact .inl ⟨fd, text, rfl⟩
  | read | wait | sleep => exact .inr rfl
  | exec path args env =>
    change w.exec p path args env = .wait w' at h
    unfold exec at h
    split at h <;> cases h
  | mkdir | rmdir | unlink | rename | link | symlink | chmod | touch =>
    obtain ⟨w₁, reply, heq⟩ := ofChange_cases w _
    cases heq.symm.trans h
  | _ => cases h

/-- A process that does nothing in its turn, though it would have to wait for nobody. -/
theorem stuck_of_doing? (hk : w.Keyed) (h : w.program? pid = some a)
    (ha : a.Only Doing.IsPrompt) (hd : w.doing? pid = none) : w.Stuck pid := by
  have hkeyed := (leaves_takeSignals hk signalCount pid).keyed hk
  obtain ⟨q, hq, -⟩ := exists_of_program? h
  unfold doing? at hd
  dsimp only at hd
  cases hp : (w.takeSignals signalCount pid).process? pid with
  | none =>
    rw [hp, hq] at hd
    cases hd
  | some p =>
    refine ⟨p, hp, ?_⟩
    rw [hp] at hd
    dsimp only at hd
    by_cases hstopped : p.stopped = true
    · exact .inl hstopped
    rw [if_neg hstopped] at hd
    have hprogram := program?_takeSignals hk signalCount h hp
    rcases waits_of_does? hprogram hd with hlingers | ⟨c, next, w', rfl, hwait⟩
    · exact .inr (.inr hlingers)
    cases ha with
    | call hc hx hnext =>
      rcases of_perform_wait hwait with ⟨fd, text, rfl⟩ | hwaits
      · obtain rfl := (hc (.ok 0)).2 fd text rfl
        exact .inr (.inl ⟨text, w', hwait⟩)
      · cases c with
        | read | wait | sleep => cases (hc (.error .EINTR)).1
        | _ => cases hwaits

end World

namespace Machine

variable {m m' m₁ : Machine} {is is' : List Incident} {pid : Pid} {a b : Act} {ds : Doings}

theorem meets?_append (h : m.meets? is = some m₁) (is' : List Incident) :
    m.meets? (is ++ is') = m₁.meets? is' := by
  induction is generalizing m with
  | nil =>
    obtain rfl := Option.some.inj h
    rfl
  | cons i rest ih =>
    obtain ⟨m₂, hfirst, hrest⟩ := Option.bind_eq_some_iff.1 h
    rw [List.cons_append, meets?, hfirst]
    exact ih hrest

/-- A process has done its last in one part of a course or in the other. -/
theorem any_isLast_append (pid : Pid) (h : m.meets? is = some m₁) (is' : List Incident) :
    (m.doings pid (is ++ is')).any Doing.isLast =
      ((m.doings pid is).any Doing.isLast || (m₁.doings pid is').any Doing.isLast) := by
  induction is generalizing m with
  | nil =>
    obtain rfl := Option.some.inj h
    rfl
  | cons i rest ih =>
    obtain ⟨m₂, hfirst, hrest⟩ := Option.bind_eq_some_iff.1 h
    rw [List.cons_append, doings, doings, hfirst]
    dsimp only [Option.elim]
    cases m.doing? pid i with
    | none => exact ih hrest
    | some d =>
      dsimp only
      cases hd : d.isLast with
      | true => simp [hd]
      | false =>
        rw [if_neg Bool.false_ne_true, if_neg Bool.false_ne_true, List.any_cons, List.any_cons, hd]
        exact ih hrest

/-- A turn of a process that has not done its last. -/
theorem Runs.turn (hr : m.Runs pid a ds) :
    m.meet? (.happens (.turn pid)) = some { m with world := (m.world.step pid).1 } :=
  if_neg hr.other

/-- Given turns, and nothing else, a process does its last with its program or does not go on. -/
def Finishes (m : Machine) (pid : Pid) : Prop :=
  ∃ n m', m.meets? (List.replicate n (.happens (.turn pid))) = some m' ∧
    ((m.doings pid (List.replicate n (.happens (.turn pid)))).any Doing.isLast ∨
      m'.world.Stuck pid)

theorem Finishes.after {d : Doing} (hm : m.meet? (.happens (.turn pid)) = some m')
    (hd : m.doing? pid (.happens (.turn pid)) = some d) (h : m'.Finishes pid) : m.Finishes pid := by
  obtain ⟨n, m₂, hmeets, hend⟩ := h
  refine ⟨n + 1, m₂, ?_, hend.imp_left fun hany => ?_⟩
  · rw [List.replicate_succ, meets?, hm]
    exact hmeets
  · rw [List.replicate_succ, doings, hm, hd]
    dsimp only [Option.elim]
    cases hl : d.isLast with
    | true => simp [hl]
    | false => simpa [hl] using hany

/-- A process does its last, goes on with what is left of its program, or does not go on. -/
theorem Runs.finishes_of_next (hb : b.Only Doing.IsPrompt) (hr : m.Runs pid a ds)
    (h : m.world.program? pid = some b)
    (hnext : ∀ d b' ds' m', b.Does d (some b') → Runs m' pid a ds' →
      m'.world.program? pid = some b' → m'.Finishes pid) : m.Finishes pid := by
  have hk := hr.kindred.keyed
  have hturn := hr.turn
  have hdoing : m.doing? pid (.happens (.turn pid)) = m.world.doing? pid := if_pos rfl
  have htakes := World.takes_step hk hr.known h
  cases hd : m.world.doing? pid with
  | none => exact ⟨0, m, rfl, .inr (World.stuck_of_doing? hk h hb hd)⟩
  | some d =>
    rw [hd] at htakes hdoing
    cases htakes with
    | goes hdoes h' =>
      exact .after hturn hdoing (hnext d _ _ _ hdoes (hr.meets (meets_of_meet? hk hturn)) h')
    | ends hdoes hgone =>
      refine ⟨1, _, Option.bind_eq_some_iff.2 ⟨_, hturn, rfl⟩, .inl ?_⟩
      have hl : d.isLast := hdoes.isLast_iff.2 rfl
      simp [doings, hdoing, hl]
    | quits =>
      refine ⟨1, _, Option.bind_eq_some_iff.2 ⟨_, hturn, rfl⟩, .inl ?_⟩
      simp [doings, hdoing, Doing.isLast]

theorem Runs.finishes_of_only (hb : b.Only Doing.IsPrompt) (hr : m.Runs pid a ds)
    (h : m.world.program? pid = some b) : m.Finishes pid := by
  induction b generalizing m ds with
  | exit code => exact hr.finishes_of_next hb h fun _ _ _ _ hdoes => nomatch hdoes
  | call c next ih =>
    refine hr.finishes_of_next hb h fun d b' ds' m' hdoes hr' h' => ?_
    have hb' := hb.of_does hdoes
    cases hdoes with
    | calls reply => exact ih reply hb' hr' h'
  | fork child next _ ih =>
    refine hr.finishes_of_next hb h fun d b' ds' m' hdoes hr' h' => ?_
    have hb' := hb.of_does hdoes
    cases hdoes with
    | forks reply => exact ih reply hb' hr' h'

/-- Whatever has happened, a process with a program that waits for nobody does its last, if it is
given turns, or does not go on. -/
theorem Runs.finishes (ha : a.Only Doing.IsPrompt) (hr : m₁.Runs pid a (m.doings pid is))
    (h : m.meets? is = some m₁) : ∃ n m₂,
    m.meets? (is ++ List.replicate n (.happens (.turn pid))) = some m₂ ∧
      ((m.doings pid (is ++ List.replicate n (.happens (.turn pid)))).any Doing.isLast ∨
        m₂.world.Stuck pid) := by
  have hdone {d : Doing} (hd : d ∈ m.doings pid is) (hl : d.isLast) : ∃ n m₂,
      m.meets? (is ++ List.replicate n (.happens (.turn pid))) = some m₂ ∧
        ((m.doings pid (is ++ List.replicate n (.happens (.turn pid)))).any Doing.isLast ∨
          m₂.world.Stuck pid) := by
    refine ⟨0, m₁, by rwa [List.replicate_zero, List.append_nil], .inl ?_⟩
    rw [List.replicate_zero, List.append_nil]
    exact List.any_eq_true.2 ⟨d, hd, hl⟩
  cases hr.travels with
  | going hpath hb =>
    obtain ⟨n, m₂, hmeets, hend⟩ := hr.finishes_of_only (ha.rest hpath) hb
    refine ⟨n, m₂, (meets?_append h _).trans hmeets, hend.imp_left fun hany => ?_⟩
    rw [any_isLast_append pid h, hany, Bool.or_true]
  | finished hpath hlast hgone =>
    obtain ⟨d, hd, hl⟩ := hpath.exists_last
    exact hdone (List.mem_of_getLast? hd) hl
  | left _ hds => exact hdone (hds ▸ List.mem_concat_self) rfl

end Machine

namespace Launch

variable {env : List Bytes} {ss : List Stage} {stage : Stage} {refused all : Prop}
  {ds : Doings} {p : Pipeline}

theorem Mans.isPrompt (h : Mans env refused all stage ds) : ∀ d ∈ ds, d.IsPrompt := by
  refine fun d hd => ⟨h.prompt d hd, fun fd text hw => ?_⟩
  obtain ⟨f, honce⟩ := h.once
  have hmem : (fd, text) ∈ ds.writes := List.mem_filterMap.2 ⟨d, hd, hw⟩
  exact congrArg Prod.fst (List.mem_singleton.1 (honce.subset hmem))

end Launch

end JobShell
