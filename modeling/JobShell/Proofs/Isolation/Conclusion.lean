import JobShell.Proofs.Isolation.Attendance

/-!
# How a leader that has failed ends

A leader that has nothing left but to report a failure makes no call that could wait, but for the
report.

* `World.Held`: why such a process does not go on.
* `Machine.Launched.concludes`: given turns, it ends or is held so.
* `World.Doomed`: a signal waits that ends a process; `World.doomed_of_killed` says that nothing else
  ends one against its will.
-/

namespace JobShell

namespace World

variable {w : World} {p : Process} {pid : Pid} {a : Act} {f : LaunchFailure}

/-- A process has taken a SIGINT, and its farewell is not taken from it. -/
def Lingers (w : World) (p : Process) : Prop :=
  ∃ text w', p.farewell? = some text ∧ w.perform p (.write 1 text) = .wait w'

/-- A process does not go on: it is stopped, or its report is not taken from it, or its farewell. -/
def Held (w : World) (pid : Pid) (f : LaunchFailure) : Prop :=
  ∃ p, (w.takeSignals signalCount pid).process? pid = some p ∧ (p.stopped = true ∨
    (∃ w', (w.takeSignals signalCount pid).perform p
      (.write 2 (Bytes.ofString (reportLine f.message))) = .wait w') ∨
    (w.takeSignals signalCount pid).Lingers p)

theorem perform_of_calm {c : Call} (hc : c.isCalm) (w : World) (p : Process) :
    ∃ w' reply, w.perform p c = .done w' reply := by
  cases c <;> first | cases hc; done | exact ⟨_, _, rfl⟩

/-- Only a call that has to be made again keeps a process from going on. -/
theorem waits_of_does? (hprogram : p.program = some a) (hd : w.does? p = none) :
    w.Lingers p ∨ ∃ c next w', a = .call c next ∧ w.perform p c = .wait w' := by
  have h := w.advances p
  rw [hd] at h
  generalize (w.advance p).1 = w' at h
  cases h with
  | idles _ hnone => cases hnone.symm.trans hprogram
  | lingers hf hwait => exact .inl ⟨_, _, hf, hwait⟩
  | waits hdue hwait =>
    have hcall := (Process.of_due? hdue).2
    exact .inr ⟨_, _, _, Option.some.inj (hprogram.symm.trans hcall), hwait⟩

/-- A process that does nothing in its turn, though all it has to do is to report a failure. -/
theorem held_of_doing? (hk : w.Keyed) (h : w.program? pid = some a)
    (ha : a = .exit 1 ∨ Launch.Concludes f a) (hd : w.doing? pid = none) : w.Held pid f := by
  have hkeyed := (leaves_takeSignals hk signalCount pid).keyed hk
  obtain ⟨q, hq, -⟩ := exists_of_program? h
  unfold doing? at hd
  dsimp only at hd
  cases hp : (w.takeSignals signalCount pid).process? pid with
  | none =>
    rw [hp, hq] at hd
    cases hd
  | some p =>
    refine ⟨p, hp, ?_⟩
    rw [hp] at hd
    dsimp only at hd
    by_cases hstopped : p.stopped = true
    · exact .inl hstopped
    · rw [if_neg hstopped] at hd
      have hprogram := program?_takeSignals hk signalCount h hp
      rcases waits_of_does? hprogram hd with hlingers | ⟨c, next, w', rfl, hwait⟩
      · exact .inr (.inr hlingers)
      rcases ha with ha | ha
      · cases ha
      · cases ha with
        | reports => exact .inr (.inl ⟨w', hwait⟩)
        | calls hc =>
          obtain ⟨_, _, hdone⟩ := perform_of_calm hc (w.takeSignals signalCount pid) p
          cases hwait.symm.trans hdone

/-- A signal waits for a process that will end it. -/
def Doomed (w : World) (pid : Pid) : Prop :=
  ∃ p, w.process? pid = some p ∧ ∃ n ∈ p.signals.pending,
    p.signals.disposition n = .default ∧ Signal.effect n = .ends

theorem doomed_of_takeSignals (n : Nat) (hp : w.process? pid = some p) (hpid : p.pid = pid)
    (h : (w.takeSignals n pid).process? pid = none) : w.Doomed pid := by
  refine takeSignals_induction (motive := fun w w' => ∀ p, w.process? pid = some p →
      p.pid = pid → w'.process? pid = none → w.Doomed pid)
    (fun _ _ hp _ h => by cases hp.symm.trans h) (fun w w' p k hp hk ih q hq hpid h => ?_) n w p hp
    hpid h
  obtain rfl := Option.some.inj (hp.symm.trans hq)
  obtain ⟨hmem, -⟩ := Signals.of_next? hk
  rcases w.takeSignal_cases p k with ⟨caught, interrupted, stopped, htake⟩ | ⟨hdefault, heffect, -⟩
  · -- the signals that wait after this one waited before it
    have hset := w.process?_setProcess
      { p with signals := p.signals.take k, caught, interrupted, stopped } pid
    rw [if_pos hpid] at hset
    rw [htake] at ih
    obtain ⟨q, hq, l, hl, hd, he⟩ := ih _ hset hpid h
    obtain rfl := Option.some.inj (hset.symm.trans hq)
    exact ⟨p, hp, l, (List.mem_filter.1 hl).1, hd, he⟩
  · exact ⟨p, hp, k, hmem, hdefault, heffect⟩

/-- Nothing but a signal ends a process against its will. -/
theorem doomed_of_killed (hk : w.Keyed) (h : w.doing? pid = some .killed) : w.Doomed pid := by
  unfold doing? at h
  dsimp only at h
  split at h
  · rename_i hgone
    obtain ⟨p, hp, -⟩ := Option.map_eq_some_iff.1 h
    exact doomed_of_takeSignals signalCount hp (hk.pid_eq hp) hgone
  · rename_i p _
    split at h
    · cases h
    · have hadvances := World.advances (w.takeSignals signalCount pid) p
      rw [h] at hadvances
      cases hadvances

end World

namespace Machine

variable {m m' : Machine} {leader : Pid} {ds : Doings} {pipeline : Pipeline} {a b : Act}
  {f : LaunchFailure}

/-- Given turns, and nothing else, a process ends or does not go on. -/
def Concludes (m : Machine) (pid : Pid) (f : LaunchFailure) : Prop :=
  m.ComesTo (.happens (.turn pid)) fun m' => m'.world.process? pid = none ∨ m'.world.Held pid f

/-- The leader ends, goes on with another program, or does not go on. -/
theorem Launched.turn_cases (hl : Launched pipeline leader ds m)
    (h : m.world.program? leader = some a) (ha : a = .exit 1 ∨ Launch.Concludes f a)
    (hnext : ∀ d b ds' m', a.Does d (some b) → Launched pipeline leader ds' m' →
      m'.world.program? leader = some b → m'.Concludes leader f) : m.Concludes leader f := by
  have hk := hl.kindred.keyed
  have hturn : m.meet? (.happens (.turn leader)) =
      some { m with world := (m.world.step leader).1 } := if_neg hl.other
  have hmeets := meets_of_meet? hk hturn
  have htakes := World.takes_step hk hl.known h
  cases hd : m.world.doing? leader with
  | none => exact .now (.inr (World.held_of_doing? hk h ha hd))
  | some d =>
    rw [hd] at htakes
    refine .after hturn ?_
    cases htakes with
    | goes hdoes h' => exact hnext d _ _ _ hdoes (hl.meets hmeets) h'
    | ends hdoes hgone =>
      refine .now (.inl (hgone ?_))
      cases hdoes with
      | exits | dies => rfl
      | executes =>
        rcases ha with ha | ha
        · cases ha
        · cases ha with | calls hc => cases hc
    | quits hgone => exact .now (.inl hgone)

theorem Launched.concludes_exit (hl : Launched pipeline leader ds m)
    (h : m.world.program? leader = some (.exit 1)) : m.Concludes leader f :=
  hl.turn_cases h (.inl rfl) fun _ _ _ _ hdoes => nomatch hdoes

/-- A leader that has nothing left but to report a failure comes to its end. -/
theorem Launched.concludes (ha : Launch.Concludes f a) (hl : Launched pipeline leader ds m)
    (h : m.world.program? leader = some a) : m.Concludes leader f := by
  induction ha generalizing ds m with
  | reports =>
    refine hl.turn_cases h (.inr .reports) fun d b ds' m' hdoes hl' h' => ?_
    cases hdoes with
    | calls reply => exact hl'.concludes_exit h'
  | @calls c next hc hp hnext ih =>
    refine hl.turn_cases h (.inr (.calls hc hp hnext)) fun d b ds' m' hdoes hl' h' => ?_
    cases hdoes with
    | calls reply => exact ih reply hl' h'

end Machine

end JobShell
