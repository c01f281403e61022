import JobShell.Proofs.Chronicle.Step

/-!
# Control in a session

What the interpreter's signals, handlers and tracker have to do with the point it has reached in a
line, whatever its jobs do.

* `Controlled`: SIGCHLD is held back exactly while a job is forked and noted; its handler runs only
  while it is not held back, once at a time, and makes a pass only without a foreground job; the
  tracker has a foreground job from its being noted to its being cleared.
* `Controlled.step`: every step keeps this.
-/

namespace JobShell

/-! ## Signals -/

namespace Signals

variable (s : Signals) (n m : Nat)

@[simp] theorem blocked_raise : (s.raise n).blocked = s.blocked := by
  unfold raise
  split
  · rfl
  · split <;> rfl

@[simp] theorem disposition_raise : (s.raise n).disposition m = s.disposition m := by
  unfold raise
  split
  · rfl
  · split <;> rfl

@[simp] theorem disposition_block : (s.block n).disposition m = s.disposition m := by
  unfold block
  split <;> rfl

@[simp] theorem disposition_unblock : (s.unblock n).disposition m = s.disposition m := rfl

variable {s n m}

theorem of_next? {running : List Nat} (h : s.next? running = some n) :
    n ∈ s.pending ∧ n ∉ s.blocked ∧ n ∉ running := by
  unfold next? at h
  simpa using (List.mem_filter.1 (List.min?_mem h))

theorem disposition_initial (h : initial.disposition n = .handled) :
    n = Signal.interrupt ∨ n = Signal.child := by
  by_cases hn : Signal.pipe = n <;> simp [disposition, initial, Table.get?, hn] at h

theorem disposition_install_initial (h : initial.install.disposition n = .handled) :
    n = Signal.interrupt ∨ n = Signal.child := by
  simp only [install, disposition_dispose] at h
  split at h
  · exact .inr (by assumption : Signal.child = n).symm
  · split at h
    · exact .inl (by assumption : Signal.interrupt = n).symm
    · exact disposition_initial h

end Signals

theorem Reap.Moves.foreground_eq {who : Collector} {pass pass' : Reap} {t t' : Tracker}
    {cs cs' : Children} {d : Deed} (h : Moves who t cs pass pass' t' cs' d) :
    t'.foreground = t.foreground := by
  cases h <;> rfl

/-! ## Handlers -/

namespace Handler

theorem Interrupts.signal_eq {t : Tracker} {h h' : Handler} (hi : h.Interrupts t h') :
    h'.signal = h.signal := by
  cases hi <;> rfl

theorem Interrupts.ne_reaping {t : Tracker} {h h' : Handler} (hi : h.Interrupts t h')
    (pass : Reap) : h' ≠ .reaping pass := by
  cases hi <;> exact nofun

theorem signal_handlerOf {n : Nat} (h : n = Signal.interrupt ∨ n = Signal.child) :
    (Shell.handlerOf n).signal = n := by
  rcases h with rfl | rfl <;> rfl

end Handler

/-! ## Control -/

/-- How signals, handlers and the tracker go with the phase of the line. -/
structure Controlled (s : Shell) : Prop where
  blocked : Signal.child ∈ s.signals.blocked ↔ s.phase.standing.IsHeldBack
  slots : s.phase.standing.Slots s.tracker.foreground
  positive : ∀ pid bg, s.phase.standing = .fresh pid bg → 0 < pid
  nodup : (s.handlers.map Handler.signal).Nodup
  unheld : Signal.child ∈ s.handlers.map Handler.signal → ¬s.phase.standing.IsHeldBack
  slotless : ∀ pass, .reaping pass ∈ s.handlers → s.tracker.foreground = none
  handled : ∀ n, s.signals.disposition n = .handled → n = Signal.interrupt ∨ n = Signal.child

namespace Controlled

variable {c c' : Chronicle}

theorem start (handlers : Bool) (home : Option Bytes) :
    Controlled (Chronicle.start handlers home).shell where
  blocked := by cases handlers <;> simp [Chronicle.start, Phase.standing] <;> decide
  slots := rfl
  positive := nofun
  nodup := List.nodup_nil
  unheld := nofun
  slotless := nofun
  handled := by
    intro n hn
    cases handlers with
    | true => exact Signals.disposition_install_initial hn
    | false => exact Signals.disposition_initial hn

theorem of_quiet {s : Shell} {phase : Phase} {status : Status} {kept : Bytes} (h : Controlled s)
    (hq : s.phase.Quiet phase) : Controlled { s with phase, lastStatus := status, kept } := by
  have hs := hq.standing_eq
  exact { h with
    blocked := by rw [hs]; exact h.blocked
    slots := by rw [hs]; exact h.slots
    positive := by rw [hs]; exact h.positive
    unheld := by rw [hs]; exact h.unheld }

/-- The line moves while no handler runs. -/
theorem of_line {s : Shell} (h0 : s.handlers = [])
    (blocked : Signal.child ∈ s.signals.blocked ↔ s.phase.standing.IsHeldBack)
    (slots : s.phase.standing.Slots s.tracker.foreground)
    (positive : ∀ pid bg, s.phase.standing = .fresh pid bg → 0 < pid)
    (handled : ∀ n, s.signals.disposition n = .handled → n = Signal.interrupt ∨ n = Signal.child) :
    Controlled s where
  blocked := blocked
  slots := slots
  positive := positive
  nodup := by simp [h0]
  unheld := by simp [h0]
  slotless := by simp [h0]
  handled := handled

/-- The handlers on the stack come and go without a new signal. -/
theorem of_handlers {s : Shell} {hs : List Handler} (h : Controlled s)
    (hsub : (hs.map Handler.signal).Sublist (s.handlers.map Handler.signal))
    (hpass : ∀ pass, .reaping pass ∈ hs → s.tracker.foreground = none) :
    Controlled { s with handlers := hs } :=
  { h with
    nodup := h.nodup.sublist hsub
    unheld := fun hc => h.unheld (hsub.subset hc)
    slotless := hpass }

/-! ## Steps of the line -/

section Line

variable {s : Shell} {job : Job} {pid : Pid}

theorem hold (h : Controlled s) (h0 : s.handlers = []) (hp : s.phase = .launching job) :
    Controlled { s with signals := s.signals.block Signal.child, phase := .guarded job } := by
  have hslots := h.slots
  rw [hp] at hslots
  refine of_line h0 ?_ hslots (fun _ _ hq => by cases hq) (by simpa using h.handled)
  simp [Signals.mem_blocked_block, Phase.standing]

theorem fork (h : Controlled s) (h0 : s.handlers = []) (hp : s.phase = .guarded job)
    (hpos : 0 < pid) :
    Controlled { s with children := s.children.add pid, phase := .forked job pid } := by
  have hblocked := h.blocked
  have hslots := h.slots
  rw [hp] at hblocked hslots
  refine of_line h0 hblocked hslots ?_ h.handled
  intro pid bg heq
  cases heq
  exact hpos

theorem note (h : Controlled s) (h0 : s.handlers = []) (hp : s.phase = .grouped job pid) :
    Controlled { s with tracker := s.note job pid, phase := .noted job pid } := by
  have hpid := h.positive pid job.background (by rw [hp]; rfl)
  have hblocked := h.blocked
  have hslots := h.slots
  rw [hp] at hblocked hslots
  simp only [Phase.standing, Standing.Slots] at hslots
  refine of_line h0 (hblocked.trans ?_) ?_ ?_ h.handled
  · cases hbg : job.background <;> simp [Phase.standing, hbg]
  · cases hbg : job.background with
    | true => simpa [Phase.standing, Shell.note, Tracker.addBackground, hbg] using hslots
    | false =>
      have hne : pid ≠ 0 := Int.ne_of_gt hpid
      simp [Phase.standing, Shell.note, Tracker.setForeground, hbg, hne]
  · cases hbg : job.background <;> simp [Phase.standing, hbg]

theorem unhold (h : Controlled s) (h0 : s.handlers = []) (hp : s.phase = .noted job pid) :
    Controlled { s with
      signals := s.signals.unblock Signal.child
      phase := if job.background then .announcing pid else .waiting pid } := by
  have hslots := h.slots
  rw [hp] at hslots
  refine of_line h0 ?_ ?_ ?_ (by simpa using h.handled)
  · cases hbg : job.background <;> simp [Signals.mem_blocked_unblock, Phase.standing]
  · cases hbg : job.background <;> simpa [Phase.standing, hbg] using hslots
  · cases hbg : job.background <;> simp [Phase.standing]

/-- The wait for the foreground job is over. -/
theorem collect {cs : Children} {r : Except Errno Status} (h : Controlled s) (h0 : s.handlers = [])
    (hp : s.phase = .waiting pid) :
    Controlled { s with children := cs, phase := .collected r } := by
  have hblocked := h.blocked
  have hslots := h.slots
  rw [hp] at hblocked hslots
  exact of_line h0 hblocked (Option.isSome_iff_exists.2 ⟨_, hslots⟩) (fun _ _ hq => by cases hq)
    h.handled

theorem clear {r : Except Errno Status} (h : Controlled s) (h0 : s.handlers = [])
    (hp : s.phase = .collected r) :
    Controlled { s with tracker := s.tracker.clearForeground, phase := .cleared r } := by
  have hblocked := h.blocked
  rw [hp] at hblocked
  exact of_line h0 hblocked rfl (fun _ _ hq => by cases hq) h.handled

theorem linePass {who : Collector} {pass pass' : Reap} {t : Tracker} {cs : Children} {d : Deed}
    {r : Except Errno Status} (h : Controlled s) (h0 : s.handlers = [])
    (hp : s.phase = .reaping pass r) (hm : Reap.Moves who s.tracker s.children pass pass' t cs d) :
    Controlled { s with tracker := t, children := cs, phase := .reaping pass' r } := by
  have hblocked := h.blocked
  have hslots := h.slots
  rw [hp] at hblocked hslots
  exact of_line h0 hblocked (hm.foreground_eq.trans hslots) (fun _ _ hq => by cases hq) h.handled

end Line

/-! ## Steps of the handlers -/

section Handlers

variable {s : Shell} {rest : List Handler}

theorem handlerPass {who : Collector} {pass pass' : Reap} {t : Tracker} {cs : Children} {d : Deed}
    (h : Controlled s) (hh : s.handlers = .reaping pass :: rest)
    (hm : Reap.Moves who s.tracker s.children pass pass' t cs d) :
    Controlled { s with tracker := t, children := cs, handlers := .reaping pass' :: rest } := by
  have hf := h.slotless _ (by rw [hh]; exact List.mem_cons_self)
  have hslots := h.slots
  rw [← hm.foreground_eq] at hslots
  exact { h with
    slots := hslots
    nodup := by simpa [hh, Handler.signal] using h.nodup
    unheld := by simpa [hh, Handler.signal] using h.unheld
    slotless := fun _ _ => hm.foreground_eq.trans hf }

theorem handlerEnd {hd : Handler} (h : Controlled s) (hh : s.handlers = hd :: rest) :
    Controlled { s with handlers := rest } := by
  refine h.of_handlers (by rw [hh]; exact List.sublist_cons_self _ _) fun pass hm => ?_
  exact h.slotless pass (by rw [hh]; exact List.mem_cons_of_mem _ hm)

theorem interrupt {hd hd' : Handler} (h : Controlled s) (hh : s.handlers = hd :: rest)
    (hi : hd.Interrupts s.tracker hd') : Controlled { s with handlers := hd' :: rest } := by
  refine h.of_handlers (by simp [hh, hi.signal_eq]) fun pass hm => ?_
  have hm := (List.mem_cons.1 hm).resolve_left (hi.ne_reaping pass).symm
  exact h.slotless pass (by rw [hh]; exact List.mem_cons_of_mem _ hm)

theorem take {n : Nat} (h : Controlled s)
    (hn : s.signals.next? (s.handlers.map Handler.signal) = some n)
    (hd : s.signals.disposition n = .handled) :
    Controlled { s with
      signals := s.signals.take n, handlers := Shell.handlerOf n :: s.handlers } := by
  obtain ⟨-, hblocked, hfree⟩ := Signals.of_next? hn
  have hsig := Handler.signal_handlerOf (h.handled _ hd)
  exact { h with
    nodup := by
      rw [List.map_cons, List.nodup_cons, hsig]
      exact ⟨hfree, h.nodup⟩
    unheld := by
      rw [List.map_cons, List.mem_cons, hsig]
      rintro (rfl | hc)
      · exact fun hheld => hblocked (h.blocked.2 hheld)
      · exact h.unheld hc
    slotless := by
      intro pass hm
      refine h.slotless pass ((List.mem_cons.1 hm).resolve_left ?_)
      unfold Shell.handlerOf
      split <;> exact fun h => by cases h }

end Handlers

/-- A signal is sent, and the table of children may change. -/
theorem raise {s : Shell} (h : Controlled s) (n : Nat) (cs : Children) :
    Controlled { s with children := cs, signals := s.signals.raise n } :=
  { h with
    blocked := by simpa using h.blocked
    handled := by simpa using h.handled }

theorem step (h : Controlled c.shell) (hs : c.Step c') : Controlled c'.shell := by
  cases hs with
  | quiet status kept h0 hq => exact h.of_quiet hq
  | hold h0 hp => exact h.hold h0 hp
  | fork h0 hp hpos hnew => exact h.fork h0 hp hpos
  | note h0 hp => exact h.note h0 hp
  | unhold h0 hp => exact h.unhold h0 hp
  | await h0 hp hw => exact h.collect h0 hp
  | orphan h0 hp hw => exact h.collect h0 hp
  | clear h0 hp => exact h.clear h0 hp
  | linePass h0 hp hm => exact h.linePass h0 hp hm
  | handlerPass hh hm => exact h.handlerPass hh hm
  | handlerStart hh hf => exact h.of_handlers (by rw [hh]; exact .refl _) fun _ _ => hf
  | handlerEnd hh hr => exact h.handlerEnd hh
  | interrupt hh hi => exact h.interrupt hh hi
  | take hn hd => exact h.take hn hd
  | discard hd => exact { h with }
  | told kept => exact { h with }
  | raise n => exact h.raise n c.shell.children
  | finish hc he => exact h.raise Signal.child _

end Controlled

end JobShell
