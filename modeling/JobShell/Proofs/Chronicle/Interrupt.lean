import JobShell.Proofs.Chronicle.Accounting

/-!
# Interrupts

The handler of SIGINT reads the tracker: it sends the signal on to the foreground job, and without
one it ends the interpreter. The tracker is told of a job after the fork, and SIGINT is not held
back in between.

* `Handler.Aims`: what a handler that has read the tracker has found there.
* `Aimed`: the tracker has not changed under such a handler.
* `interrupt_of_run`: what becomes of SIGINT while a foreground job is live.
* `leaves_before_note`: the interpreter ends although a foreground job has been forked.
-/

namespace JobShell

/-- A handler of SIGINT that is past its look at the tracker has found this foreground job. -/
def Handler.Aims (slot : Option Pid) : Handler → Prop
  | forwarding pid => slot = some pid
  | leaving => slot = none
  | _ => True

theorem Handler.Interrupts.aims {t : Tracker} {h h' : Handler} (hi : h.Interrupts t h') :
    h'.Aims t.foreground := by
  cases hi with
  | written => trivial
  | forwarding hf => exact hf
  | leaving hf => exact hf

/-- What handlers of SIGINT have found in the tracker is still there. -/
def Aimed (s : Shell) : Prop := ∀ h ∈ s.handlers, h.Aims s.tracker.foreground

namespace Aimed

variable {s : Shell} {c c' : Chronicle} {h : Handler} {rest : List Handler}

theorem start (handlers : Bool) (home : Option Bytes) :
    Aimed (Chronicle.start handlers home).shell :=
  nofun

/-- A line moves only while no handler runs. -/
theorem of_line (h0 : s.handlers = []) : Aimed s := by
  unfold Aimed
  rw [h0]
  exact nofun

theorem tail (ha : Aimed s) (hh : s.handlers = h :: rest) :
    ∀ h ∈ rest, h.Aims s.tracker.foreground :=
  fun k hk => ha k (hh ▸ List.mem_cons_of_mem h hk)

theorem step (ha : Aimed c.shell) (hs : c.Step c') : Aimed c'.shell := by
  cases hs with
  | quiet status kept h0 hq => exact of_line h0
  | hold h0 hp => exact of_line h0
  | fork h0 hp hpos hnew => exact of_line h0
  | note h0 hp => exact of_line h0
  | unhold h0 hp => exact of_line h0
  | await h0 hp hw => exact of_line h0
  | orphan h0 hp hw => exact of_line h0
  | clear h0 hp => exact of_line h0
  | linePass h0 hp hm => exact of_line h0
  | handlerPass hh hm =>
    refine List.forall_mem_cons.2 ⟨trivial, ?_⟩
    rw [hm.foreground_eq]
    exact ha.tail hh
  | handlerStart hh hf => exact List.forall_mem_cons.2 ⟨trivial, ha.tail hh⟩
  | handlerEnd hh hr => exact ha.tail hh
  | interrupt hh hi => exact List.forall_mem_cons.2 ⟨hi.aims, ha.tail hh⟩
  | take hn hd =>
    refine List.forall_mem_cons.2 ⟨?_, ha⟩
    unfold Shell.handlerOf
    split <;> trivial
  | discard hd => exact ha
  | told kept => exact ha
  | raise n => exact ha
  | finish hc he => exact ha

end Aimed

/-- What the tracker has as its foreground job while this one is live. -/
def JobRecord.slot (j : JobRecord) : Option Pid := if j.noted then some j.leader else none

theorem Kept.foreground_eq {c : Chronicle} (hk : Kept c) {j : JobRecord} (hj : j ∈ c.jobs)
    (hfg : j.background = false) (hlive : j.isLive) : c.shell.tracker.foreground = j.slot := by
  have hlaunch := (hk.booked.live j hj hlive).resolve_left
    fun hbg => Bool.false_ne_true (hfg.symm.trans hbg.1)
  have hslots := hk.controlled.slots
  unfold JobRecord.slot
  cases hst : c.shell.phase.standing with
  | fresh pid bg =>
    rw [hst] at hlaunch hslots
    rw [hlaunch.2.2]
    exact hslots
  | shielded pid =>
    rw [hst] at hlaunch hslots
    rw [hlaunch.2.2, hlaunch.1]
    exact hslots
  | awaited pid =>
    rw [hst] at hlaunch hslots
    rw [hlaunch.2.2, hlaunch.1]
    exact hslots
  | _ =>
    rw [hst] at hlaunch
    exact hlaunch.elim

theorem Shell.handlers_of_leave {s : Shell} (h : s.need = .leave) :
    ∃ rest, s.handlers = .leaving :: rest := by
  cases h ▸ s.asks_need with
  | leave hh => exact ⟨_, hh⟩

namespace Chronicle

variable {handlers : Bool} {home : Option Bytes} {evs : List Event} {c : Chronicle}

/-- While a foreground job is live of which the tracker has been told, every handler of SIGINT that
has read the tracker sends the signal on to its leader, and the interpreter does not end. Before the
tracker is told of it, SIGINT ends the interpreter. -/
theorem interrupt_of_run (h : (start handlers home).run evs = some c) {j : JobRecord}
    (hj : j ∈ c.jobs) (hfg : j.background = false) (hlive : j.isLive) :
    (∀ rest, c.shell.handlers = .interrupting :: rest →
      c.shell.need = .step { c.shell with
        handlers := (if j.noted then .forwarding j.leader else .leaving) :: rest }) ∧
    (∀ pid, .forwarding pid ∈ c.shell.handlers → j.noted ∧ pid = j.leader) ∧
    (c.shell.need = .leave → j.noted = false) := by
  obtain ⟨hk, ha⟩ := run_induction (P := fun c => Kept c ∧ Aimed c.shell)
    (fun _ _ ⟨hk, ha⟩ hs => ⟨hk.step hs, ha.step hs⟩)
    ⟨.start handlers home, .start handlers home⟩ h
  have hslot := hk.foreground_eq hj hfg hlive
  refine ⟨fun rest hh => ?_, fun pid hpid => ?_, fun hleave => ?_⟩
  · rw [Shell.need, hh]
    simp only [Shell.handlerNeed, hslot, JobRecord.slot]
    cases hn : j.noted <;> rfl
  · have haim : c.shell.tracker.foreground = some pid := ha _ hpid
    rw [hslot, JobRecord.slot] at haim
    cases hn : j.noted <;> simp [hn] at haim
    exact ⟨rfl, haim.symm⟩
  · obtain ⟨rest, hh⟩ := Shell.handlers_of_leave hleave
    have haim : c.shell.tracker.foreground = none := ha .leaving (hh ▸ List.mem_cons_self)
    rw [hslot, JobRecord.slot] at haim
    cases hn : j.noted <;> simp [hn] at haim
    rfl

/-- SIGINT comes while a foreground job is waited for. -/
def whileWaiting : List Event :=
  Event.launch [97] 6 ++ [.raised Signal.interrupt, .taken, .answered (.ok ())]

theorem run_whileWaiting :
    ((start true none).run whileWaiting).map (fun c => (c.shell.handlers, c.jobs)) =
      some ([.interrupting], [{ leader := 6, background := false, noted := true }]) := by
  decide +kernel

theorem interrupt_of_whileWaiting :
    ∃ c, (start true none).run whileWaiting = some c ∧
      c.shell.need = .step { c.shell with handlers := [.forwarding 6] } := by
  obtain ⟨c, hc, heq⟩ := Option.map_eq_some_iff.1 run_whileWaiting
  obtain ⟨hh, hjobs⟩ := Prod.mk.inj heq
  have hj : { leader := 6, background := false, noted := true } ∈ c.jobs :=
    hjobs ▸ List.mem_singleton_self _
  exact ⟨c, hc, (interrupt_of_run hc hj rfl rfl).1 [] hh⟩

/-- SIGINT comes right after the fork of a foreground job. -/
def afterFork : List Event :=
  [.line [97], .move, .forked 6, .raised Signal.interrupt, .taken, .answered (.ok ()), .move]

/-- The interpreter ends although a foreground job has been forked and not been collected: the
tracker has not been told of it. -/
theorem leaves_before_note :
    ∃ c j, (start true none).run afterFork = some c ∧ j ∈ c.jobs ∧ j.background = false ∧
      j.isLive ∧ c.shell.need = .leave := by
  have hrun : ((start true none).run afterFork).map (fun c => (c.shell.handlers, c.jobs)) =
      some ([.leaving], [{ leader := 6, background := false }]) := by
    decide +kernel
  obtain ⟨c, hc, heq⟩ := Option.map_eq_some_iff.1 hrun
  obtain ⟨hh, hjobs⟩ := Prod.mk.inj heq
  refine ⟨c, _, hc, hjobs ▸ List.mem_singleton_self _, rfl, rfl, ?_⟩
  rw [Shell.need, hh]
  rfl

end Chronicle

end JobShell
