import JobShell.Proofs.Isolation.Contents
import JobShell.Proofs.Isolation.Advance

/-!
# The leader opens its redirection first

* `Act.OpensFirst`: a program that opens a file before it does anything else of weight, and does
  nothing of weight if it may not; `Launch.opensFirst_leader` says so of the leader of a job.
* `World.Pending`: a process with such a program has not opened the file yet.
* `Machine.Meets.pends`: so it stays, with the mask it had, until the file is opened.
-/

namespace JobShell

/-- It opens nothing, starts nothing, executes nothing and keeps its mask. -/
def Doing.isIdle : Doing → Bool
  | called (.open ..) (.error _) => true
  | called c _ => c.isCalm || c.isPlain
  | exited _ | killed | interrupted .. => true
  | _ => false

theorem Doing.of_isIdle {c : Call} {reply : c.Reply} (h : (called c reply).isIdle) :
    (c.isCalm || c.isPlain) ∨
      ∃ path way bits e, called c reply = called (.open path way bits) (.error e) := by
  unfold isIdle at h
  split at h
  · rename_i path way bits e heq
    exact .inr ⟨path, way, bits, e, heq⟩
  · rename_i heq
    cases heq
    exact .inl h
  · exact .inr (by cases ‹called c reply = _›)
  · exact .inr (by cases ‹called c reply = _›)
  · exact .inr (by cases ‹called c reply = _›)
  · cases h

theorem Doing.isIdle_of_isCalm {c : Call} (hc : c.isCalm) (reply : c.Reply) :
    (called c reply).isIdle := by
  cases c <;> first | rfl | cases hc

/-- This file is opened before anything else of weight is done, and nothing else is opened. -/
inductive Act.OpensFirst (path : Bytes) (way : OpenMode) (bits : Nat) : Act → Prop where
  | calls {c : Call} {next : c.Reply → Act} (hc : c.isCalm)
      (h : ∀ reply, OpensFirst path way bits (next reply)) : OpensFirst path way bits (.call c next)
  | opens {next : Except Errno Nat → Act}
      (hok : ∀ fd, (next (.ok fd)).Only fun d => d.open? = none)
      (herror : ∀ e, (next (.error e)).Only (·.isIdle)) :
      OpensFirst path way bits (.call (.open path way bits) next)

namespace Launch

variable {env : List Bytes} {p : Pipeline} {r : Redirect} {f : LaunchFailure} {a : Act}

theorem idle_concluded (f : LaunchFailure) : (concluded (.error f)).Only (·.isIdle) :=
  .call (fun _ => rfl) nofun fun _ => .exit rfl

theorem Concludes.idle (h : Concludes f a) : a.Only (·.isIdle) := by
  induction h with
  | reports => exact idle_concluded f
  | @calls c next hc _ _ ih =>
    refine .call (Doing.isIdle_of_isCalm hc) ?_ ih
    rintro path args env rfl
    cases hc

theorem opensFirst_pipeline (hr : p.redirect = some r) (hname : 0 ∉ Bytes.ofString r.target) :
    (thenDo (pipeline env p) concluded).OpensFirst (Bytes.ofString r.target) (openMode r.kind)
      newFileBits := by
  have hopen (k : Except LaunchFailure Unit → Act) (hk : ∀ f, k (.error f) = concluded (.error f))
      (hok : k (.ok ()) = thenDo (stages env p.stages) concluded) :
      (thenDo (redirect r) k).OpensFirst (Bytes.ofString r.target) (openMode r.kind)
        newFileBits := by
    have honly (x : Except LaunchFailure Unit) : (k x).Only fun d => d.open? = none := by
      cases x with
      | error f =>
        rw [hk]
        exact (only_concluded f).mono fun _ h => h.opens
      | ok u =>
        rw [hok]
        exact only_stages env p.stages
    have htarget : targetName r = .ok (Bytes.ofString r.target) := if_neg hname
    unfold redirect
    rw [thenDo_bind, thenDo_mk_pure, htarget]
    dsimp only
    rw [thenDo_bind, thenDo_attempt, Prog.thenDo_call]
    refine .opens (fun fd => only_bound honly) fun e => ?_
    show (k (.error (.system e))).Only _
    rw [hk]
    exact idle_concluded _
  unfold pipeline
  rw [hr]
  dsimp only
  rw [thenDo_bind]
  exact hopen _ (fun _ => rfl) rfl

/-- The leader of a job with a redirection. -/
theorem opensFirst_leader (hr : p.redirect = some r) (hname : 0 ∉ Bytes.ofString r.target) :
    (leader env p).run.OpensFirst (Bytes.ofString r.target) (openMode r.kind) newFileBits := by
  unfold leader resetSignals
  rw [Prog.run_eq_thenDo]
  simp only [Prog.thenDo_bind]
  refine .calls rfl fun _ => .calls rfl fun _ => .calls rfl fun _ => .calls rfl fun _ =>
    .calls rfl fun _ => ?_
  rw [← Prog.run_eq_thenDo, run_report]
  exact opensFirst_pipeline hr hname

/-- The leader of a job whose redirection has no name that could be opened. -/
theorem idle_leader (hr : p.redirect = some r) (hname : 0 ∈ Bytes.ofString r.target) :
    (leader env p).run.Only (·.isIdle) :=
  (concludes_leader hr (if_pos hname)).idle

end Launch

namespace Doings

variable {ds : Doings} {d : Doing}

theorem then_none (ds : Doings) : ds.then none = ds := by
  unfold Doings.then
  split
  · rfl
  · exact List.append_nil ds

theorem subset_then (ds : Doings) (d? : Option Doing) : ds ⊆ ds.then d? := by
  unfold Doings.then
  split
  · exact List.Subset.refl ds
  · exact List.subset_append_left ds _

/-- Why a file is not opened by a process that is not killed: it has no name that could be opened,
or that is refused. -/
def Unopened (ds : Doings) (path : Bytes) : Prop :=
  0 ∈ path ∨ ∃ path way bits e, (path, way, bits, .error e) ∈ ds.opens

theorem Unopened.then {path : Bytes} (h : ds.Unopened path) (d? : Option Doing) :
    (ds.then d?).Unopened path := by
  refine h.imp_right ?_
  rintro ⟨path, way, bits, e, hmem⟩
  obtain ⟨d, hd, hopen⟩ := List.mem_filterMap.1 hmem
  exact ⟨path, way, bits, e, List.mem_filterMap.2 ⟨d, subset_then ds d? hd, hopen⟩⟩

theorem then_some (hlast : ds.any Doing.isLast = false) (d : Doing) :
    ds.then (some d) = ds ++ [d] := by
  unfold Doings.then
  rw [hlast]
  rfl

theorem any_isLast_then (hlast : ds.any Doing.isLast = false) (hd : ¬d.isLast) :
    (ds.then (some d)).any Doing.isLast = false := by
  rw [then_some hlast, List.any_append, hlast, Bool.false_or, List.any_cons, List.any_nil,
    Bool.or_false]
  exact Bool.eq_false_iff.2 hd

theorem of_any_isLast_then {d? : Option Doing} (h : (ds.then d?).any Doing.isLast = false) :
    ds.any Doing.isLast = false ∧ ∀ d, d? = some d → ¬d.isLast := by
  have hds : ds.any Doing.isLast = false := by
    rw [List.any_eq_false] at h ⊢
    exact fun d hd => h d (subset_then ds d? hd)
  refine ⟨hds, ?_⟩
  rintro d rfl
  rw [then_some hds] at h
  exact List.any_eq_false.1 h d (List.mem_append_right _ List.mem_cons_self)

end Doings

namespace World

variable {w w' w₁ : World} {p q : Process} {pid : Pid} {c : Call} {a : Act} {path : Bytes}
  {way : OpenMode} {bits : Nat} {ds : Doings}

/-! ## The mask -/

/-- A process keeps its mask while it lives. -/
def Masks (w w' : World) (pid : Pid) : Prop :=
  ∀ q', w'.process? pid = some q' → ∃ q, w.process? pid = some q ∧ q'.umask = q.umask

theorem Masks.refl (w : World) (pid : Pid) : w.Masks w pid := fun q hq => ⟨q, hq, rfl⟩

theorem Masks.trans (h : w.Masks w₁ pid) (h' : w₁.Masks w' pid) : w.Masks w' pid := by
  intro q' hq'
  obtain ⟨q₁, hq₁, heq₁⟩ := h' q' hq'
  obtain ⟨q, hq, heq⟩ := h q₁ hq₁
  exact ⟨q, hq, heq₁.trans heq⟩

theorem masks_same (h : w'.processes = w.processes) : w.Masks w' pid := by
  intro q' hq'
  unfold process? at hq'
  rw [h] at hq'
  exact ⟨q', hq', rfl⟩

theorem masks_setProcess (hsame : w₁.processes = w.processes) (hp : w.process? p.pid = some p)
    (hpid : q.pid = p.pid) (h : q.umask = p.umask) : w.Masks (w₁.setProcess q) pid := by
  intro q' hq'
  rw [process?_setProcess] at hq'
  split at hq'
  · rename_i heq
    obtain rfl := Option.some.inj hq'
    exact ⟨p, by rw [← heq, hpid]; exact hp, h⟩
  · exact masks_same hsame q' hq'

theorem masks_modifyProcess (hk : w.Keyed) (r : Pid) {f : Process → Process}
    (hf : ∀ q, (f q).pid = q.pid ∧ (f q).umask = q.umask) : w.Masks (w.modifyProcess r f) pid := by
  unfold modifyProcess
  split
  · rename_i p hp
    obtain rfl := hk.pid_eq hp
    exact masks_setProcess rfl hp (hf p).1 (hf p).2
  · exact .refl w pid

theorem masks_of_own? (h : w'.own? pid = w.own? pid) : w.Masks w' pid := by
  intro q' hq'
  obtain ⟨q, hq, heq⟩ := exists_of_own?_eq h hq'
  have hmask := congrArg (fun o : Process => o.umask) heq
  exact ⟨q, hq, hmask⟩

theorem masks_finish (hk : w.Keyed) (e : Ending) : w.Masks (w.finish pid e) pid := by
  intro q' hq'
  have hgone := grip?_finish hk pid e pid
  rw [if_pos rfl, grip?, hq'] at hgone
  cases hgone

theorem masks_takeSignal (hk : w.Keyed) (hp : w.process? pid = some p) (n : Nat) :
    w.Masks (w.takeSignal p n) pid := by
  obtain rfl := hk.pid_eq hp
  rcases w.takeSignal_cases p n with ⟨_, _, _, h⟩ | ⟨-, -, h⟩
  · rw [h]
    exact masks_setProcess rfl hp rfl rfl
  · rw [h]
    refine Masks.trans ?_ (masks_finish (keyed_setProcess hk _) _)
    exact masks_setProcess rfl hp rfl rfl

theorem masks_takeSignals (hk : w.Keyed) (n : Nat) (pid : Pid) :
    w.Masks (w.takeSignals n pid) pid :=
  takeSignals_induction (motive := fun w w' => w.Keyed → w.Masks w' pid)
    (fun w _ => .refl w pid)
    (fun _ _ p s hp _ ih hk =>
      (masks_takeSignal hk hp s).trans (ih ((leaves_takeSignal hk p s).keyed hk))) n w hk

section

variable (hk : w.Keyed) (hp : w.process? p.pid = some p)
include hk hp

theorem Effect.keepsMask (h : w.Effect p c w') (hc : c.isCalm || c.isPlain) :
    w.Masks w' p.pid := by
  cases h with
  | same => exact .refl w _
  | changes hfiling => cases c <;> cases hc <;> cases hfiling
  | joins | closes | repeats | disposes | unblocks => exact masks_setProcess rfl hp rfl rfl
  | moves hq =>
    obtain rfl := hk.pid_eq hq
    exact masks_setProcess rfl hq rfl rfl
  | writes | fills => exact masks_same rfl
  | breaks => exact masks_modifyProcess hk _ fun _ => ⟨rfl, rfl⟩
  | _ => cases hc

/-- A process that does nothing of weight, or is not let open a file. -/
theorem Advances.masks {d : Option Doing} (h : w.Advances p d w')
    (hd : ∀ e, d = some e → e.isIdle) : w.Masks w' p.pid := by
  have hgoes {w₁ : World} (hk₁ : w₁.Keyed) (h : w.Masks w₁ p.pid) {f : Process → Process}
      (hf : ∀ q, (f q).pid = q.pid ∧ (f q).umask = q.umask) :
      w.Masks (w₁.modifyProcess p.pid f) p.pid := h.trans (masks_modifyProcess hk₁ p.pid hf)
  have hwait {w₁ : World} (hw : w₁ = w ∨ ∃ wake, w₁ = w.setProcess { p with wake }) :
      w₁.Keyed ∧ w.Masks w₁ p.pid := by
    rcases hw with rfl | ⟨wake, rfl⟩
    · exact ⟨hk, .refl w₁ _⟩
    · exact ⟨keyed_setProcess hk _, masks_setProcess rfl hp rfl rfl⟩
  cases h with
  | idles | lingers => exact .refl w _
  | exits => exact masks_finish hk _
  | quits _ h =>
    have heffect := effect_of_done h
    exact (Effect.keepsMask hk hp heffect rfl).trans (masks_finish ((heffect.leaves hk).keyed hk) _)
  | forks | executes => cases hd _ rfl
  | @calls c next reply w₁ _ hperform =>
    have heffect := effect_of_done hperform
    refine hgoes ((heffect.leaves hk).keyed hk) ?_ fun _ => ⟨rfl, rfl⟩
    obtain hidle | ⟨path, way, bits, e, heq⟩ := Doing.of_isIdle (hd _ rfl)
    · exact Effect.keepsMask hk hp heffect hidle
    · cases heq
      have hopen : w.open_ p path way bits = (w₁, .error e) :=
        Prod.ext (Outcome.done.inj hperform).1 (Outcome.done.inj hperform).2
      rw [open_error hopen]
      exact .refl w _
  | waits _ _ hw => exact (hwait hw).2
  | breaks _ _ hw => exact hgoes (hwait hw).1 (hwait hw).2 fun _ => ⟨rfl, rfl⟩

end

theorem masks_step (hk : w.Keyed) (hd : ∀ d, w.doing? pid = some d → d.isIdle) :
    w.Masks (w.step pid).1 pid := by
  have hsignals := masks_takeSignals hk signalCount pid
  rcases w.doing?_cases pid with ⟨hstep, -⟩ | ⟨p, hp, hstep, hdoes⟩
  · rw [hstep]
    exact hsignals
  · have hkeyed := (leaves_takeSignals hk signalCount pid).keyed hk
    obtain rfl := hkeyed.pid_eq hp
    rw [hstep]
    rw [hdoes] at hd
    exact hsignals.trans (Advances.masks hkeyed hp (World.advances _ p) hd)

/-! ## Before the file is opened -/

/-- A process that has done this has not opened its file. -/
inductive Pending (w : World) (pid : Pid) (path : Bytes) (way : OpenMode) (bits : Nat)
    (ds : Doings) : Prop where
  | waits {a : Act} (h : w.program? pid = some a) (ha : a.OpensFirst path way bits)
      (hlast : ds.any Doing.isLast = false)
  | fails {a : Act} (h : w.program? pid = some a) (ha : a.Only (·.isIdle))
      (hlast : ds.any Doing.isLast = false) (hwhy : ds.Unopened path)
  | gone (h : w.process? pid = none) (hwhy : ds.Unopened path ∨ ds.any Doing.isCutShort)

/-- The process opens its file. -/
structure Opens (w' : World) (pid : Pid) (path : Bytes) (way : OpenMode) (bits : Nat)
    (d? : Option Doing) : Prop where
  doing : ∃ fd, d? = some (.called (.open path way bits) (.ok fd))
  later : ∃ a, w'.program? pid = some a ∧ a.Only fun d => d.open? = none

variable {d : Doing} {d? : Option Doing} {o : Option Act}

/-- What a process does next is of this kind. -/
theorem does_of_only {P : Doing → Prop} (ha : a.Only P) (hkilled : P .killed) (hd : a.Does d o) :
    P d := by
  cases o with
  | none => exact ha.of_path (.ends hd) hkilled d List.mem_cons_self
  | some b => exact ha.of_path (.goes hd (.start b)) hkilled d List.mem_cons_self

theorem isIdle_of_some {d d' : Doing} (h : d.isIdle) (hd : some d = some d') : d'.isIdle :=
  Option.some.inj hd ▸ h

/-- A process that opens a file next opens it, waits still, or may not. -/
theorem Pending.of_opensFirst {a : Act} (ht : w'.Takes pid a d?)
    (ha : a.OpensFirst path way bits) (hlast : ds.any Doing.isLast = false) :
    w'.Opens pid path way bits d? ∨
      w'.Pending pid path way bits (ds.then d?) ∧ ∀ d, d? = some d → d.isIdle := by
  have hcut {d : Doing} (hd : d.isCutShort) : (ds.then (some d)).any Doing.isCutShort := by
    rw [Doings.then_some hlast]
    exact List.any_eq_true.2 ⟨d, List.mem_append_right _ List.mem_cons_self, hd⟩
  cases ht with
  | waits h' =>
    rw [Doings.then_none]
    exact .inr ⟨.waits h' ha hlast, nofun⟩
  | @goes b d hd h' =>
    have hgoes := Doings.any_isLast_then hlast (hd.isLast_iff.not.2 nofun)
    cases ha with
    | @calls c next hc hnext =>
      cases hd with
      | calls reply =>
        exact .inr ⟨.waits h' (hnext reply) hgoes,
          fun _ => isIdle_of_some (Doing.isIdle_of_isCalm hc reply)⟩
    | @opens next hok herror =>
      cases hd with
      | calls reply =>
        cases reply with
        | ok fd => exact .inl ⟨⟨fd, rfl⟩, _, h', hok fd⟩
        | error e =>
          refine .inr ⟨.fails h' (herror e) hgoes (.inr ⟨path, way, bits, e, ?_⟩),
            fun _ => isIdle_of_some rfl⟩
          rw [Doings.then_some hlast]
          exact List.mem_filterMap.2 ⟨_, List.mem_append_right _ List.mem_cons_self, rfl⟩
  | ends hd h' =>
    cases hd with
    | executes => cases ha with | calls hc => cases hc
    | exits => cases ha
    | dies => exact .inr ⟨.gone (h' rfl) (.inr (hcut rfl)), fun _ => isIdle_of_some rfl⟩
  | quits h' => exact .inr ⟨.gone h' (.inr (hcut rfl)), fun _ => isIdle_of_some rfl⟩

/-- A process that could not open its file does nothing of weight any more. -/
theorem Pending.of_unopened {a : Act} (ht : w'.Takes pid a d?) (ha : a.Only (·.isIdle))
    (hlast : ds.any Doing.isLast = false) (hwhy : ds.Unopened path) :
    w'.Pending pid path way bits (ds.then d?) ∧ ∀ d, d? = some d → d.isIdle := by
  cases ht with
  | waits h' =>
    rw [Doings.then_none]
    exact ⟨.fails h' ha hlast hwhy, nofun⟩
  | @goes b d hd h' =>
    have hgoes := Doings.any_isLast_then hlast (hd.isLast_iff.not.2 nofun)
    exact ⟨.fails h' (ha.of_does hd) hgoes (hwhy.then _),
      fun _ => isIdle_of_some (does_of_only ha rfl hd)⟩
  | ends hd h' =>
    have hidled := does_of_only ha rfl hd
    refine ⟨.gone (h' ?_) (.inl (hwhy.then _)), fun _ => isIdle_of_some hidled⟩
    cases hd with
    | executes => cases hidled
    | exits | dies => rfl
  | quits h' => exact ⟨.gone h' (.inl (hwhy.then _)), fun _ => isIdle_of_some rfl⟩

/-- So it stays, unless the process opens its file. -/
theorem Pending.takes (h : w.Pending pid path way bits ds)
    (ht : ∀ a, w.program? pid = some a → w'.Takes pid a d?)
    (hgone : w.process? pid = none → w'.process? pid = none ∧ d? = none) :
    w'.Opens pid path way bits d? ∨
      w'.Pending pid path way bits (ds.then d?) ∧ ∀ d, d? = some d → d.isIdle := by
  cases h with
  | @waits a h ha hlast => exact Pending.of_opensFirst (ht a h) ha hlast
  | @fails a h ha hlast hwhy => exact .inr (Pending.of_unopened (ht a h) ha hlast hwhy)
  | gone h hwhy =>
    obtain ⟨hnone, rfl⟩ := hgone h
    rw [Doings.then_none]
    exact .inr ⟨.gone hnone hwhy, nofun⟩

end World

namespace Machine

variable {m m' m₁ : Machine} {i : Incident} {is : List Incident} {pid : Pid} {path : Bytes}
  {way : OpenMode} {bits mask : Nat} {ds : Doings}

/-! ## Incidents -/

/-- The open file that a process is given at an incident. -/
def opens? (m : Machine) (pid : Pid) (i : Incident) : Option Nat :=
  match m.doing? pid i with
  | some (.called (.open ..) (.ok _)) => some m.world.nextFile
  | _ => none

/-- The open file that a process is given first in the course of some incidents. -/
def opened? (m : Machine) (pid : Pid) : List Incident → Option Nat
  | [] => none
  | i :: rest => (m.opens? pid i).or ((m.meet? i).bind (opened? · pid rest))

theorem opened?_concat (pid : Pid) (i : Incident) (h : m.meets? is = some m₁) :
    m.opened? pid (is ++ [i]) = (m.opened? pid is).or (m₁.opens? pid i) := by
  induction is generalizing m with
  | nil =>
    obtain rfl := Option.some.inj h
    have hlater : (m.meet? i).bind (opened? · pid []) = none := by
      cases m.meet? i <;> rfl
    show (m.opens? pid i).or _ = _
    rw [hlater, Option.or_none]
    rfl
  | cons j rest ih =>
    obtain ⟨m₂, hfirst, hrest⟩ := Option.bind_eq_some_iff.1 h
    rw [List.cons_append, opened?, opened?, hfirst, Option.bind_some, Option.bind_some, ih hrest,
      Option.or_assoc]

/-- A process with this mask has not opened its file. -/
structure Pends (m : Machine) (pid : Pid) (path : Bytes) (way : OpenMode) (bits mask : Nat)
    (ds : Doings) : Prop where
  pending : m.world.Pending pid path way bits ds
  mask : ∀ q, m.world.process? pid = some q → q.umask = mask

/-- A process keeps its mask while it does nothing of weight. -/
theorem Meets.masks (hm : m.Meets i m') (hn : m.Numbered) (hpid : pid ≠ m.pid)
    (hknown : pid < m.world.nextPid) (hd : ∀ d, m.doing? pid i = some d → d.isIdle) :
    m.world.Masks m'.world pid := by
  by_cases hturn : i = .happens (.turn pid)
  · subst hturn
    have hsame : m.doing? pid (.happens (.turn pid)) = m.world.doing? pid := if_pos rfl
    rw [hsame] at hd
    cases hm with
    | happens hm => cases hm with | turn => exact World.masks_step hn.keyed hd
  by_cases hdenied : ∃ e, i = .denied pid e
  · obtain ⟨e, rfl⟩ := hdenied
    cases hm with
    | denied hq hdenied =>
      obtain ⟨p, a, b, hp, -, -, rfl⟩ := World.denied?_eq_some hdenied
      obtain rfl := hn.keyed.pid_eq hp
      exact World.masks_setProcess rfl hp rfl rfl
  · exact World.masks_of_own? (hm.own hn hpid hknown hturn fun e h => hdenied ⟨e, h⟩)

/-- So it stays, unless the process is given an open file. -/
theorem Meets.pends (hm : m.Meets i m') (hn : m.Numbered) (hpid : pid ≠ m.pid)
    (hknown : pid < m.world.nextPid) (h : m.Pends pid path way bits mask ds) :
    m'.world.Opens pid path way bits (m.doing? pid i) ∧ m.opens? pid i = some m.world.nextFile ∨
      m'.Pends pid path way bits mask (ds.then (m.doing? pid i)) ∧ m.opens? pid i = none := by
  have hgone (hnone : m.world.process? pid = none) :
      m'.world.process? pid = none ∧ m.doing? pid i = none :=
    ⟨hm.gone hn hpid hknown hnone, doing?_of_none hnone i⟩
  rcases h.pending.takes (fun _ => hm.takes hn hpid hknown) hgone with
    hopens | ⟨hpending, hidle⟩
  · obtain ⟨fd, hd⟩ := hopens.doing
    refine .inl ⟨hopens, ?_⟩
    unfold opens?
    rw [hd]
  · refine .inr ⟨⟨hpending, fun q' hq' => ?_⟩, ?_⟩
    · obtain ⟨q, hq, heq⟩ := hm.masks hn hpid hknown hidle q' hq'
      exact heq.trans (h.mask q hq)
    · unfold opens?
      split
      · rename_i hd
        cases hidle _ hd
      · rfl

/-- How far the leader of a job with this redirection has come with it. -/
structure Directed (m : Machine) (r : Redirect) (mask : Nat) (leader : Pid) (is : List Incident)
    (m' : Machine) : Prop where
  pends : m.opened? leader is = none →
    m'.Pends leader (Bytes.ofString r.target) (Launch.openMode r.kind) Launch.newFileBits mask
      (m.doings leader is)
  /-- It opens nothing else. -/
  later : m.opened? leader is ≠ none → (m.doings leader is).any Doing.isLast = false →
    ∃ a, m'.world.program? leader = some a ∧ a.Only fun d => d.open? = none

variable {pipeline : Pipeline} {leader : Pid} {r : Redirect}

theorem Launched.directed (hl : Launched pipeline leader [] m) (hr : pipeline.redirect = some r)
    (hmask : ∀ q, m.world.process? leader = some q → q.umask = mask)
    (h : m.meets? is = some m') : m.Directed r mask leader is m' := by
  have hstart : m.Directed r mask leader [] m := by
    refine ⟨fun _ => ⟨?_, hmask⟩, fun hopened => absurd rfl hopened⟩
    have hpath := hl.travels
    cases hpath with
    | going hpath h =>
      cases hpath
      by_cases hname : 0 ∈ Bytes.ofString r.target
      · exact .fails h (Launch.idle_leader hr hname) rfl (.inl hname)
      · exact .waits h (Launch.opensFirst_leader hr hname) rfl
    | finished hpath => cases hpath
    | left _ hds => cases List.append_eq_nil_iff.1 hds.symm |>.2
  refine meets?_induction (P := fun is m' => m.Directed r mask leader is m') hstart ?_ h
  intro is i m₁ m₂ hpre hdirected hm
  have hr₁ := hl.runs.course hpre
  have hn := hr₁.kindred.toNumbered
  have hmeets := meets_of_meet? hn.keyed hm
  have hopened := opened?_concat leader i hpre
  have hdoings := doings_concat leader i hpre
  cases hbefore : m.opened? leader is with
  | none =>
    rw [hbefore, Option.none_or] at hopened
    have hpends := hdirected.pends hbefore
    rcases hmeets.pends hn hr₁.other hr₁.known hpends with ⟨hopens, hid⟩ | ⟨h, hid⟩
    · refine ⟨fun hnone => ?_, fun _ _ => hopens.later⟩
      cases (hopened.trans hid).symm.trans hnone
    · refine ⟨fun _ => hdoings ▸ h, fun hsome => absurd (hopened.trans hid) hsome⟩
  | some id =>
    rw [hbefore, Option.some_or] at hopened
    refine ⟨fun hnone => (nomatch hopened.symm.trans hnone), fun _ hlast => ?_⟩
    rw [hdoings] at hlast
    obtain ⟨hgoes, hd⟩ := Doings.of_any_isLast_then hlast
    have hsome : m.opened? leader is ≠ none := by
      rw [hbefore]
      exact Option.some_ne_none id
    obtain ⟨a, ha, honly⟩ := hdirected.later hsome hgoes
    have htakes := hmeets.takes hn hr₁.other hr₁.known ha
    generalize m₁.doing? leader i = d? at htakes hd
    cases htakes with
    | waits h => exact ⟨a, h, honly⟩
    | goes hdoes h => exact ⟨_, h, honly.of_does hdoes⟩
    | ends hdoes => exact absurd (hdoes.isLast_iff.2 rfl) (hd _ rfl)
    | quits => exact absurd rfl (hd _ rfl)

/-- What has been opened once is not followed by anything else. -/
theorem Directed.opens?_eq_none {m₂ : Machine} {a : Act}
    (hdirected : m.Directed r mask leader is m₁) (hr₁ : m₁.Runs leader a ds) (hm : m₁.Meets i m₂)
    (hopened : m.opened? leader is ≠ none)
    (hlast : (m.doings leader is).any Doing.isLast = false) : m₁.opens? leader i = none := by
  obtain ⟨b, hb, honly⟩ := hdirected.later hopened hlast
  have htakes := hm.takes hr₁.kindred.toNumbered hr₁.other hr₁.known hb
  have hnone {d : Doing} {o : Option Act} (hdoes : b.Does d o) : d.open? = none :=
    World.does_of_only honly rfl hdoes
  unfold opens?
  split
  · rename_i hd
    rw [hd] at htakes
    cases htakes with
    | goes hdoes | ends hdoes => cases hnone hdoes
  · rfl

end Machine

end JobShell
