import JobShell.Proofs.Isolation.Own
import JobShell.Proofs.Wiring.Moves

/-!
# What calls do to others

A call of a process changes that process and the files. What other processes have to themselves is
left, and the caller goes on with its program and its signals as before, unless it asks for
something else.

* `World.Confined`: the world after such a call.
* `World.Effect.leavesAll_or`: what a call does to what processes have to themselves.
* `confined_perform`, `leaves_perform`: what that means for the caller and for others.
* `untouched_step`: a step of a process leaves the others what is their own.
-/

namespace JobShell

/-- What decides what a process does next and how it takes signals. -/
def Process.poise (p : Process) : Option Act × Signals × List Nat :=
  (p.program, p.signals.settings, p.caught)

theorem Process.poise_congr {p q : Process} (h : p.own = q.own) : p.poise = q.poise :=
  congrArg (fun o : Process => (o.program, o.signals, o.caught)) h

/-- The call concerns neither the signals of the process nor its program. -/
def Call.isPlacid : Call → Bool
  | .dispose .. | .unblock _ | .caught | .exec .. => false
  | _ => true

/-- The call leaves the process what it has to itself. -/
def Call.isOutward : Call → Bool
  | «open» .. | close _ | pipe | copyAbove .. | dup2 .. | chdir _ | umask _ | wait .. | dispose .. |
    unblock _ | caught | sleep _ | exec .. => false
  | _ => true

namespace World

/-- After a call of `p`: what the others have to themselves is left, and `p` goes on as before. -/
structure Confined (w w' : World) (p : Process) : Prop where
  leaves : w.Leaves w' (· ≠ p.pid)
  self : ∃ q, w'.process? p.pid = some q ∧ q.poise = p.poise

variable {w w' : World} {p q : Process} {pid : Pid}

theorem Leaves.confined (h : w.LeavesAll w') (hp : w.process? p.pid = some p) :
    w.Confined w' p := by
  refine ⟨h.mono fun _ _ => trivial, ?_⟩
  have hown := (h.own p.pid trivial).trans (own?_eq_some hp)
  obtain ⟨q, hq, heq⟩ := Option.map_eq_some_iff.1 hown
  exact ⟨q, hq, Process.poise_congr heq⟩

theorem confined_setProcess (hpid : q.pid = p.pid) (hq : q.poise = p.poise) :
    w.Confined (w.setProcess q) p :=
  ⟨leaves_setProcess w hpid, q, by rw [process?_setProcess, if_pos hpid], hq⟩

theorem confined_trans (h : w.LeavesAll w') (hpid : q.pid = p.pid) (hq : q.poise = p.poise) :
    w.Confined (w'.setProcess q) p :=
  have h' := confined_setProcess (w := w') hpid hq
  ⟨(h.mono fun _ _ => trivial).trans h'.leaves, h'.self⟩

/-! ## Files -/

theorem leavesAll_tree (w : World) (tree : FileTree) : w.LeavesAll { w with tree } :=
  ⟨⟨id, fun _ _ => rfl, Nat.le_refl _, Int.le_refl _⟩, fun _ _ => rfl, rfl⟩

theorem leavesAll_pipes (w : World) (pipes : Std.TreeMap Nat Bytes) (nextPipe : Nat) :
    w.LeavesAll { w with pipes, nextPipe } :=
  ⟨⟨id, fun _ _ => rfl, Nat.le_refl _, Int.le_refl _⟩, fun _ _ => rfl, rfl⟩

theorem leavesAll_clock (w : World) (clock : Nat) : w.LeavesAll { w with clock } :=
  ⟨⟨id, fun _ _ => rfl, Nat.le_refl _, Int.le_refl _⟩, fun _ _ => rfl, rfl⟩

theorem leavesAll_addFile (w : World) (f : OpenFile) : w.LeavesAll (w.addFile f).2 where
  keyed := id
  objects m hm := by rw [object?_addFile, if_neg (Nat.ne_of_gt hm)]
  nextFile := Nat.le_succ _
  nextPid := Int.le_refl _
  own _ _ := rfl
  nextPid_eq := rfl

theorem leavesAll_addPipe (w : World) : w.LeavesAll w.addPipe.2.2 := by
  have h := leavesAll_pipes w (w.pipes.insert w.nextPipe []) (w.nextPipe + 1)
  exact h.trans ((leavesAll_addFile _ _).trans (leavesAll_addFile _ _))

/-- An open file of a process gets another offset. -/
theorem leavesAll_offset {fd id : Nat} {f : OpenFile} (hf : w.openFile? p fd = some (id, f))
    (tree : FileTree) (offset : Nat) :
    w.LeavesAll ({ w with tree }.setFile id { f with offset }) := by
  have hkeeps := keepsAll_offset hf tree offset
  exact ⟨⟨fun hk => hk.of_keepsAll hkeeps, fun m _ => hkeeps.objects m, Nat.le_refl _,
    Int.le_refl _⟩, fun _ _ => rfl, rfl⟩

/-! ## Calls -/

/-- A call leaves all processes what is their own, but that the caller may be changed in the end. It
is not given another farewell then. -/
theorem Effect.leavesAll_or {c : Call} (h : w.Effect p c w') (hk : w.Keyed) :
    ∃ w₁, w.LeavesAll w₁ ∧ (w' = w₁ ∨ ∃ q, w' = w₁.setProcess q ∧ q.pid = p.pid ∧
      c.isOutward = false ∧ (c.isPlacid → q.poise = p.poise) ∧
      (q.farewell = p.farewell ∨ q.farewell = none)) := by
  cases h with
  | same => exact ⟨w, .refl w _, .inl rfl⟩
  | changes _ tree => exact ⟨_, leavesAll_tree w tree, .inl rfl⟩
  | drains _ _ pipes | fills _ _ pipes =>
    exact ⟨_, leavesAll_pipes w pipes w.nextPipe, .inl rfl⟩
  | reads hf offset | seeks hf offset => exact ⟨_, leavesAll_offset hf w.tree offset, .inl rfl⟩
  | writes hf tree offset => exact ⟨_, leavesAll_offset hf tree offset, .inl rfl⟩
  | breaks => exact ⟨_, leavesAll_raise hk _ _, .inl rfl⟩
  | sends _ signal pids => exact ⟨_, leavesAll_foldl_raise pids signal hk, .inl rfl⟩
  | moves hq =>
    refine ⟨_, leavesAll_update hk hq ?_, .inl rfl⟩
    rfl
  | @opens _ _ _ tree =>
    unfold install
    split
    · exact ⟨_, leavesAll_tree w tree, .inl rfl⟩
    · exact ⟨_, (leavesAll_tree w tree).trans (leavesAll_addFile _ _),
        .inr ⟨_, rfl, rfl, rfl, fun _ => rfl, .inl rfl⟩⟩
  | joins => exact ⟨_, leavesAll_addPipe w, .inr ⟨_, rfl, rfl, rfl, fun _ => rfl, .inl rfl⟩⟩
  | closes | copies | repeats | stands | masks | collects | sleeps =>
    exact ⟨w, .refl w _, .inr ⟨_, rfl, rfl, rfl, fun _ => rfl, .inl rfl⟩⟩
  | unblocks | catches => exact ⟨w, .refl w _, .inr ⟨_, rfl, rfl, rfl, nofun, .inl rfl⟩⟩
  | executes => exact ⟨w, .refl w _, .inr ⟨_, rfl, rfl, rfl, nofun, .inr rfl⟩⟩
  | disposes =>
    refine ⟨w, .refl w _, .inr ⟨_, rfl, rfl, rfl, nofun, ?_⟩⟩
    dsimp only
    split
    · exact .inr rfl
    · exact .inl rfl

theorem Effect.leavesAll {c : Call} (h : w.Effect p c w') (hk : w.Keyed) (hc : c.isOutward) :
    w.LeavesAll w' := by
  obtain ⟨w₁, hleaves, rfl | ⟨q, -, -, hinward, -⟩⟩ := h.leavesAll_or hk
  · exact hleaves
  · rw [hc] at hinward
    cases hinward

theorem Effect.confined {c : Call} (h : w.Effect p c w') (hk : w.Keyed)
    (hp : w.process? p.pid = some p) (hc : c.isPlacid) : w.Confined w' p := by
  obtain ⟨w₁, hleaves, rfl | ⟨q, rfl, hpid, -, hpoise, -⟩⟩ := h.leavesAll_or hk
  · exact hleaves.confined hp
  · exact confined_trans hleaves hpid (hpoise hc)

theorem confined_perform (hk : w.Keyed) (hp : w.process? p.pid = some p) {c : Call}
    (hc : c.isPlacid) : (w.perform p c).All (w.Confined · p) :=
  (w.effect_perform p c).imp fun _ h => h.confined hk hp hc

theorem Effect.leaves {c : Call} (h : w.Effect p c w') (hk : w.Keyed) :
    w.Leaves w' (· ≠ p.pid) := by
  obtain ⟨w₁, hleaves, rfl | ⟨q, rfl, hpid, -⟩⟩ := h.leavesAll_or hk
  · exact hleaves.mono fun _ _ => trivial
  · exact (hleaves.mono fun _ _ => trivial).trans (leaves_setProcess w₁ hpid)

/-- A call leaves the others what is their own. -/
theorem leaves_perform (hk : w.Keyed) (p : Process) (c : Call) :
    (w.perform p c).All (w.Leaves · (· ≠ p.pid)) :=
  (w.effect_perform p c).imp fun _ h => h.leaves hk

/-! ## Steps -/

theorem leaves_quit (hk : w.Keyed) (p : Process) (text : Bytes) :
    w.Leaves (w.quit p text).1 (· ≠ p.pid) := by
  rcases w.quit_cases p text with ⟨w', r, hwrite, h⟩ | ⟨-, h⟩
  · have hleaves : w.Leaves w' (· ≠ p.pid) :=
      (effect_of_done (c := .write 1 text) hwrite).leaves hk
    rw [h]
    exact hleaves.trans (leaves_finish (hleaves.keyed hk) p.pid _)
  · rw [h]
    exact .refl w _

/-- A call of a process with its program, but for a fork. -/
theorem leaves_due {a : Act} (hk : w.Keyed) (hdue : p.due? = some a)
    (hfork : ∀ child next, a ≠ .fork child next) : w.Leaves (w.advance p).1 (· ≠ p.pid) := by
  have hgoes {w' : World} (h : w.Leaves w' (· ≠ p.pid)) {f : Process → Process}
      (hf : ∀ q, (f q).pid = q.pid) : w.Leaves (w'.modifyProcess p.pid f) (· ≠ p.pid) :=
    h.trans (leaves_modifyProcess (h.keyed hk) p.pid hf)
  cases a with
  | exit code =>
    rw [advance_exit hdue]
    exact leaves_finish hk p.pid _
  | fork child next => exact absurd rfl (hfork child next)
  | call c next =>
    have h := leaves_perform hk p c
    cases hperform : w.perform p c with
    | done w' reply =>
      rw [hperform] at h
      rw [advance_done hdue hperform]
      exact hgoes h fun _ => rfl
    | become w' =>
      rw [hperform] at h
      rw [advance_become hdue hperform]
      exact h
    | wait w' =>
      rw [hperform] at h
      rcases advance_wait hdue hperform with heq | ⟨reply, heq⟩
      · rw [heq]
        exact h
      · rw [heq]
        exact hgoes h fun _ => rfl

theorem leaves_advance (hk : w.Keyed)
    (hfork : ∀ child next, p.due? ≠ some (.fork child next)) :
    w.Leaves (w.advance p).1 (· ≠ p.pid) := by
  cases hf : p.farewell? with
  | some text =>
    rw [advance_of_farewell? hf]
    exact leaves_quit hk p text
  | none =>
    cases hdue : p.due? with
    | some a => exact leaves_due hk hdue fun child next heq => hfork child next (heq ▸ hdue)
    | none =>
      rw [advance_of_idle hf ((Process.due?_of_none hf).symm.trans hdue)]
      exact .refl w _

theorem untouched_advance (hk : w.Keyed) {r : Pid} (hr : r ≠ p.pid) (hnew : r ≠ w.nextPid) :
    w.Untouched (w.advance p).1 r := by
  by_cases hfork : ∃ child next, p.due? = some (.fork child next)
  · obtain ⟨child, next, hdue⟩ := hfork
    have h := untouched_fork hk p child hnew
    rw [advance_fork hdue]
    have hgoes := leaves_modifyProcess (h.keyed hk) p.pid
      (f := fun q => { q with program := some (next (.ok w.nextPid)) }) fun _ => rfl
    exact h.trans (hgoes.untouched hr)
  · exact (leaves_advance hk fun child next h => hfork ⟨child, next, h⟩).untouched hr

/-- A step of a process leaves the others what is their own. -/
theorem untouched_step (hk : w.Keyed) {r : Pid} (hr : r ≠ pid) (hnew : r < w.nextPid) :
    w.Untouched (w.step pid).1 r := by
  have h := leaves_takeSignals hk signalCount pid
  have hkeyed := h.keyed hk
  unfold step
  dsimp only
  split
  · exact h.untouched hr
  · rename_i p hp
    split
    · exact h.untouched hr
    · obtain rfl := hkeyed.pid_eq hp
      refine (h.untouched hr).trans (untouched_advance hkeyed hr ?_)
      rw [h.nextPid_eq]
      exact Int.ne_of_lt hnew

end World

end JobShell
