import JobShell.System.Schedule
import JobShell.Proofs.Wiring.Bindings

/-!
# What processes hold

What a call does to descriptor tables, with everything else about processes left out.

* `Process.grip`: the program of a process and its descriptors.
* `World.grip?`, `World.object?`: the grip of a process, and what an open file refers to.
* `World.Keeps`: from one world to another, open files refer to what they did and some of the
  processes keep their grips. Most of what the system does is of this kind.
* `World.Adds`: the same, but for new open files and pipes.
* `World.Sound`: numbers of processes, open files and pipes that are used have been given.
-/

namespace JobShell

/-- What a process holds, and what it is going to do with it. -/
structure Grip where
  pid : Pid
  program : Option Act
  bindings : Bindings
  tidy : Bool := true

def Process.grip (p : Process) : Grip :=
  { pid := p.pid, program := p.program, bindings := p.bindings, tidy := p.tidy }

/-- The pipe an object is an end of. -/
def Object.pipe? : Object → Option Nat
  | readEnd n | writeEnd n => some n
  | inode _ | text _ => none

namespace World

def grip? (w : World) (pid : Pid) : Option Grip := (w.process? pid).map Process.grip

/-- What an open file refers to. -/
def object? (w : World) (id : Nat) : Option Object := (w.file? id).map OpenFile.object

/-- Processes are found under their own numbers. -/
def Keyed (w : World) : Prop := ∀ pid g, w.grip? pid = some g → g.pid = pid

/-- Open files refer to what they did, no numbers are given, and the processes in `who` keep their
grips. -/
structure Keeps (w w' : World) (who : Pid → Prop) : Prop where
  grips : ∀ q, who q → w'.grip? q = w.grip? q
  objects : ∀ id, w'.object? id = w.object? id
  nextFile : w'.nextFile = w.nextFile
  nextPipe : w'.nextPipe = w.nextPipe
  nextPid : w'.nextPid = w.nextPid

/-- All processes keep their grips. -/
abbrev KeepsAll (w w' : World) : Prop := w.Keeps w' fun _ => True

variable {w w' w'' : World} {who : Pid → Prop} {pid : Pid} {p : Process}

theorem Keeps.refl (w : World) (who : Pid → Prop) : w.Keeps w who :=
  ⟨fun _ _ => rfl, fun _ => rfl, rfl, rfl, rfl⟩

theorem Keeps.trans (h : w.Keeps w' who) (h' : w'.Keeps w'' who) : w.Keeps w'' who :=
  ⟨fun q hq => (h'.grips q hq).trans (h.grips q hq), fun id => (h'.objects id).trans (h.objects id),
    h'.nextFile.trans h.nextFile, h'.nextPipe.trans h.nextPipe, h'.nextPid.trans h.nextPid⟩

theorem KeepsAll.keeps (h : w.KeepsAll w') (who : Pid → Prop) : w.Keeps w' who :=
  { h with grips := fun q _ => h.grips q trivial }

theorem Keyed.of_keepsAll (h : w.Keyed) (hk : w.KeepsAll w') : w'.Keyed := by
  intro pid g hg
  rw [hk.grips pid trivial] at hg
  exact h pid g hg

/-- When all processes but one keep their grips, only that one has to be looked at. -/
theorem forall_grip {P : Pid → Grip → Prop} (hgrips : ∀ q, q ≠ pid → w'.grip? q = w.grip? q)
    (hself : ∀ g, w'.grip? pid = some g → P pid g) (h : ∀ q g, w.grip? q = some g → P q g)
    (q : Pid) (g : Grip) (hg : w'.grip? q = some g) : P q g := by
  by_cases hq : q = pid
  · subst hq
    exact hself g hg
  · exact h q g ((hgrips q hq).symm.trans hg)

theorem Keyed.of_grip {g : Grip} (h : w.Keyed)
    (hgrips : ∀ q, q ≠ pid → w'.grip? q = w.grip? q) (hg : w'.grip? pid = some g)
    (hpid : g.pid = pid) : w'.Keyed :=
  forall_grip hgrips (fun _ hg' => Option.some.inj (hg.symm.trans hg') ▸ hpid) h

theorem Keyed.pid_eq (h : w.Keyed) (hp : w.process? pid = some p) : p.pid = pid :=
  h pid p.grip (by rw [grip?, hp]; rfl)

/-! ## Changes of one process -/

theorem process?_setProcess (w : World) (p : Process) (q : Pid) :
    (w.setProcess p).process? q = if p.pid = q then some p else w.process? q := by
  simp [process?, setProcess, Std.TreeMap.getElem?_insert]

theorem grip?_setProcess (w : World) (p : Process) (q : Pid) :
    (w.setProcess p).grip? q = if p.pid = q then some p.grip else w.grip? q := by
  rw [grip?, process?_setProcess]
  split <;> rfl

theorem keeps_setProcess (w : World) (p : Process) : w.Keeps (w.setProcess p) (· ≠ p.pid) :=
  ⟨fun q hq => by rw [grip?_setProcess, if_neg (Ne.symm hq)], fun _ => rfl, rfl, rfl, rfl⟩

theorem grip?_setProcess_self (w : World) (p : Process) :
    (w.setProcess p).grip? p.pid = some p.grip := by
  rw [grip?_setProcess, if_pos rfl]

/-- A change of a process that its grip does not show. -/
theorem keepsAll_setProcess (h : w.grip? p.pid = some p.grip) : w.KeepsAll (w.setProcess p) := by
  refine { keeps_setProcess w p with grips := fun q _ => ?_ }
  rw [grip?_setProcess]
  split
  · rename_i heq
    rw [← heq, h]
  · rfl

theorem keepsAll_update {q : Process} (hk : w.Keyed) (hp : w.process? pid = some p)
    (hq : q.grip = p.grip) : w.KeepsAll (w.setProcess q) := by
  refine keepsAll_setProcess ?_
  have hpid : q.pid = pid := (congrArg Grip.pid hq).trans (hk.pid_eq hp)
  rw [hpid, hq, grip?, hp]
  rfl

theorem keyed_setProcess (h : w.Keyed) (p : Process) : (w.setProcess p).Keyed :=
  h.of_grip (keeps_setProcess w p).grips (grip?_setProcess_self w p) rfl

theorem grip?_modifyProcess (hk : w.Keyed) {f : Process → Process} (hf : ∀ p, (f p).pid = p.pid)
    (q : Pid) : (w.modifyProcess pid f).grip? q =
      if q = pid then (w.process? pid).map fun p => (f p).grip else w.grip? q := by
  unfold modifyProcess
  split
  · rename_i p hp
    rw [grip?_setProcess, hf, hk.pid_eq hp]
    by_cases hq : pid = q
    · rw [if_pos hq, if_pos hq.symm, hp]
      rfl
    · rw [if_neg hq, if_neg (Ne.symm hq)]
  · rename_i hp
    split
    · rename_i hq
      rw [hq, grip?, hp]
      rfl
    · rfl

theorem keeps_modifyProcess (hk : w.Keyed) (pid : Pid) {f : Process → Process}
    (hf : ∀ p, (f p).pid = p.pid) :
    w.Keeps (w.modifyProcess pid f) (· ≠ pid) := by
  refine ⟨fun q hq => ?_, fun _ => ?_, ?_, ?_, ?_⟩
  · rw [grip?_modifyProcess hk hf, if_neg hq]
  all_goals
    unfold modifyProcess
    split <;> rfl

theorem keepsAll_modifyProcess (hk : w.Keyed) (pid : Pid) {f : Process → Process}
    (hf : ∀ p, (f p).grip = p.grip) : w.KeepsAll (w.modifyProcess pid f) := by
  have hpid : ∀ p, (f p).pid = p.pid := fun p => congrArg Grip.pid (hf p)
  refine { keeps_modifyProcess hk pid hpid with grips := fun q _ => ?_ }
  rw [grip?_modifyProcess hk hpid]
  split
  · rename_i hq
    rw [hq, grip?]
    simp only [hf]
  · rfl

theorem keepsAll_raise (hk : w.Keyed) (pid : Pid) (n : Nat) : w.KeepsAll (w.raise pid n) :=
  keepsAll_modifyProcess hk pid fun _ => rfl

/-! ## Files -/

theorem object?_setFile (w : World) (id : Nat) (f : OpenFile) (m : Nat) :
    (w.setFile id f).object? m = if id = m then some f.object else w.object? m := by
  simp only [object?, file?, setFile, Std.TreeMap.getElem?_insert]
  by_cases h : id = m <;> simp [h]

theorem keepsAll_setFile {id : Nat} {f : OpenFile} (h : w.object? id = some f.object) :
    w.KeepsAll (w.setFile id f) := by
  refine ⟨fun _ _ => rfl, fun m => ?_, rfl, rfl, rfl⟩
  rw [object?_setFile]
  split
  · rename_i heq
    rw [← heq, h]
  · rfl

theorem object?_addFile (w : World) (f : OpenFile) (m : Nat) :
    (w.addFile f).2.object? m = if w.nextFile = m then some f.object else w.object? m := by
  simp only [object?, file?, addFile, Std.TreeMap.getElem?_insert]
  by_cases h : w.nextFile = m <;> simp [h]

/-! ## Signals and ends -/

/-- A process keeps its grip or is gone; the others keep theirs. -/
structure Spares (w w' : World) (pid : Pid) : Prop where
  keeps : w.Keeps w' (· ≠ pid)
  self : w'.grip? pid = w.grip? pid ∨ w'.grip? pid = none

theorem KeepsAll.spares (h : w.KeepsAll w') (pid : Pid) : w.Spares w' pid :=
  ⟨h.keeps _, .inl (h.grips pid trivial)⟩

theorem Spares.trans (h : w.Spares w' pid) (h' : w'.Spares w'' pid) : w.Spares w'' pid := by
  refine ⟨h.keeps.trans h'.keeps, ?_⟩
  rcases h'.self with h' | h'
  · rw [h']
    exact h.self
  · exact .inr h'

theorem Keyed.of_spares (h : w.Keyed) (hs : w.Spares w' pid) : w'.Keyed := by
  refine forall_grip hs.keeps.grips (fun g hg => ?_) h
  rcases hs.self with hs | hs
  · exact h pid g (hs.symm.trans hg)
  · cases hs.symm.trans hg

theorem keepsAll_foldl_modifyProcess {f : Process → Process} (hf : ∀ p, (f p).grip = p.grip)
    (cs : Children) (hk : w.Keyed) :
    w.KeepsAll (cs.foldl (fun w c => w.modifyProcess c.pid f) w) := by
  induction cs generalizing w with
  | nil => exact .refl w _
  | cons c rest ih =>
    have h := keepsAll_modifyProcess hk c.pid hf
    exact h.trans (ih (hk.of_keepsAll h))

theorem grip?_erase (w : World) (pid q : Pid) :
    { w with processes := w.processes.erase pid }.grip? q =
      if pid = q then none else w.grip? q := by
  by_cases h : pid = q <;> simp [grip?, process?, Std.TreeMap.getElem?_erase, h]

/-- A process that ends is taken away, and nothing else happens to what processes hold. -/
theorem keepsAll_finish (hk : w.Keyed) (pid : Pid) (e : Ending) :
    KeepsAll { w with processes := w.processes.erase pid } (w.finish pid e) := by
  unfold finish
  split
  · rename_i hp
    refine ⟨fun q _ => ?_, fun _ => rfl, rfl, rfl, rfl⟩
    rw [grip?_erase]
    split
    · rename_i hq
      rw [← hq, grip?, hp]
      rfl
    · rfl
  · rename_i p hp
    have hk0 : World.Keyed { w with processes := w.processes.erase pid } := by
      intro q g hg
      rw [grip?_erase] at hg
      split at hg
      · cases hg
      · exact hk q g hg
    have h1 := keepsAll_foldl_modifyProcess (f := fun q => { q with parent := adopter })
      (fun _ => rfl) p.children hk0
    have hk1 := hk0.of_keepsAll h1
    have h2 := keepsAll_modifyProcess hk1 p.parent (f := fun q =>
      if q.signals.disposition Signal.child = .ignored then
        { q with children := q.children.filter (·.pid ≠ pid) }
      else { q with children := q.children.finish pid e }) (fun q => by split <;> rfl)
    exact h1.trans (h2.trans (keepsAll_raise (hk1.of_keepsAll h2) _ _))

theorem grip?_finish (hk : w.Keyed) (pid : Pid) (e : Ending) (q : Pid) :
    (w.finish pid e).grip? q = if pid = q then none else w.grip? q := by
  rw [(keepsAll_finish hk pid e).grips q trivial, grip?_erase]

theorem keeps_finish (hk : w.Keyed) (pid : Pid) (e : Ending) :
    w.Keeps (w.finish pid e) (· ≠ pid) := by
  have h := (keepsAll_finish hk pid e).keeps (· ≠ pid)
  refine { h with grips := fun q hq => ?_ }
  rw [grip?_finish hk, if_neg (Ne.symm hq)]

theorem spares_finish (hk : w.Keyed) (pid : Pid) (e : Ending) : w.Spares (w.finish pid e) pid :=
  ⟨keeps_finish hk pid e, .inr (by rw [grip?_finish hk, if_pos rfl])⟩

theorem spares_takeSignal (hk : w.Keyed) (hp : w.process? pid = some p) (n : Nat) :
    w.Spares (w.takeSignal p n) pid := by
  unfold takeSignal
  dsimp only
  split
  · exact (keepsAll_update hk hp (by rfl)).spares pid
  · exact (keepsAll_update hk hp (by rfl)).spares pid
  · split
    · have h : w.KeepsAll (w.setProcess { p with signals := p.signals.take n }) :=
        keepsAll_update hk hp (by rfl)
      obtain rfl := hk.pid_eq hp
      exact (h.spares p.pid).trans (spares_finish (hk.of_keepsAll h) p.pid (.killed n))
    · exact (keepsAll_update hk hp (by rfl)).spares pid
    · exact (keepsAll_update hk hp (by rfl)).spares pid
    · exact (keepsAll_update hk hp (by rfl)).spares pid

/-- What is so of no signal, and of a signal followed by others, is so of all that a process takes. -/
theorem takeSignals_induction {motive : World → World → Prop} {pid : Pid}
    (done : ∀ w, motive w w)
    (takes : ∀ w w' p s, w.process? pid = some p → p.signals.next? [] = some s →
      motive (w.takeSignal p s) w' → motive w w') (n : Nat) (w : World) :
    motive w (w.takeSignals n pid) := by
  induction n generalizing w with
  | zero => exact done w
  | succ n ih =>
    unfold takeSignals
    split
    · exact done w
    · rename_i p hp
      split
      · exact done w
      · split
        · exact done w
        · rename_i s hs
          exact takes w _ p s hp hs (ih _)

theorem spares_takeSignals (hk : w.Keyed) (n : Nat) (pid : Pid) :
    w.Spares (w.takeSignals n pid) pid := by
  refine takeSignals_induction (motive := fun w w' => w.Keyed → w.Spares w' pid)
    (fun w _ => KeepsAll.spares (.refl w _) pid) (fun w w' p s hp _ ih hk => ?_) n w hk
  have h := spares_takeSignal hk hp s
  exact h.trans (ih (hk.of_spares h))

/-! ## New open files -/

/-- There are `k` new pipes and new open files on the objects `os`; the processes in `who` keep
their grips. -/
structure Adds (w w' : World) (who : Pid → Prop) (os : List Object) (k : Nat) : Prop where
  grips : ∀ q, who q → w'.grip? q = w.grip? q
  old : ∀ id, id < w.nextFile → w'.object? id = w.object? id
  new : ∀ i, w'.object? (w.nextFile + i) = os[i]?
  nextFile : w'.nextFile = w.nextFile + os.length
  nextPipe : w'.nextPipe = w.nextPipe + k
  nextPid : w'.nextPid = w.nextPid

/-- What is used has been given: numbers that are still to be given are free. No descriptor stands
twice in a table. -/
structure Sound (w : World) : Prop where
  keyed : w.Keyed
  pids : ∀ pid g, w.grip? pid = some g → pid < w.nextPid
  held : ∀ pid g, w.grip? pid = some g → g.bindings.Below w.nextFile
  tidy : ∀ pid g, w.grip? pid = some g → g.tidy
  files : ∀ id o, w.object? id = some o → id < w.nextFile
  pipes : ∀ id o n, w.object? id = some o → o.pipe? = some n → n < w.nextPipe

theorem Sound.object?_eq_none {id : Nat} (hs : w.Sound) (h : w.nextFile ≤ id) :
    w.object? id = none := by
  cases ho : w.object? id with
  | none => rfl
  | some o =>
    have := hs.files id o ho
    omega

theorem Adds.trans_keeps {os : List Object} {k : Nat} (h : w.Adds w' who os k)
    (h' : w'.Keeps w'' who) : w.Adds w'' who os k where
  grips q hq := (h'.grips q hq).trans (h.grips q hq)
  old id hid := (h'.objects id).trans (h.old id hid)
  new i := (h'.objects _).trans (h.new i)
  nextFile := h'.nextFile.trans h.nextFile
  nextPipe := h'.nextPipe.trans h.nextPipe
  nextPid := h'.nextPid.trans h.nextPid

theorem Keeps.adds (h : w.Keeps w' who) (hs : w.Sound) : w.Adds w' who [] 0 where
  grips := h.grips
  old id _ := h.objects id
  new i := by
    rw [h.objects, hs.object?_eq_none (Nat.le_add_right _ _)]
    rfl
  nextFile := h.nextFile
  nextPipe := h.nextPipe
  nextPid := h.nextPid

/-- What an open file refers to after some have been added: what it did, or a new object. -/
theorem Adds.object_cases {os : List Object} {k id : Nat} {o : Object} (h : w.Adds w' who os k)
    (ho : w'.object? id = some o) :
    id < w.nextFile ∧ w.object? id = some o ∨ ∃ i, id = w.nextFile + i ∧ os[i]? = some o := by
  by_cases hid : id < w.nextFile
  · exact .inl ⟨hid, (h.old id hid).symm.trans ho⟩
  · obtain ⟨i, rfl⟩ := Nat.exists_eq_add_of_le (Nat.le_of_not_lt hid)
    exact .inr ⟨i, rfl, (h.new i).symm.trans ho⟩

theorem Sound.of_adds {os : List Object} {k : Nat} (hs : w.Sound) (h : w.Adds w' (· ≠ pid) os k)
    (hself : ∀ g, w'.grip? pid = some g →
      g.pid = pid ∧ pid < w.nextPid ∧ g.bindings.Below w'.nextFile ∧ g.tidy)
    (hos : ∀ o ∈ os, ∀ n, o.pipe? = some n → n < w'.nextPipe) : w'.Sound where
  keyed := forall_grip h.grips (fun g hg => (hself g hg).1) hs.keyed
  pids := by
    rw [h.nextPid]
    exact forall_grip h.grips (fun g hg => (hself g hg).2.1) hs.pids
  held := by
    refine forall_grip h.grips (fun g hg => (hself g hg).2.2.1) fun q g hg => ?_
    refine (hs.held q g hg).mono ?_
    rw [h.nextFile]
    omega
  tidy := forall_grip h.grips (fun g hg => (hself g hg).2.2.2) hs.tidy
  files id o ho := by
    rw [h.nextFile]
    rcases h.object_cases ho with ⟨hid, -⟩ | ⟨i, rfl, hi⟩
    · omega
    · have := (List.getElem?_eq_some_iff.1 hi).1
      omega
  pipes id o n ho hn := by
    rcases h.object_cases ho with ⟨-, ho⟩ | ⟨i, -, hi⟩
    · have := hs.pipes id o n ho hn
      rw [h.nextPipe]
      omega
    · exact hos o (List.mem_of_getElem? hi) n hn

/-- A change of one process that adds nothing. -/
theorem Sound.of_keeps {g : Option Grip} (hs : w.Sound) (h : w.Keeps w' (· ≠ pid))
    (hg : w'.grip? pid = g)
    (hself : ∀ g' ∈ g,
      g'.pid = pid ∧ pid < w.nextPid ∧ g'.bindings.Below w.nextFile ∧ g'.tidy) : w'.Sound := by
  refine hs.of_adds (h.adds hs) (fun g' hg' => ?_) fun o ho => by cases ho
  rw [h.nextFile]
  exact hself g' (hg.symm.trans hg')

end World

end JobShell
