import JobShell.Proofs.Wiring.Duty
import JobShell.Proofs.Wiring.Effects

/-!
# What the calls of a job do

Spec lemmas of the calls that the processes of a job make, as far as descriptors are concerned.

* `World.Rebinds`: the descriptors of one process change and nothing else does.
* `World.Effect.keepsAll`: most calls leave descriptors as they are.
* `perform_plain`, `rebinds_close`, `dup2_cases`, `exec_cases`: calls that make no open file.
* `makePipe_cases`, `opening_open`: calls that do. `World.Binds` is what they have in common.
* `forks_fork`: a fork.
-/

namespace JobShell

/-- The call is about what the descriptors of the process stand for. -/
def Call.rebinds : Call → Bool
  | «open» .. | pipe | close _ | copyAbove .. | dup2 .. | exec .. => true
  | _ => false

namespace Process

variable {p : Process} {a : Act}

/-- What a process does next with its program; nothing if it has its farewell to write instead. -/
def due? (p : Process) : Option Act := if p.farewell?.isSome then none else p.program

theorem due?_of_none (hf : p.farewell? = none) : p.due? = p.program := by
  rw [due?, hf]
  rfl

theorem of_due? (h : p.due? = some a) : p.farewell? = none ∧ p.program = some a := by
  unfold due? at h
  split at h
  · cases h
  · exact ⟨Option.not_isSome_iff_eq_none.1 ‹_›, h⟩

end Process

namespace World

/-- The descriptors of `p` become `t`, and all else is kept. -/
structure Rebinds (w w' : World) (p : Process) (t : Bindings) : Prop where
  keeps : w.Keeps w' (· ≠ p.pid)
  self : w'.grip? p.pid = some { pid := p.pid, program := p.program, bindings := t }

/-- There are new open files on `os` and `k` new pipes, and the descriptors of `p` become `t`. -/
structure Binds (w w' : World) (p : Process) (t : Bindings) (os : List Object) (k : Nat) :
    Prop where
  adds : w.Adds w' (· ≠ p.pid) os k
  self : w'.grip? p.pid = some { pid := p.pid, program := p.program, bindings := t }

variable {w w' : World} {p : Process} {t : Bindings} {pid : Pid}

theorem grip?_of_process? (hp : w.process? p.pid = some p) : w.grip? p.pid = some p.grip := by
  rw [grip?, hp]
  rfl

theorem Sound.tidy_process (hs : w.Sound) (hp : w.process? p.pid = some p) : p.tidy :=
  hs.tidy p.pid p.grip (grip?_of_process? hp)

theorem Sound.grip? {a : Option Act} (hs : w.Sound) (hp : w.process? p.pid = some p)
    (hprogram : p.program = a) :
    w.grip? p.pid = some { pid := p.pid, program := a, bindings := p.bindings } := by
  rw [grip?_of_process? hp, Process.grip, hprogram, hs.tidy_process hp]

theorem Rebinds.of_keepsAll (h : w.KeepsAll w') (hs : w.Sound) (hp : w.process? p.pid = some p) :
    w.Rebinds w' p p.bindings := by
  refine ⟨h.keeps _, ?_⟩
  rw [h.grips _ trivial, hs.grip? hp rfl]

theorem grip?_setProcess_of {q : Process} (hpid : q.pid = pid) (ht : q.bindings = t)
    (htidy : q.tidy) :
    (w.setProcess q).grip? pid = some { pid, program := q.program, bindings := t } := by
  rw [← hpid, grip?_setProcess_self, Process.grip, ht, htidy]

theorem rebinds_setProcess {q : Process} (hpid : q.pid = p.pid) (hprogram : q.program = p.program)
    (htidy : q.tidy) : w.Rebinds (w.setProcess q) p q.bindings := by
  refine ⟨hpid ▸ keeps_setProcess w q, ?_⟩
  rw [grip?_setProcess_of hpid rfl htidy, hprogram]

theorem Rebinds.keyed (h : w.Rebinds w' p t) (hk : w.Keyed) : w'.Keyed :=
  hk.of_grip h.keeps.grips h.self rfl

theorem Binds.keyed {os : List Object} {k : Nat} (h : w.Binds w' p t os k) (hk : w.Keyed) :
    w'.Keyed :=
  hk.of_grip h.adds.grips h.self rfl

/-! ## Calls without new open files -/

theorem object?_of_openFile? {fd id : Nat} {f : OpenFile} (h : w.openFile? p fd = some (id, f)) :
    w.object? id = some f.object := by
  unfold openFile? at h
  cases hid : Table.get? p.descriptors fd with
  | none =>
    rw [hid] at h
    cases h
  | some id' =>
    rw [hid] at h
    cases hf : w.file? id' with
    | none => simp [hf] at h
    | some f' =>
      simp only [hf, Option.bind_eq_bind, Option.bind_some, Option.pure_def, Option.some.injEq,
        Prod.mk.injEq] at h
      obtain ⟨rfl, rfl⟩ := h
      rw [object?, hf]
      rfl

theorem keepsAll_tree (w : World) (tree : FileTree) : w.KeepsAll { w with tree } :=
  ⟨fun _ _ => rfl, fun _ => rfl, rfl, rfl, rfl⟩

/-- An open file of a process gets another offset. -/
theorem keepsAll_offset {fd id : Nat} {f : OpenFile} (hf : w.openFile? p fd = some (id, f))
    (tree : FileTree) (offset : Nat) :
    w.KeepsAll ({ w with tree }.setFile id { f with offset }) := by
  have hobject : World.object? { w with tree } id = some f.object := object?_of_openFile? hf
  exact (keepsAll_tree w tree).trans (keepsAll_setFile (f := { f with offset }) hobject)

theorem keepsAll_foldl_raise (pids : List Pid) (n : Nat) (hk : w.Keyed) :
    w.KeepsAll (pids.foldl (·.raise · n) w) := by
  induction pids generalizing w with
  | nil => exact .refl w _
  | cons pid rest ih =>
    have h := keepsAll_raise hk pid n
    exact h.trans (ih (hk.of_keepsAll h))

theorem Effect.keepsAll {c : Call} (h : w.Effect p c w') (hk : w.Keyed)
    (hp : w.process? p.pid = some p) (hc : c.rebinds = false) : w.KeepsAll w' := by
  cases h with
  | same => exact .refl w _
  | changes _ tree => exact keepsAll_tree w tree
  | drains | fills => exact ⟨fun _ _ => rfl, fun _ => rfl, rfl, rfl, rfl⟩
  | reads hf offset | seeks hf offset => exact keepsAll_offset hf w.tree offset
  | writes hf tree offset => exact keepsAll_offset hf tree offset
  | breaks => exact keepsAll_raise hk _ _
  | sends _ signal pids => exact keepsAll_foldl_raise pids signal hk
  | moves hq => exact keepsAll_update hk hq rfl
  | stands | masks | collects | disposes | unblocks | catches | sleeps =>
    exact keepsAll_update hk hp rfl
  | opens | joins | closes | copies | repeats | executes => cases hc

theorem write_cases (w : World) (p : Process) (fd : Nat) (text : Bytes) :
    (∃ w' r, w.write p fd text = .done w' r) ∨ w.write p fd text = .wait w := by
  unfold write
  split
  · exact .inl ⟨_, _, rfl⟩
  split
  · exact .inl ⟨_, _, rfl⟩
  split
  · exact .inl ⟨_, _, rfl⟩
  · exact .inl ⟨_, _, rfl⟩
  · split
    · exact .inl ⟨_, _, rfl⟩
    · dsimp only
      split
      · exact .inr rfl
      · exact .inl ⟨_, _, rfl⟩
  · split
    · split <;> exact .inl ⟨_, _, rfl⟩
    · exact .inl ⟨_, _, rfl⟩

theorem perform_plain (hk : w.Keyed) (hp : w.process? p.pid = some p) {c : Call} (hc : c.isPlain) :
    (∃ w' r, w.perform p c = .done w' r ∧ w.KeepsAll w') ∨ w.perform p c = .wait w := by
  have hcases : (∃ w' r, w.perform p c = .done w' r) ∨ w.perform p c = .wait w := by
    cases c with
    | setGroup | dispose | unblock => exact .inl ⟨_, _, rfl⟩
    | write fd text => exact w.write_cases p fd text
    | _ => cases hc
  refine hcases.imp_left fun ⟨w', r, h⟩ => ⟨w', r, h, ?_⟩
  have heffect := w.effect_perform p c
  rw [h] at heffect
  refine Effect.keepsAll heffect hk hp ?_
  cases c <;> first | rfl | cases hc

theorem rebinds_close (hs : w.Sound) (hp : w.process? p.pid = some p) (fd : Nat) :
    w.Rebinds (w.close p fd).1 p (p.bindings.set fd none) := by
  unfold close
  split
  · rw [← Process.bindings_erase p fd]
    exact rebinds_setProcess rfl rfl (Process.tidy_filter (hs.tidy_process hp) rfl)
  · rename_i hfd
    have hnone : p.bindings fd = none := Process.bindings_eq_none.2 (by simpa using hfd)
    rw [← hnone, Bindings.set_eq_self]
    exact .of_keepsAll (.refl w _) hs hp

theorem dup2_cases (htidy : p.tidy) {fd target : Nat} (hne : fd ≠ target) :
    (∃ e, w.dup2 p fd target = (w, .error e)) ∨
    ∃ w' b, p.bindings fd = some b ∧ w.dup2 p fd target = (w', .ok ()) ∧
      w.Rebinds w' p (p.bindings.set target (some { file := b.file })) := by
  unfold dup2 Descriptors.dup2?
  cases hfile : Table.get? p.descriptors fd with
  | none => exact .inl ⟨_, rfl⟩
  | some file =>
    rw [Option.map_some]
    dsimp only
    split
    · exact .inl ⟨_, rfl⟩
    · refine .inr ⟨_, { file, closing := decide (fd ∈ p.closing) }, ?_, rfl, ?_⟩
      · unfold Process.bindings
        rw [hfile]
        rfl
      · rw [← Process.bindings_copy p target file]
        exact rebinds_setProcess rfl rfl (Process.tidy_set htidy rfl)

/-- Whether a process is about to execute a program that can be executed. -/
def executes (w : World) (p : Process) : Bool :=
  match p.due? with
  | some (.call (.exec path args env) _) => (w.program p path args env).isOk
  | _ => false

theorem exec_cases (htidy : p.tidy) (path : Bytes) (args env : List Bytes) :
    (∃ e, w.exec p path args env = .done w e ∧ (w.program p path args env).isOk = false) ∨
    ∃ w', w.exec p path args env = .become w' ∧ (w.program p path args env).isOk = true ∧
      w.Keeps w' (· ≠ p.pid) ∧ ∃ a,
        w'.grip? p.pid = some { pid := p.pid, program := a, bindings := p.bindings.kept } := by
  unfold exec
  cases w.program p path args env with
  | error e => exact .inl ⟨e, rfl, rfl⟩
  | ok r =>
    obtain ⟨i, name, program, args'⟩ := r
    exact .inr ⟨_, rfl, rfl, keeps_setProcess w _, _,
      grip?_setProcess_of rfl (Process.bindings_filter rfl rfl) (Process.tidy_filter htidy rfl)⟩

/-! ## Pipes -/

theorem object?_addPipe (w : World) (m : Nat) :
    w.addPipe.2.2.object? m = if w.nextFile + 1 = m then some (.writeEnd w.nextPipe)
      else if w.nextFile = m then some (.readEnd w.nextPipe) else w.object? m := by
  unfold addPipe
  exact (object?_addFile _ _ m).trans (by rw [object?_addFile]; rfl)

theorem adds_addPipe (hs : w.Sound) (who : Pid → Prop) :
    w.Adds w.addPipe.2.2 who [.readEnd w.nextPipe, .writeEnd w.nextPipe] 1 where
  grips _ _ := rfl
  old id hid := by
    rw [object?_addPipe, if_neg (by omega), if_neg (by omega)]
  new i := by
    rw [object?_addPipe]
    match i with
    | 0 => simp
    | 1 => simp
    | i + 2 =>
      rw [if_neg (by omega), if_neg (by omega), hs.object?_eq_none (Nat.le_add_right _ _)]
      rfl
  nextFile := rfl
  nextPipe := rfl
  nextPid := rfl

theorem makePipe_cases (hs : w.Sound) (htidy : p.tidy) :
    (∃ e, w.makePipe p = (w, .error e)) ∨
    ∃ w' r o b b', w.makePipe p = (w', .ok (r, o)) ∧
      p.bindings r = none ∧ p.bindings o = none ∧ r ≠ o ∧
      b.file = w.nextFile ∧ b'.file = w.nextFile + 1 ∧
      w.Binds w' p ((p.bindings.set r (some b)).set o (some b'))
        [.readEnd w.nextPipe, .writeEnd w.nextPipe] 1 := by
  unfold makePipe
  dsimp only
  split
  · exact .inl ⟨_, rfl⟩
  · have hr := p.bindings_free
    have ho := Descriptors.get?_free (Table.set p.descriptors p.descriptors.free 0)
    generalize p.descriptors.free = r at hr ho ⊢
    generalize Descriptors.free (Table.set p.descriptors r 0) = o at ho ⊢
    -- the second number is free although the first is taken, so they differ
    rw [Table.get?_set] at ho
    have hro : r ≠ o := by
      rintro rfl
      simp at ho
    rw [if_neg hro] at ho
    refine .inr ⟨_, r, o, { file := w.nextFile, closing := decide (r ∈ p.closing) },
      { file := w.nextFile + 1, closing := decide (o ∈ p.closing) }, rfl, hr,
      Process.bindings_eq_none.2 ho, hro, rfl, rfl, ?_, ?_⟩
    · exact (adds_addPipe hs _).trans_keeps (keeps_setProcess _ _)
    · have hfirst :
          ({ p with descriptors := Table.set p.descriptors r w.nextFile } : Process).tidy :=
        Process.tidy_set htidy rfl
      refine grip?_setProcess_of rfl ?_ (Process.tidy_set hfirst rfl)
      rw [← Process.bindings_bind p r w.nextFile]
      exact Process.bindings_bind
        { p with descriptors := Table.set p.descriptors r w.nextFile } o (w.nextFile + 1)

/-! ## Opening -/

/-- What opening comes to. The new open file is an end of a pipe only if another is one already. -/
inductive Opening (w : World) (p : Process) : World × Except Errno Nat → Prop where
  | refused {w' : World} {e : Errno} (h : w.KeepsAll w') : Opening w p (w', .error e)
  | opened {w' : World} {fd : Nat} {b : Binding} {o : Object} (hfd : p.bindings fd = none)
      (hb : b.file = w.nextFile)
      (ho : ∀ n, o.pipe? = some n → ∃ id o', w.object? id = some o' ∧ o'.pipe? = some n)
      (h : w.Binds w' p (p.bindings.set fd (some b)) [o] 0) : Opening w p (w', .ok fd)

theorem adds_addFile (hs : w.Sound) (tree : FileTree) (f : OpenFile) (who : Pid → Prop) :
    w.Adds ({ w with tree }.addFile f).2 who [f.object] 0 where
  grips _ _ := rfl
  old id hid := by
    rw [object?_addFile, if_neg (Nat.ne_of_gt hid)]
    rfl
  new i := by
    rw [object?_addFile]
    cases i with
    | zero => exact if_pos rfl
    | succ i =>
      rw [if_neg (by show w.nextFile ≠ _; omega)]
      exact hs.object?_eq_none (Nat.le_add_right _ _)
  nextFile := rfl
  nextPipe := rfl
  nextPid := rfl

theorem opening_install (hs : w.Sound) (htidy : p.tidy) (tree : FileTree) {f : OpenFile}
    (ho : ∀ n, f.object.pipe? = some n → ∃ id o', w.object? id = some o' ∧ o'.pipe? = some n) :
    w.Opening p ({ w with tree }.install p f) := by
  unfold install Descriptors.insert
  split
  · exact .refused (keepsAll_tree w tree)
  · refine .opened p.bindings_free (b := {
      file := w.nextFile, closing := decide (p.descriptors.free ∈ p.closing) }) rfl ho ⟨?_, ?_⟩
    · exact (adds_addFile hs tree f _).trans_keeps (keeps_setProcess _ _)
    · exact grip?_setProcess_of rfl (Process.bindings_bind p p.descriptors.free w.nextFile)
        (Process.tidy_set htidy rfl)

/-- What is opened is an end of a pipe only if another open file is one already. -/
theorem Yields.exists_object {mode : OpenMode} {tree : FileTree} {o : Object}
    (h : w.Yields mode tree o) {n : Nat} (hn : o.pipe? = some n) :
    ∃ id o', w.object? id = some o' ∧ o'.pipe? = some n := by
  cases h with
  | again ho hm hm' => exact ⟨_, _, ho, hm.trans (hm'.symm.trans hn)⟩
  | emptied | kept | made | text | shown => cases hn

theorem opening_open (hs : w.Sound) (htidy : p.tidy) (path : Bytes) (mode : OpenMode) (bits : Nat) :
    w.Opening p (w.open_ p path mode bits) := by
  rcases w.open_cases p path mode bits with ⟨e, h⟩ | ⟨-, tree, o, ho, h⟩
  · rw [h]
    exact .refused (.refl w _)
  · rw [h]
    exact opening_install hs htidy tree fun n => ho.exists_object

/-! ## Forks -/

/-- There is a new process that runs `child`, with descriptors `t`. -/
structure Forks (w w' : World) (t : Bindings) (child : Act) : Prop where
  grips : ∀ q, q ≠ w.nextPid → w'.grip? q = w.grip? q
  child : w'.grip? w.nextPid =
    some { pid := w.nextPid, program := some child, bindings := t }
  objects : ∀ id, w'.object? id = w.object? id
  nextFile : w'.nextFile = w.nextFile
  nextPipe : w'.nextPipe = w.nextPipe
  nextPid : w'.nextPid = w.nextPid + 1

theorem Forks.keyed {child : Act} (h : w.Forks w' t child) (hk : w.Keyed) : w'.Keyed :=
  hk.of_grip h.grips h.child rfl

theorem forks_fork (hs : w.Sound) (htidy : p.tidy) (child : Act) :
    (w.fork p child).1 = w.nextPid ∧ w.Forks (w.fork p child).2 p.bindings child := by
  refine ⟨rfl, ?_⟩
  unfold fork
  dsimp only
  generalize hq : ({ p with
    pid := w.nextPid, parent := p.pid, program := some child, children := [], wake := none
    caught := [], interrupted := false, signals := p.signals.onFork } : Process) = q
  have hpid : q.pid = w.nextPid := by rw [← hq]
  have hset := keeps_setProcess { w with nextPid := w.nextPid + 1 } q
  have hkeyed : World.Keyed { w with nextPid := w.nextPid + 1 } := hs.keyed
  have hmodify := keepsAll_modifyProcess (keyed_setProcess hkeyed q) p.pid
    (f := fun r => { r with children := r.children.add w.nextPid }) fun _ => rfl
  have hself := grip?_setProcess_self { w with nextPid := w.nextPid + 1 } q
  rw [hpid] at hset hself
  exact {
    grips := fun r hr => (hmodify.grips r trivial).trans (hset.grips r hr)
    child := (hmodify.grips _ trivial).trans (hself.trans (by rw [← hq, ← htidy]; rfl))
    objects := hmodify.objects
    nextFile := hmodify.nextFile
    nextPipe := hmodify.nextPipe
    nextPid := hmodify.nextPid }

theorem Forks.sound {child : Act} (h : w.Forks w' t child) (hs : w.Sound)
    (ht : t.Below w.nextFile) : w'.Sound where
  keyed := h.keyed hs.keyed
  pids := by
    rw [h.nextPid]
    exact forall_grip h.grips (fun _ _ => Int.lt_succ _) fun q g hg =>
      Int.lt_trans (hs.pids q g hg) (Int.lt_succ _)
  held := by
    rw [h.nextFile]
    refine forall_grip h.grips (fun g hg => ?_) hs.held
    rw [h.child] at hg
    cases hg
    exact ht
  tidy := by
    refine forall_grip h.grips (fun g hg => ?_) hs.tidy
    rw [h.child] at hg
    cases hg
    rfl
  files id o ho := by
    rw [h.objects] at ho
    exact h.nextFile ▸ hs.files id o ho
  pipes id o n ho hn := by
    rw [h.objects] at ho
    exact h.nextPipe ▸ hs.pipes id o n ho hn

end World

end JobShell
