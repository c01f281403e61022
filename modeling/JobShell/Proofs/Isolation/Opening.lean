import JobShell.Proofs.Isolation.Turns

/-!
# What stands behind a descriptor that has been opened

* `World.Stands`: behind a descriptor of a process stands an open file, and a file of the tree that
  it stands for is there, and is empty where opening it was to empty it.
* `World.Yields.written`: so it is whatever a file has been opened by.
* `World.stands_step`: so it is when a process has opened a file in a step.
-/

namespace JobShell

namespace FileTree

variable {t : FileTree} {i j : Ino}

theorem get?_set (t : FileTree) (i j : Ino) (inode : Inode) :
    (t.set i inode).get? j = if i = j then some inode else t.get? j := by
  simp [get?, set, Std.TreeMap.getElem?_insert]

/-- Names come and go in directories only. -/
theorem node?_bind {content : Bytes} (h : t.node? i = some (.file content)) (dir : Ino)
    (name : Bytes) (j : Ino) (now : Nat) : (t.bind dir name j now).node? i = some (.file content) := by
  unfold bind setEntries modify
  split
  · rename_i inode hinode
    rw [node?, get?_set]
    split
    · rename_i hi
      rw [node?, ← hi, hinode] at h
      have hnode : inode.node = .file content := Option.some.inj h
      rw [Option.map_some]
      dsimp only
      rw [hnode]
      exact congrArg some hnode
    · exact h
  · exact h

theorem node?_create (dir : Ino) (name : Bytes) {inode : Inode} {content : Bytes}
    (h : inode.node = .file content) (now : Nat) :
    (t.create dir name inode now).2.node? (t.create dir name inode now).1 =
      some (.file content) := by
  refine node?_bind ?_ dir name _ now
  show Option.map _ ((t.set t.next { inode with modified := now }).get? t.next) = _
  rw [get?_set, if_pos rfl, ← h]
  rfl

end FileTree

namespace World

/-- A file that was opened in this way to be written is there, and is empty if it was to be. -/
def Written (w : World) (mode : OpenMode) (o : Object) : Prop :=
  ∀ i, o = .inode i → mode.write → ∃ node, w.tree.node? i = some node ∧
    (mode.truncate → ∀ content, node = .file content → content = [])

/-- Behind this descriptor stands what was opened in this way. -/
def Stands (w : World) (pid : Pid) (fd : Nat) (mode : OpenMode) : Prop :=
  ∃ p id f, w.process? pid = some p ∧ w.openFile? p fd = some (id, f) ∧ w.Written mode f.object

variable {w w' : World} {p : Process} {fd : Nat} {mode : OpenMode} {pid : Pid}

theorem stands_install {f : OpenFile} (hf : w.Written mode f.object)
    (h : w.install p f = (w', .ok fd)) : w'.Stands p.pid fd mode := by
  unfold install at h
  split at h
  · cases h
  · obtain ⟨rfl, hfd⟩ := Prod.mk.inj h
    obtain rfl := Except.ok.inj hfd
    refine ⟨_, w.nextFile, f, by rw [process?_setProcess, if_pos rfl], ?_, hf⟩
    have hget : Table.get? (p.descriptors.insert w.nextFile).2 p.descriptors.free =
        some w.nextFile := Table.get?_set_self _ _ _
    have hfile : World.file? (w.addFile f).2 w.nextFile = some f := by
      simp [file?, addFile]
    show Option.bind (Table.get? (p.descriptors.insert w.nextFile).2 p.descriptors.free) _ = _
    rw [hget]
    show Option.bind (World.file? (w.addFile f).2 w.nextFile) _ = _
    rw [hfile]
    rfl

theorem Yields.written {tree : FileTree} {o : Object} (h : w.Yields mode tree o) :
    World.Written { w with tree } mode o := by
  intro j hj hwrite
  cases h with
  | @emptied i inode hi =>
    obtain rfl := Object.inode.inj hj
    refine ⟨.file [], ?_, fun _ _ heq => (Node.file.inj heq).symm⟩
    show Option.map _ ((w.tree.set i _).get? i) = _
    rw [FileTree.get?_set, if_pos rfl]
    rfl
  | @kept i inode hi hkept =>
    obtain rfl := Object.inode.inj hj
    refine ⟨inode.node, ?_, fun htruncate content hnode => absurd ?_ (hkept content hnode)⟩
    · rw [FileTree.node?, hi]
      rfl
    · rw [htruncate, hwrite]
      rfl
  | made dir name hnode =>
    obtain rfl := Object.inode.inj hj
    exact ⟨.file [], FileTree.node?_create dir name hnode w.clock,
      fun _ _ heq => (Node.file.inj heq).symm⟩
  | again _ _ hpipe =>
    rw [hj] at hpipe
    cases hpipe
  | text => cases hj
  | shown hread => exact absurd hwrite hread

theorem stands_open {path : Bytes} {bits : Nat} (h : w.open_ p path mode bits = (w', .ok fd)) :
    w'.Stands p.pid fd mode := by
  rcases w.open_cases p path mode bits with ⟨e, heq⟩ | ⟨-, tree, o, ho, heq⟩
  · cases heq.symm.trans h
  · have hwritten : World.Written { w with tree } mode (fileOn o mode).object := ho.written
    exact stands_install hwritten (heq.symm.trans h)

theorem Stands.modifyProcess (h : w.Stands pid fd mode) (hk : w.Keyed) {f : Process → Process}
    (hf : ∀ p, (f p).pid = p.pid) (hd : ∀ p, (f p).descriptors = p.descriptors) :
    (w.modifyProcess pid f).Stands pid fd mode := by
  obtain ⟨p, id, g, hp, hg, hwritten⟩ := h
  have hset : w.modifyProcess pid f = w.setProcess (f p) := by
    rw [World.modifyProcess, hp]
  refine ⟨f p, id, g, by rw [process?_modifyProcess hk hf, hp]; rfl, ?_, ?_⟩
  · rw [hset, ← hg, openFile?, hd]
    rfl
  · rw [hset]
    exact hwritten

/-- A process that has opened a file in a step has it behind a descriptor. -/
theorem stands_step {path : Bytes} {bits : Nat} (hk : w.Keyed)
    (h : w.doing? pid = some (.called (.open path mode bits) (.ok fd))) :
    (w.step pid).1.Stands pid fd mode := by
  have hkeyed := (leaves_takeSignals hk signalCount pid).keyed hk
  obtain ⟨p, next, w', hp, -, hperform, hstep⟩ := performed_of_doing? h nofun
  obtain rfl := hkeyed.pid_eq hp
  have hleaves := leaves_perform hkeyed p (.open path mode bits)
  rw [hperform] at hleaves
  have hopen : (w.takeSignals signalCount p.pid).open_ p path mode bits = (w', .ok fd) :=
    Prod.ext (Outcome.done.inj hperform).1 (Outcome.done.inj hperform).2
  rw [hstep]
  exact (stands_open hopen).modifyProcess (hleaves.keyed hkeyed) (fun _ => rfl) fun _ => rfl

end World

end JobShell
