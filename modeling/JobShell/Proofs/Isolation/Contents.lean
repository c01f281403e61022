import JobShell.Proofs.Isolation.Opening
import JobShell.Proofs.Isolation.Soundness
import JobShell.Proofs.Wiring.Holders

/-!
# What is in a file

A regular file is followed by its name in a directory, from its opening on.

* `FileTree.Shows`: what there is under a name. `FileTree.Alike`: it is the same as before.
* `World.OnFile`: an open file is on the file of a name. `World.Leads`: a path leads to that name.
* `World.onFile_open`: what there is when the path has been opened.
* `World.OnFile.write`, `World.OnFile.read`: what goes through the open file, and that nothing else
  changes with it, `World.Confines`.
-/

namespace JobShell

/-- A name in a directory. -/
structure Entry where
  dir : Ino
  name : Bytes

/-- What there is to be seen of a regular file: its content and its permission bits. -/
structure Regular where
  content : Bytes
  mode : Nat
  deriving DecidableEq, Repr

/-- What there is to be seen of an inode by those who may read it. -/
def Inode.face (inode : Inode) : Node × Nat := (inode.node, inode.mode)

/-- The file under a name that has been opened in this way; a new one has these permission bits. -/
def Regular.opened (way : OpenMode) (mode : Nat) : Option Regular → Regular
  | some r => if way.truncate && way.write then { r with content := [] } else r
  | none => { content := [], mode }

/-- A node with names in it. -/
def Node.isDirectory : Node → Bool
  | directory .. => true
  | _ => false

theorem Node.of_isDirectory {node : Node} (h : node.isDirectory) :
    ∃ parent entries, node = .directory parent entries := by
  cases node with
  | directory parent entries => exact ⟨parent, entries, rfl⟩
  | _ => cases h

deriving instance DecidableEq for Found

/-- A text written at the end of a content. -/
theorem overwrite_end (content text : Bytes) :
    overwrite content content.length text = content ++ text := by
  simp [overwrite, Bytes.fill]

namespace FileTree

/-- What an entry is bound to. -/
def at? (t : FileTree) (f : Entry) : Option Ino := t.lookup f.dir f.name

/-- Under this name there is this regular file, or nothing. -/
def Shows (t : FileTree) (f : Entry) : Option Regular → Prop
  | none => t.at? f = none
  | some r => ∃ i inode, t.at? f = some i ∧ t.get? i = some inode ∧
      inode.face = (.file r.content, r.mode)

/-- There is to be seen under this name what there was. -/
structure Alike (t t' : FileTree) (f : Entry) : Prop where
  bound : t'.at? f = t.at? f
  face : ∀ i, t.at? f = some i → (t'.get? i).map Inode.face = (t.get? i).map Inode.face

variable {t t' : FileTree} {f : Entry} {i j : Ino} {inode new : Inode} {r : Regular}
  {seen : Option Regular}

instance : Decidable (t.Alike t' f) :=
  decidable_of_iff (t'.at? f = t.at? f ∧
      ∀ i ∈ t.at? f, (t'.get? i).map Inode.face = (t.get? i).map Inode.face)
    ⟨fun h => ⟨h.1, h.2⟩, fun h => ⟨h.bound, h.face⟩⟩

theorem Alike.of_eq (h : t' = t) : t.Alike t' f := ⟨by rw [h], fun _ _ => by rw [h]⟩

theorem Alike.get? (h : t.Alike t' f) (hi : t.at? f = some i) (hinode : t.get? i = some inode) :
    ∃ new, t'.get? i = some new ∧ new.face = inode.face := by
  have hface := h.face i hi
  rw [hinode] at hface
  exact Option.map_eq_some_iff.1 hface

theorem Shows.of_alike (h : t.Shows f seen) (ha : t.Alike t' f) : t'.Shows f seen := by
  cases seen with
  | none => exact ha.bound.trans h
  | some r =>
    obtain ⟨i, inode, hi, hinode, hface⟩ := h
    obtain ⟨new, hnew, heq⟩ := ha.get? hi hinode
    exact ⟨i, new, ha.bound.trans hi, hnew, heq.trans hface⟩

/-! ## Changes of a file -/

/-- A file that becomes another file is in no way a directory. -/
theorem entries_set {content content' : Bytes} (h : t.get? i = some inode)
    (hfile : inode.node = .file content) (hnew : new.node = .file content') (dir : Ino) :
    (t.set i new).entries dir = t.entries dir := by
  unfold entries node?
  rw [get?_set]
  by_cases hdir : i = dir
  · rw [if_pos hdir, ← hdir, h, Option.map_some, Option.map_some, hfile, hnew]
  · rw [if_neg hdir]

theorem at?_set {content content' : Bytes} (h : t.get? i = some inode)
    (hfile : inode.node = .file content) (hnew : new.node = .file content') :
    (t.set i new).at? f = t.at? f := by
  unfold at? lookup
  rw [entries_set h hfile hnew]

/-! ## A new file -/

theorem get?_add (t : FileTree) (new : Inode) (j : Ino) :
    (t.add new).2.get? j = if t.next = j then some new else t.get? j :=
  get?_set t t.next j new

/-- A name is bound in a directory. -/
theorem bind_eq {d : Inode} {parent : Ino} {entries : Table Bytes Ino}
    (hdir : t.get? f.dir = some d) (hnode : d.node = .directory parent entries) (i : Ino)
    (now : Nat) : t.bind f.dir f.name i now = t.set f.dir
      { d with node := .directory parent (Table.set (t.entries f.dir) f.name i),
               modified := now } := by
  unfold bind setEntries modify
  rw [hdir]
  dsimp only
  rw [hnode]

/-- A new file is there under its name. -/
theorem at?_create {d : Inode} {parent : Ino} {entries : Table Bytes Ino}
    (hdir : t.get? f.dir = some d) (hnode : d.node = .directory parent entries)
    (hfresh : t.get? t.next = none) (new : Inode) (now : Nat) :
    (t.create f.dir f.name new now).2.at? f = some t.next ∧
      (t.create f.dir f.name new now).2.get? t.next = some { new with modified := now } := by
  have hne : t.next ≠ f.dir := by
    intro heq
    rw [heq, hdir] at hfresh
    cases hfresh
  have hadded : (t.add { new with modified := now }).2.get? f.dir = some d := by
    rw [get?_add, if_neg hne, hdir]
  show ((t.add _).2.bind f.dir f.name t.next now).at? f = _ ∧
    ((t.add _).2.bind f.dir f.name t.next now).get? t.next = _
  rw [bind_eq hadded hnode]
  constructor
  · unfold at? lookup FileTree.entries node?
    rw [get?_set, if_pos rfl]
    exact Table.get?_set_self _ _ _
  · rw [get?_set, if_neg hne.symm, get?_add, if_pos rfl]

end FileTree

namespace World

/-- Open file `id`, opened in this way, is on the file of this name, at this offset. -/
def OnFile (w : World) (f : Entry) (way : OpenMode) (id : Nat) (r : Regular) (offset : Nat) :
    Prop :=
  ∃ i inode, w.tree.at? f = some i ∧ w.tree.get? i = some inode ∧
    inode.face = (.file r.content, r.mode) ∧
    w.file? id = some { fileOn (.inode i) way with offset }

/-- Nothing changes but the file of this name and open file `id`. -/
structure Confines (w w' : World) (f : Entry) (id : Nat) : Prop where
  pipes : w'.pipes = w.pipes
  files : ∀ k, k ≠ id → w'.file? k = w.file? k
  inodes : ∀ j, w.tree.at? f ≠ some j → w'.tree.get? j = w.tree.get? j

/-- For process `p` a path opened in this way leads to this name in a directory: to the file there,
or to where one is to be made. -/
structure Leads (w : World) (p : Process) (path : Bytes) (way : OpenMode) (f : Entry) : Prop where
  directory : ∃ d parent entries, w.tree.get? f.dir = some d ∧ d.node = .directory parent entries
  fresh : w.tree.get? w.tree.next = none
  found : ∃ parsed, Path.ofBytes path = .ok parsed ∧
    (w.view p).find (w.view p).here parsed (!way.exclusive) way.create =
      match w.tree.at? f with
      | some i => .ok (.place (.inode i))
      | none => if way.create then .ok (.missing f.dir f.name) else .error .ENOENT

variable {w w' : World} {f : Entry} {way : OpenMode} {id offset fd bits count : Nat}
  {r : Regular} {seen : Option Regular} {p : Process} {path text : Bytes} {pid : Pid}

instance : Decidable (w.Leads p path way f) :=
  let found (parsed : Path) : Prop :=
    (w.view p).find (w.view p).here parsed (!way.exclusive) way.create =
      match w.tree.at? f with
      | some i => .ok (.place (.inode i))
      | none => if way.create then .ok (.missing f.dir f.name) else .error .ENOENT
  decidable_of_iff ((∃ d ∈ w.tree.get? f.dir, d.node.isDirectory) ∧
      (w.tree.get? w.tree.next).isNone ∧ ∃ parsed ∈ (Path.ofBytes path).toOption, found parsed) <| by
    constructor
    · rintro ⟨⟨d, hd, hnode⟩, hfresh, parsed, hparsed, hfound⟩
      obtain ⟨parent, entries, hnode⟩ := Node.of_isDirectory hnode
      refine ⟨⟨d, parent, entries, hd, hnode⟩, Option.isNone_iff_eq_none.1 hfresh, parsed, ?_, hfound⟩
      cases h : Path.ofBytes path with
      | error e =>
        rw [h] at hparsed
        cases hparsed
      | ok parsed' =>
        rw [h] at hparsed
        exact congrArg _ (Option.some.inj hparsed)
    · rintro ⟨⟨d, parent, entries, hd, hnode⟩, hfresh, parsed, hparsed, hfound⟩
      refine ⟨⟨d, hd, by rw [hnode]; rfl⟩, Option.isNone_iff_eq_none.2 hfresh, parsed, ?_, hfound⟩
      rw [hparsed]
      rfl

theorem OnFile.shows (h : w.OnFile f way id r offset) : w.tree.Shows f (some r) := by
  obtain ⟨i, inode, hi, hinode, hface, -⟩ := h
  exact ⟨i, inode, hi, hinode, hface⟩

theorem OnFile.of_alike (h : w.OnFile f way id r offset) (ha : w.tree.Alike w'.tree f)
    (hfile : w'.file? id = w.file? id) : w'.OnFile f way id r offset := by
  obtain ⟨i, inode, hi, hinode, hface, hid⟩ := h
  obtain ⟨new, hnew, heq⟩ := ha.get? hi hinode
  exact ⟨i, new, ha.bound.trans hi, hnew, heq.trans hface, hfile.trans hid⟩

theorem OnFile.of_rest (h : w.OnFile f way id r offset) (hrest : w'.rest = w.rest) :
    w'.OnFile f way id r offset :=
  h.of_alike (.of_eq (congrArg (·.tree) hrest)) (congrArg (·.file? id) hrest)

theorem Confines.of_rest {w₁ w₁' : World} (h : w₁.Confines w₁' f id) (hrest : w₁.rest = w.rest)
    (hrest' : w'.rest = w₁'.rest) : w.Confines w' f id where
  pipes := (congrArg (·.pipes) hrest').trans (h.pipes.trans (congrArg (·.pipes) hrest))
  files k hk := (congrArg (·.file? k) hrest').trans
    ((h.files k hk).trans (congrArg (·.file? k) hrest))
  inodes j hj := by
    have htree : w₁.tree = w.tree := congrArg (·.tree) hrest
    have htree' : w'.tree = w₁'.tree := congrArg (·.tree) hrest'
    rw [htree', h.inodes j (by rw [htree]; exact hj), htree]

/-! ## Opening -/

theorem file?_addFile (w : World) (g : OpenFile) (k : Nat) :
    (w.addFile g).2.file? k = if w.nextFile = k then some g else w.file? k := by
  simp only [addFile, file?, Std.TreeMap.getElem?_insert]
  by_cases h : w.nextFile = k <;> simp [h]

/-- A descriptor is free for a new open file. -/
theorem install_cases (hfree : ¬p.descriptors.free ≥ p.limit) (w : World) (g : OpenFile) :
    ∃ fd w', w.install p g = (w', .ok fd) ∧ w'.rest = (w.addFile g).2.rest := by
  unfold install
  rw [if_neg hfree]
  exact ⟨_, _, rfl, rfl⟩

/-- A path that could not be opened has changed nothing. -/
theorem open_error {e : Errno} (h : w.open_ p path way bits = (w', .error e)) : w' = w := by
  rcases w.open_cases p path way bits with ⟨e', heq⟩ | ⟨hfree, tree, o, -, heq⟩
  · exact (Prod.mk.inj (heq.symm.trans h)).1.symm
  · obtain ⟨fd, w₁, hinstall, -⟩ := install_cases hfree { w with tree } (fileOn o way)
    cases (heq.trans hinstall).symm.trans h

/-- A new open file is on the file of a name. -/
theorem onFile_install {tree : FileTree} {i : Ino} {inode : Inode} (hi : tree.at? f = some i)
    (hinode : tree.get? i = some inode) (hface : inode.face = (.file r.content, r.mode))
    (h : { w with tree }.install p (fileOn (.inode i) way) = (w', .ok fd)) :
    w'.OnFile f way w.nextFile r 0 := by
  have hadded : World.OnFile ({ w with tree }.addFile (fileOn (.inode i) way)).2 f way w.nextFile
      r 0 :=
    ⟨i, inode, hi, hinode, hface, by rw [file?_addFile, if_pos rfl]; rfl⟩
  refine hadded.of_rest ?_
  by_cases hfree : p.descriptors.free ≥ p.limit
  · rw [install, if_pos hfree] at h
    cases h
  · obtain ⟨fd', w₁, heq, hrest⟩ := install_cases hfree { w with tree }
      (fileOn (.inode i) way)
    obtain ⟨rfl, -⟩ := Prod.mk.inj (heq.symm.trans h)
    exact hrest

theorem onFile_openInode {i : Ino} {inode : Inode} {mode : Nat} (hi : w.tree.at? f = some i)
    (hinode : w.tree.get? i = some inode) (hface : inode.face = (.file r.content, r.mode))
    (h : w.openInode p i way = (w', .ok fd)) :
    w'.OnFile f way w.nextFile (Regular.opened way mode (some r)) 0 := by
  obtain ⟨hnode, hmode⟩ := Prod.mk.inj hface
  unfold openInode at h
  rw [hinode] at h
  dsimp only at h
  split at h
  · cases h
  split at h
  · cases h
  split at h
  · cases h
  split at h
  · cases h
  rw [hnode] at h
  dsimp only at h
  unfold Regular.opened
  dsimp only
  by_cases hempty : way.truncate && way.write
  · rw [if_pos hempty] at h ⊢
    generalize hnew : ({ inode with node := .file [], modified := w.clock } : Inode) = new at h
    have hempty : new.face = (.file [], r.mode) := by
      rw [← hnew, ← hmode]
      rfl
    have hset : (w.tree.set i new).get? i = some new := by
      rw [FileTree.get?_set, if_pos rfl]
    have hbound : (w.tree.set i new).at? f = some i :=
      (FileTree.at?_set hinode hnode (Prod.mk.inj hempty).1).trans hi
    exact onFile_install hbound hset hempty h
  · rw [if_neg hempty] at h ⊢
    exact onFile_install hi hinode hface h

/-- A path that leads to a name has been opened. -/
theorem onFile_open (hl : w.Leads p path way f) (hseen : w.tree.Shows f seen)
    (h : w.open_ p path way bits = (w', .ok fd)) :
    (seen = none → way.create) ∧
      w'.OnFile f way w.nextFile (Regular.opened way (bits &&& (0o7777 ^^^ p.umask)) seen) 0 := by
  obtain ⟨d, parent, entries, hd, hnode⟩ := hl.directory
  obtain ⟨parsed, hparsed, hfind⟩ := hl.found
  unfold open_ at h
  rw [hparsed] at h
  dsimp only at h
  split at h
  · cases h
  rename_i hfree
  rw [hfind] at h
  cases seen with
  | some r =>
    obtain ⟨i, inode, hi, hinode, hface⟩ := hseen
    rw [hi] at h
    dsimp only at h
    exact ⟨nofun, onFile_openInode hi hinode hface h⟩
  | none =>
    have hnone : w.tree.at? f = none := hseen
    rw [hnone] at h
    by_cases hcreate : way.create
    · refine ⟨fun _ => hcreate, ?_⟩
      dsimp only at h
      rw [if_pos hcreate] at h
      dsimp only at h
      unfold openNew at h
      split at h
      · cases h
      · obtain ⟨hbound, hnew⟩ := FileTree.at?_create hd hnode hl.fresh
          { node := .file [], mode := bits &&& (0o7777 ^^^ p.umask), owner := w.user } w.clock
        exact onFile_install hbound hnew rfl h
    · dsimp only at h
      rw [if_neg hcreate] at h
      cases h

/-! ## Reading and writing -/

theorem file?_setFile_self (w : World) (k : Nat) (g : OpenFile) :
    (w.setFile k g).file? k = some g := by
  simp [file?, setFile]

theorem file?_setFile_of_ne (w : World) (g : OpenFile) {j k : Nat} (h : j ≠ k) :
    (w.setFile k g).file? j = w.file? j := by
  simp [file?, setFile, Std.TreeMap.getElem?_insert, Ne.symm h]

section

variable (h : w.OnFile f way id r offset) (hfd : Table.get? p.descriptors fd = some id)
include h hfd

theorem OnFile.openFile? : ∃ i inode, w.tree.at? f = some i ∧ w.tree.get? i = some inode ∧
    inode.node = .file r.content ∧ inode.mode = r.mode ∧
    w.openFile? p fd = some (id, { fileOn (.inode i) way with offset }) := by
  obtain ⟨i, inode, hi, hinode, hface, hid⟩ := h
  obtain ⟨hnode, hmode⟩ := Prod.mk.inj hface
  refine ⟨i, inode, hi, hinode, hnode, hmode, ?_⟩
  show (Table.get? p.descriptors fd).bind _ = _
  rw [hfd]
  show (w.file? id).bind _ = _
  rw [hid]
  rfl

/-- What is written through the open file goes to the end of the file, and nowhere else. -/
theorem OnFile.write (hway : way.write) (hoffset : way.append ∨ offset = r.content.length)
    (text : Bytes) : ∃ w', w.write p fd text = .done w' (.ok text.length) ∧
      w'.OnFile f way id { r with content := r.content ++ text }
        (r.content.length + text.length) ∧ w.Confines w' f id := by
  obtain ⟨i, inode, hi, hinode, hnode, hmode, hopen⟩ := h.openFile? hfd
  have hend : (if way.append then r.content.length else offset) = r.content.length := by
    split
    · rfl
    · exact hoffset.resolve_left ‹_›
  have htext : (if text.isEmpty then r.content else overwrite r.content r.content.length text) =
      r.content ++ text := by
    rw [overwrite_end]
    by_cases hempty : text.isEmpty
    · rw [if_pos hempty, List.isEmpty_iff.1 hempty, List.append_nil]
    · rw [if_neg hempty]
  generalize hnew : ({ inode with
    node := .file (r.content ++ text), modified := w.clock } : Inode) = new
  have hface : new.face = (.file (r.content ++ text), r.mode) := by
    rw [← hnew, ← hmode]
    rfl
  refine ⟨({ w with tree := w.tree.set i new }).setFile id { fileOn (.inode i) way with
    offset := r.content.length + text.length }, ?_,
    ⟨i, new, ?_, ?_, hface, file?_setFile_self _ _ _⟩,
    ⟨rfl, fun k hk => file?_setFile_of_ne _ _ hk, fun j hj => ?_⟩⟩
  · unfold World.write
    simp only [hopen, hinode, hnode, fileOn, hway, hend, htext, hnew, Bool.not_true,
      Bool.false_eq_true, if_false]
  · exact (FileTree.at?_set hinode hnode (Prod.mk.inj hface).1).trans hi
  · exact (FileTree.get?_set _ _ _ _).trans (if_pos rfl)
  · refine (FileTree.get?_set _ _ _ _).trans (if_neg ?_)
    rintro rfl
    exact hj hi

/-- What is read through the open file is what comes next in the file. -/
theorem OnFile.read (hway : way.read) (count : Nat) : ∃ w',
    w.read p fd count = .done w' (.ok ((r.content.drop offset).take count)) ∧
      w'.OnFile f way id r (offset + ((r.content.drop offset).take count).length) ∧
      w.Confines w' f id := by
  obtain ⟨i, inode, hi, hinode, hnode, hmode, hopen⟩ := h.openFile? hfd
  have hfile : w.tree.node? i = some (.file r.content) := by
    rw [FileTree.node?, hinode, Option.map_some, hnode]
  refine ⟨w.setFile id { fileOn (.inode i) way with
    offset := offset + ((r.content.drop offset).take count).length }, ?_,
    ⟨i, inode, hi, hinode, Prod.ext hnode hmode, file?_setFile_self _ _ _⟩,
    ⟨rfl, fun k hk => file?_setFile_of_ne _ _ hk, fun j _ => rfl⟩⟩
  unfold World.read
  simp only [hopen, hfile, fileOn, hway, Bool.not_true, Bool.false_eq_true, if_false]

/-- Nothing can be written through an open file that has been opened for reading only. -/
theorem OnFile.write_refused (hway : way.write = false) (text : Bytes) :
    w.write p fd text = .done w (.error .EBADF) := by
  obtain ⟨i, inode, -, -, -, -, hopen⟩ := h.openFile? hfd
  unfold World.write
  simp only [hopen, fileOn, hway, Bool.not_false, if_true]

theorem OnFile.read_refused (hway : way.read = false) (count : Nat) :
    w.read p fd count = .done w (.error .EBADF) := by
  obtain ⟨i, inode, -, -, -, -, hopen⟩ := h.openFile? hfd
  unfold World.read
  simp only [hopen, fileOn, hway, Bool.not_false, if_true]

end

/-! ## Turns -/

/-- Signals leave a process its descriptors, if it lives. -/
theorem descriptor?_takeSignals (hk : w.Keyed) {n : Nat}
    (hp : (w.takeSignals n pid).process? pid = some p) (fd : Nat) :
    Table.get? p.descriptors fd = w.descriptor? pid fd := by
  have hafter : (w.takeSignals n pid).grip? pid = some p.grip := by
    rw [grip?, hp]
    rfl
  have hself : (w.takeSignals n pid).descriptor? pid fd = Table.get? p.descriptors fd := by
    rw [descriptor?, hp]
    rfl
  rw [← hself, descriptor?_eq, descriptor?_eq]
  rcases (spares_takeSignals hk n pid).self with heq | hnone
  · rw [heq]
  · cases hafter.symm.trans hnone

section

variable (hk : w.Keyed) (h : w.OnFile f way id r offset) (hfd : w.descriptor? pid fd = some id)
include hk h hfd

/-- A process has written through the open file. -/
theorem OnFile.step_write {n : Nat} {d : Doing} (hd : w.doing? pid = some d)
    (hwrites : d = .called (.write fd text) (.ok n) ∨ fd = 1 ∧ d = .interrupted text (.ok n))
    (hoffset : way.write → way.append ∨ offset = r.content.length) :
    way.write ∧ n = text.length ∧
      (w.step pid).1.OnFile f way id { r with content := r.content ++ text }
        (r.content.length + text.length) ∧ w.Confines (w.step pid).1 f id := by
  obtain ⟨p, w', hp, hwrite, hstep⟩ := written_of_doing? hd hwrites
  have hget := (descriptor?_takeSignals hk hp fd).trans hfd
  have hrest := rest_takeSignals signalCount w pid
  have hafter := h.of_rest hrest
  by_cases hway : way.write = true
  · obtain ⟨w₁, hdone, hon, hconfines⟩ := hafter.write hget hway (hoffset hway) text
    cases hdone.symm.trans hwrite
    exact ⟨hway, rfl, hon.of_rest hstep, hconfines.of_rest hrest hstep⟩
  · cases (hafter.write_refused hget (Bool.eq_false_iff.2 hway) text).symm.trans hwrite

/-- A process has read through the open file. -/
theorem OnFile.step_read (hd : w.doing? pid = some (.called (.read fd count) (.ok text))) :
    way.read ∧ text = (r.content.drop offset).take count ∧
      (w.step pid).1.OnFile f way id r (offset + text.length) ∧
      w.Confines (w.step pid).1 f id := by
  obtain ⟨p, next, w', hp, -, hperform, hstep⟩ := performed_of_doing? hd nofun
  have hget := (descriptor?_takeSignals hk hp fd).trans hfd
  have hrest := rest_takeSignals signalCount w pid
  have hafter := h.of_rest hrest
  have hread : (w.takeSignals signalCount pid).read p fd count = .done w' (.ok text) := hperform
  by_cases hway : way.read = true
  · obtain ⟨w₁, hdone, hon, hconfines⟩ := hafter.read hget hway count
    cases hdone.symm.trans hread
    rw [hstep]
    exact ⟨hway, rfl, hon.of_rest (rest_modifyProcess _ _ _),
      hconfines.of_rest hrest (rest_modifyProcess _ _ _)⟩
  · cases (hafter.read_refused hget (Bool.eq_false_iff.2 hway) count).symm.trans hread

end

/-- The path leads to this name when the process makes its next call. -/
def Finds (w : World) (pid : Pid) (path : Bytes) (way : OpenMode) (f : Entry) : Prop :=
  ∀ p, (w.takeSignals signalCount pid).process? pid = some p →
    (w.takeSignals signalCount pid).Leads p path way f

instance : Decidable (w.Finds pid path way f) :=
  decidable_of_iff (∀ p ∈ (w.takeSignals signalCount pid).process? pid,
    (w.takeSignals signalCount pid).Leads p path way f) Iff.rfl

/-- A process has opened the path. -/
theorem onFile_step (hl : w.Finds pid path way f) (hseen : w.tree.Shows f seen)
    (hd : w.doing? pid = some (.called (.open path way bits) (.ok fd))) :
    ∃ p, (w.takeSignals signalCount pid).process? pid = some p ∧ (seen = none → way.create) ∧
      (w.step pid).1.OnFile f way w.nextFile
        (Regular.opened way (bits &&& (0o7777 ^^^ p.umask)) seen) 0 := by
  obtain ⟨p, next, w', hp, -, hperform, hstep⟩ := performed_of_doing? hd nofun
  have hrest := rest_takeSignals signalCount w pid
  have hopen : (w.takeSignals signalCount pid).open_ p path way bits = (w', .ok fd) :=
    Prod.ext (Outcome.done.inj hperform).1 (Outcome.done.inj hperform).2
  have hsame : (w.takeSignals signalCount pid).tree = w.tree := congrArg (·.tree) hrest
  have hnext : (w.takeSignals signalCount pid).nextFile = w.nextFile :=
    congrArg (·.nextFile) hrest
  obtain ⟨hcreate, hon⟩ := onFile_open (hl p hp) (hsame ▸ hseen) hopen
  rw [hnext] at hon
  rw [hstep]
  exact ⟨p, hp, hcreate, hon.of_rest (rest_modifyProcess _ _ _)⟩

end World

end JobShell
