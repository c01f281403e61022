import JobShell.Proofs.Wiring.Grip

/-!
# What calls make of the world

A call of a process changes little, and in one of a few ways. The calls are gone through here once;
what a call keeps is proved by cases on what it makes of the world.

* `Outcome.All`: whatever comes of a call, the world is such.
* `World.Yields`: what opening comes to, and the tree of files after that. `World.open_cases`: a path
  is opened in one of these ways, or the call is refused.
* `World.Effect`: what a call makes of the world, with one constructor for each kind.
* `World.effect_perform`: the list is complete.
-/

namespace JobShell

/-- Whatever comes of a call, the world is such. -/
def Outcome.All {α : Type} (P : World → Prop) : Outcome α → Prop
  | .done w _ | .wait w | .become w => P w

theorem Outcome.All.imp {α : Type} {P Q : World → Prop} {r : Outcome α} (h : r.All P)
    (hPQ : ∀ w, P w → Q w) : r.All Q := by
  cases r <;> exact hPQ _ h

namespace Children

variable (cs : Children) (pid : Pid)

/-- Waiting makes no children. -/
theorem waitFor_subset : (cs.waitFor pid).2 ⊆ cs := by
  unfold waitFor
  split
  · exact List.Subset.refl _
  · split
    · exact List.Subset.refl _
    · exact List.filter_subset_self _

theorem waitAny_subset : cs.waitAny.2 ⊆ cs := by
  unfold waitAny
  split
  · exact List.Subset.refl _
  · split
    · exact List.filter_subset_self _
    · exact List.Subset.refl _

end Children

/-- The call changes the tree of files, and nothing else. -/
def Call.isFiling : Call → Bool
  | truncate .. | mkdir .. | rmdir _ | unlink _ | rename .. | link .. | symlink .. | chmod .. |
    touch .. => true
  | _ => false

/-- The call may change files or pipes. -/
def Call.touches : Call → Bool
  | «open» .. | read .. | write .. | seek .. | pipe => true
  | c => c.isFiling

theorem Call.touches_of_isFiling {c : Call} (h : c.isFiling) : c.touches := by
  cases c <;> first | rfl | exact h

namespace World

/-- Nothing but the tree of files changes, if anything does. -/
def OnlyTree (w : World) (r : Except Errno World) : Prop :=
  ∀ w', r = .ok w' → ∃ tree, w' = { w with tree }

/-- Opening in this way leaves this tree of files and comes to this object. -/
inductive Yields (w : World) (mode : OpenMode) : FileTree → Object → Prop where
  | emptied {i : Ino} {inode : Inode} (hi : w.tree.get? i = some inode) :
    w.Yields mode (w.tree.set i { inode with node := .file [], modified := w.clock }) (.inode i)
  | kept {i : Ino} {inode : Inode} (hi : w.tree.get? i = some inode)
      (hnode : ∀ content, inode.node = .file content → ¬(mode.truncate && mode.write)) :
    w.Yields mode w.tree (.inode i)
  | made (dir : Ino) (name : Bytes) {inode : Inode} (hnode : inode.node = .file []) :
    w.Yields mode (w.tree.create dir name inode w.clock).2
      (.inode (w.tree.create dir name inode w.clock).1)
  | again {file n : Nat} {o o' : Object} (ho : w.object? file = some o) (hn : o.pipe? = some n)
      (hn' : o'.pipe? = some n) : w.Yields mode w.tree o'
  | text (content : Bytes) : w.Yields mode w.tree (.text content)
  | shown (hwrite : ¬mode.write) : w.Yields mode w.tree (.inode FileTree.root)

/-- Asked by process `pid` to move a process, the system moves this one to this group. -/
def moved (pid target group : Pid) : Pid × Pid :=
  let who := if target = 0 then pid else target
  (who, if group = 0 then who else group)

/-- What a call of `p` makes of the world. -/
inductive Effect (w : World) (p : Process) : Call → World → Prop where
  | same (c : Call) : w.Effect p c w
  | changes {c : Call} (hc : c.isFiling) (tree : FileTree) : w.Effect p c { w with tree }
  | opens {path : Bytes} {mode : OpenMode} {bits : Nat} {tree : FileTree} {o : Object}
      (ho : w.Yields mode tree o) :
    w.Effect p (.open path mode bits) ({ w with tree }.install p (fileOn o mode)).1
  | reads {fd count id : Nat} {f : OpenFile} (hf : w.openFile? p fd = some (id, f))
      (offset : Nat) : w.Effect p (.read fd count) (w.setFile id { f with offset })
  | drains (fd count : Nat) (pipes : Std.TreeMap Nat Bytes) :
    w.Effect p (.read fd count) { w with pipes }
  | writes {fd id : Nat} {text : Bytes} {f : OpenFile} (hf : w.openFile? p fd = some (id, f))
      (tree : FileTree) (offset : Nat) :
    w.Effect p (.write fd text) ({ w with tree }.setFile id { f with offset })
  | fills (fd : Nat) (text : Bytes) (pipes : Std.TreeMap Nat Bytes) :
    w.Effect p (.write fd text) { w with pipes }
  | breaks (fd : Nat) (text : Bytes) : w.Effect p (.write fd text) (w.raise p.pid Signal.pipe)
  | seeks {fd id : Nat} {shift : Int} {whence : Whence} {f : OpenFile}
      (hf : w.openFile? p fd = some (id, f)) (offset : Nat) :
    w.Effect p (.seek fd shift whence) (w.setFile id { f with offset })
  | joins (descriptors : Descriptors) :
    w.Effect p .pipe (w.addPipe.2.2.setProcess { p with descriptors })
  | closes (fd : Nat) : w.Effect p (.close fd) (w.setProcess { p with
      descriptors := p.descriptors.erase fd, closing := p.closing.filter (· ≠ fd) })
  | copies {fd least id : Nat} (hid : p.descriptors.get? fd = some id) :
    w.Effect p (.copyAbove fd least) (w.setProcess { p with
      descriptors := p.descriptors.set (p.descriptors.free least) id
      closing := p.descriptors.free least :: p.closing })
  | repeats {fd target : Nat} {descriptors : Descriptors} (hne : fd ≠ target)
      (hd : p.descriptors.dup2? fd target = some descriptors) :
    w.Effect p (.dup2 fd target) (w.setProcess { p with
      descriptors, closing := p.closing.filter (· ≠ target) })
  | stands (path : Bytes) (directory : Place) :
    w.Effect p (.chdir path) (w.setProcess { p with directory })
  | masks (bits umask : Nat) : w.Effect p (.umask bits) (w.setProcess { p with umask })
  | moves {target group who place : Pid} {q : Process} (hq : w.process? who = some q) :
    w.Effect p (.setGroup target group) (w.setProcess { q with group := place })
  | collects (which : Option Pid) (block : Bool) {children : Children}
      (h : children ⊆ p.children) :
    w.Effect p (.wait which block) (w.setProcess { p with children })
  | sends (pid : Int) (signal : Nat) (pids : List Pid) :
    w.Effect p (.kill pid signal) (pids.foldl (·.raise · signal) w)
  | disposes (signal : Nat) (d : Disposition) : w.Effect p (.dispose signal d)
      (w.setProcess { p with
        signals := p.signals.dispose signal d
        farewell := if signal = Signal.interrupt then none else p.farewell })
  | unblocks (signal : Nat) : w.Effect p (.unblock signal)
      (w.setProcess { p with signals := p.signals.unblock signal })
  | catches : w.Effect p .caught (w.setProcess { p with caught := [], interrupted := false })
  | sleeps (nanos : Nat) (wake : Option Nat) :
    w.Effect p (.sleep nanos) (w.setProcess { p with wake })
  | executes (path : Bytes) (args env : List Bytes) (program : Act) (name : Bytes) (i : Ino) :
    w.Effect p (.exec path args env) (w.setProcess { p with
      program := some program, name, image := some i
      descriptors := p.descriptors.filter fun (fd, _) => fd ∉ p.closing, closing := []
      signals := p.signals.onExec, caught := [], interrupted := false, farewell := none })

variable {w : World} {p : Process}

/-! ## Opening -/

theorem openInode_cases (w : World) (p : Process) (i : Ino) (mode : OpenMode) :
    (∃ e, w.openInode p i mode = (w, .error e)) ∨
    ∃ tree o, w.Yields mode tree o ∧
      w.openInode p i mode = { w with tree }.install p (fileOn o mode) := by
  unfold openInode
  split
  · exact .inl ⟨_, rfl⟩
  rename_i inode hi
  split
  · exact .inl ⟨_, rfl⟩
  split
  · exact .inl ⟨_, rfl⟩
  split
  · exact .inl ⟨_, rfl⟩
  split
  · exact .inl ⟨_, rfl⟩
  dsimp only
  split
  · split
    · exact .inr ⟨_, _, .emptied hi, rfl⟩
    · rename_i hkept
      exact .inr ⟨_, _, .kept hi fun _ _ => hkept, rfl⟩
  · rename_i hnode
    exact .inr ⟨_, _, .kept hi fun content heq => absurd heq (hnode content), rfl⟩

theorem openNew_cases (w : World) (p : Process) (dir : Ino) (name : Bytes) (mode : OpenMode)
    (bits : Nat) :
    (∃ e, w.openNew p dir name mode bits = (w, .error e)) ∨
    ∃ tree o, w.Yields mode tree o ∧
      w.openNew p dir name mode bits = { w with tree }.install p (fileOn o mode) := by
  unfold openNew
  split
  · exact .inl ⟨_, rfl⟩
  · exact .inr ⟨_, _, .made dir name rfl, rfl⟩

theorem openAgain_cases (w : World) (p : Process) (file : Nat) (mode : OpenMode) :
    (∃ e, w.openAgain p file mode = (w, .error e)) ∨
    ∃ tree o, w.Yields mode tree o ∧
      w.openAgain p file mode = { w with tree }.install p (fileOn o mode) := by
  unfold openAgain
  split
  · exact .inl ⟨_, rfl⟩
  rename_i f hf
  have hobject : w.object? file = some f.object := by rw [object?, hf, Option.map_some]
  split
  · exact w.openInode_cases p _ mode
  · rename_i n hn
    refine .inr ⟨_, _, .again hobject (n := n) (by rw [hn]; rfl) ?_, rfl⟩
    split <;> rfl
  · rename_i n hn
    refine .inr ⟨_, _, .again hobject (n := n) (by rw [hn]; rfl) ?_, rfl⟩
    split <;> rfl
  · exact .inr ⟨_, _, .text _, rfl⟩

/-- A path is not opened unless a descriptor is free. -/
theorem open_cases (w : World) (p : Process) (path : Bytes) (mode : OpenMode) (bits : Nat) :
    (∃ e, w.open_ p path mode bits = (w, .error e)) ∨
    ¬p.descriptors.free ≥ p.limit ∧ ∃ tree o, w.Yields mode tree o ∧
      w.open_ p path mode bits = { w with tree }.install p (fileOn o mode) := by
  unfold open_
  split
  · exact .inl ⟨_, rfl⟩
  split
  · exact .inl ⟨_, rfl⟩
  rename_i hfree
  dsimp only
  split
  · exact .inl ⟨_, rfl⟩
  · exact (w.openNew_cases p _ _ mode bits).imp_right fun h => ⟨hfree, h⟩
  · exact (w.openInode_cases p _ mode).imp_right fun h => ⟨hfree, h⟩
  · exact (w.openAgain_cases p _ mode).imp_right fun h => ⟨hfree, h⟩
  · split
    · exact .inl ⟨_, rfl⟩
    · rename_i hread
      split
      · exact .inr ⟨hfree, _, _, .text _, rfl⟩
      · exact .inr ⟨hfree, _, _, .shown hread, rfl⟩
      · exact .inl ⟨_, rfl⟩

theorem effect_open (path : Bytes) (mode : OpenMode) (bits : Nat) :
    w.Effect p (.open path mode bits) (w.open_ p path mode bits).1 := by
  rcases w.open_cases p path mode bits with ⟨e, h⟩ | ⟨-, tree, o, ho, h⟩
  · rw [h]
    exact .same _
  · rw [h]
    exact .opens ho

/-! ## Open files -/

theorem effect_close (fd : Nat) : w.Effect p (.close fd) (w.close p fd).1 := by
  unfold close
  split
  · exact .closes fd
  · exact .same _

theorem effect_read (fd count : Nat) : (w.read p fd count).All (w.Effect p (.read fd count)) := by
  unfold read
  split
  · exact .same _
  rename_i id f hf
  split
  · exact .same _
  dsimp only
  split
  · exact .reads hf _
  · exact .same _
  · split
    · split <;> exact .same _
    · exact .drains fd count _
  · split
    · exact .reads hf _
    · exact .same _
    · exact .same _
    · exact .same _

theorem effect_write (fd : Nat) (text : Bytes) :
    (w.write p fd text).All (w.Effect p (.write fd text)) := by
  unfold write
  split
  · exact .same _
  rename_i id f hf
  split
  · exact .same _
  split
  · exact .same _
  · exact .same _
  · split
    · exact .breaks fd text
    · dsimp only
      split
      · exact .same _
      · exact .fills fd text _
  · split
    · split
      · exact .same _
      · exact .same _
      · exact .writes hf _ _
      · exact .same _
    · exact .same _

/-- Whoever seeks moves the open file, or is refused. -/
theorem seek_cases (w : World) (p : Process) (fd : Nat) (offset : Int) (whence : Whence) :
    (∃ e, w.seek p fd offset whence = (w, .error e)) ∨ ∃ k g n, w.openFile? p fd = some (k, g) ∧
      w.seek p fd offset whence = (w.setFile k { g with offset := n }, .ok n) := by
  unfold seek
  cases hopen : w.openFile? p fd with
  | none => exact .inl ⟨_, rfl⟩
  | some r =>
    obtain ⟨k, g⟩ := r
    dsimp only
    split
    · exact .inl ⟨_, rfl⟩
    · exact .inl ⟨_, rfl⟩
    · have hmoved (start : Nat) :
          let target := (start : Int) + offset
          let r : World × Except Errno Nat := if target < 0 then (w, .error .EINVAL)
            else (w.setFile k { g with offset := target.toNat }, .ok target.toNat)
          (∃ e, r = (w, .error e)) ∨ ∃ k' g' n, some (k, g) = some (k', g') ∧
            r = (w.setFile k' { g' with offset := n }, .ok n) := by
        dsimp only
        split
        · exact .inl ⟨_, rfl⟩
        · exact .inr ⟨k, g, _, rfl, rfl⟩
      exact hmoved _

theorem effect_seek (fd : Nat) (offset : Int) (whence : Whence) :
    w.Effect p (.seek fd offset whence) (w.seek p fd offset whence).1 := by
  rcases w.seek_cases p fd offset whence with ⟨e, h⟩ | ⟨k, g, n, hopen, h⟩
  · rw [h]
    exact .same _
  · rw [h]
    exact .seeks hopen n

theorem effect_truncateFile (fd size : Nat) :
    w.Effect p (.truncate fd size) (w.truncateFile p fd size).1 := by
  unfold truncateFile
  split
  · exact .same _
  · split
    · split
      · exact .changes rfl _
      · exact .same _
    · exact .same _

theorem effect_makePipe : w.Effect p .pipe (w.makePipe p).1 := by
  unfold makePipe
  dsimp only
  split
  · exact .same _
  · exact .joins _

theorem effect_copyAbove (fd least : Nat) :
    w.Effect p (.copyAbove fd least) (w.copyAbove p fd least).1 := by
  unfold copyAbove
  split
  · exact .same _
  · rename_i hid
    dsimp only
    split
    · exact .same _
    · exact .copies hid

theorem effect_dup2 (fd target : Nat) : w.Effect p (.dup2 fd target) (w.dup2 p fd target).1 := by
  unfold dup2
  split
  · exact .same _
  · rename_i hd
    split
    · exact .same _
    · split
      · exact .same _
      · rename_i hne
        exact .repeats hne hd

/-! ## Names -/

theorem onlyTree_error (w : World) (e : Errno) : w.OnlyTree (.error e) := nofun

theorem onlyTree_ok (w : World) (tree : FileTree) : w.OnlyTree (.ok { w with tree }) := by
  rintro w' h
  obtain rfl := Except.ok.inj h
  exact ⟨tree, rfl⟩

theorem onlyTree_bind {α : Type} (x : Except Errno α) {f : α → Except Errno World}
    (h : ∀ a, w.OnlyTree (f a)) : w.OnlyTree (x >>= f) := by
  cases x with
  | error e => exact onlyTree_error w e
  | ok a => exact h a

/-- A check that may end the call. -/
theorem onlyTree_check {c : Prop} [Decidable c] {e : Errno} {f : PUnit → Except Errno World}
    (h : w.OnlyTree (f ⟨⟩)) : w.OnlyTree (if c then Except.error e >>= f else f ⟨⟩) := by
  split
  · exact onlyTree_error w e
  · exact h

theorem onlyTree_mkdir (path : Bytes) (bits : Nat) : w.OnlyTree (w.mkdir p path bits) := by
  unfold mkdir
  refine onlyTree_bind _ fun _ => onlyTree_check (onlyTree_bind _ fun _ => ?_)
  exact onlyTree_ok w _

theorem onlyTree_rmdir (path : Bytes) : w.OnlyTree (w.rmdir p path) := by
  unfold rmdir
  refine onlyTree_bind _ fun l => onlyTree_check (onlyTree_check (onlyTree_bind _ fun _ => ?_))
  dsimp only
  split
  · exact onlyTree_error w _
  · refine onlyTree_bind _ fun _ => ?_
    split
    · exact onlyTree_ok w _
    · exact onlyTree_error w _
    · exact onlyTree_error w _

theorem onlyTree_unlink (path : Bytes) : w.OnlyTree (w.unlink p path) := by
  unfold unlink
  refine onlyTree_bind _ fun _ => ?_
  dsimp only
  split
  · exact onlyTree_error w _
  · refine onlyTree_check (onlyTree_bind _ fun _ => onlyTree_check ?_)
    exact onlyTree_ok w _

theorem onlyTree_rename (old new : Bytes) : w.OnlyTree (w.rename p old new) := by
  unfold rename
  refine onlyTree_bind _ fun _ => onlyTree_bind _ fun _ => ?_
  split
  split
  · exact onlyTree_error w _
  · refine onlyTree_check (onlyTree_check (onlyTree_bind _ fun _ => onlyTree_bind _ fun _ => ?_))
    split
    · exact onlyTree_ok w w.tree
    · split
      · refine onlyTree_check (onlyTree_check (onlyTree_check ?_))
        exact onlyTree_ok w _
      · exact onlyTree_ok w _

theorem onlyTree_link (old new : Bytes) : w.OnlyTree (w.link p old new) := by
  unfold link
  refine onlyTree_bind _ fun _ => ?_
  split
  · refine onlyTree_check (onlyTree_bind _ fun _ => onlyTree_check (onlyTree_check
      (onlyTree_bind _ fun _ => ?_)))
    exact onlyTree_ok w _
  · exact onlyTree_error w _

theorem onlyTree_symlink (target path : Bytes) : w.OnlyTree (w.symlink p target path) := by
  unfold symlink
  refine onlyTree_check (onlyTree_bind _ fun _ => onlyTree_check (onlyTree_check
    (onlyTree_bind _ fun _ => ?_)))
  exact onlyTree_ok w _

theorem onlyTree_changeOwn (path : Bytes) (f : Inode → Inode) :
    w.OnlyTree (w.changeOwn p path f) := by
  unfold changeOwn
  refine onlyTree_bind _ fun place => ?_
  cases place <;> refine onlyTree_bind _ fun i => ?_
  all_goals
    dsimp only
    split
    · split
      · exact onlyTree_ok w _
      · exact onlyTree_error w _
    · exact onlyTree_error w _

theorem effect_ofChange {c : Call} (hc : c.isFiling) {r : Except Errno World}
    (h : w.OnlyTree r) : (Outcome.ofChange w r).All (w.Effect p c) := by
  cases r with
  | error e => exact .same c
  | ok w' =>
    obtain ⟨tree, rfl⟩ := h w' rfl
    exact .changes hc tree

/-- A change of directory that fails changes nothing, and one that succeeds nothing else. -/
theorem chdir_cases (w : World) (p : Process) (path : Bytes) :
    (∃ e, w.chdir p path = (w, .error e)) ∨
      ∃ directory, w.chdir p path = (w.setProcess { p with directory }, .ok ()) := by
  unfold chdir
  dsimp only
  split
  · exact .inl ⟨_, rfl⟩
  · split
    · exact .inl ⟨_, rfl⟩
    · exact .inr ⟨_, rfl⟩

theorem effect_chdir (path : Bytes) : w.Effect p (.chdir path) (w.chdir p path).1 := by
  rcases w.chdir_cases p path with ⟨e, h⟩ | ⟨directory, h⟩
  · rw [h]
    exact .same _
  · rw [h]
    exact .stands path directory

/-! ## Processes -/

theorem setGroup_cases (w : World) (p : Process) (target group : Pid) :
    (w.setGroup p target group).1 = w ∨ ∃ who place q, moved p.pid target group = (who, place) ∧
      w.process? who = some q ∧
      w.setGroup p target group = (w.setProcess { q with group := place }, .ok ()) := by
  unfold setGroup moved
  dsimp only
  generalize (if target = 0 then p.pid else target) = who
  generalize (if group = 0 then who else group) = place
  split
  · exact .inl rfl
  · cases hq : w.process? who with
    | none => exact .inl rfl
    | some q =>
      dsimp only
      split
      · exact .inl rfl
      · split
        · exact .inl rfl
        · split
          · exact .inl rfl
          · exact .inr ⟨_, _, q, rfl, hq, rfl⟩

theorem effect_setGroup (target group : Pid) :
    w.Effect p (.setGroup target group) (w.setGroup p target group).1 := by
  rcases w.setGroup_cases p target group with h | ⟨who, place, q, -, hq, h⟩
  · rw [h]
    exact .same _
  · rw [h]
    exact .moves hq

theorem effect_kill (pid : Int) (signal : Nat) :
    w.Effect p (.kill pid signal) (w.kill p pid signal).1 := by
  unfold kill
  split
  · exact .same _
  · split
    · exact .same _
    · split
      · exact .same _
      · dsimp only
        split
        · exact .same _
        · exact .sends pid signal _

theorem effect_dispose (signal : Nat) (d : Disposition) :
    w.Effect p (.dispose signal d) (w.dispose p signal d).1 := by
  unfold dispose
  split
  · exact .same _
  · exact .disposes signal d

theorem effect_wait (which : Option Pid) (block : Bool) :
    (w.wait p which block).All (w.Effect p (.wait which block)) := by
  unfold wait
  dsimp only
  split
  · exact .same _
  · split <;> exact .same _
  · refine .collects which block ?_
    cases which with
    | none => exact p.children.waitAny_subset
    | some pid => exact p.children.waitFor_subset pid

theorem effect_sleep (nanos : Nat) : (w.sleep p nanos).All (w.Effect p (.sleep nanos)) := by
  unfold sleep
  split
  · split
    · exact .same _
    · exact .sleeps nanos _
  · split
    · exact .sleeps nanos _
    · exact .same _

theorem effect_exec (path : Bytes) (args env : List Bytes) :
    (w.exec p path args env).All (w.Effect p (.exec path args env)) := by
  unfold exec
  split
  · exact .same _
  · exact .executes path args env _ _ _

/-! ## All calls -/

theorem effect_perform (w : World) (p : Process) (c : Call) : (w.perform p c).All (w.Effect p c) := by
  cases c with
  | «open» path mode bits => exact effect_open path mode bits
  | close fd => exact effect_close fd
  | read fd count => exact effect_read fd count
  | write fd text => exact effect_write fd text
  | seek fd offset whence => exact effect_seek fd offset whence
  | truncate fd size => exact effect_truncateFile fd size
  | pipe => exact effect_makePipe
  | copyAbove fd least => exact effect_copyAbove fd least
  | dup2 fd target => exact effect_dup2 fd target
  | chdir path => exact effect_chdir path
  | mkdir path bits => exact effect_ofChange rfl (onlyTree_mkdir path bits)
  | rmdir path => exact effect_ofChange rfl (onlyTree_rmdir path)
  | unlink path => exact effect_ofChange rfl (onlyTree_unlink path)
  | rename old new => exact effect_ofChange rfl (onlyTree_rename old new)
  | link old new => exact effect_ofChange rfl (onlyTree_link old new)
  | symlink target path => exact effect_ofChange rfl (onlyTree_symlink target path)
  | chmod path bits => exact effect_ofChange rfl (onlyTree_changeOwn path _)
  | touch path time => exact effect_ofChange rfl (onlyTree_changeOwn path _)
  | umask bits => exact .masks bits _
  | setGroup target group => exact effect_setGroup target group
  | wait which block => exact effect_wait which block
  | kill pid signal => exact effect_kill pid signal
  | dispose signal d => exact effect_dispose signal d
  | unblock signal => exact .unblocks signal
  | caught => exact .catches
  | sleep nanos => exact effect_sleep nanos
  | exec path args env => exact effect_exec path args env
  | stat | fstat | access | list | getcwd | readlink | self | parent | disposition | now =>
    exact .same _

variable {w' : World} {c : Call}

theorem effect_of_done {reply : c.Reply} (h : w.perform p c = .done w' reply) :
    w.Effect p c w' := by
  have heffect := w.effect_perform p c
  rw [h] at heffect
  exact heffect

theorem effect_of_wait (h : w.perform p c = .wait w') : w.Effect p c w' := by
  have heffect := w.effect_perform p c
  rw [h] at heffect
  exact heffect

theorem effect_of_become (h : w.perform p c = .become w') : w.Effect p c w' := by
  have heffect := w.effect_perform p c
  rw [h] at heffect
  exact heffect

end World

end JobShell
