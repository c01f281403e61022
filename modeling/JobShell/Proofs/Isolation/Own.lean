import JobShell.Proofs.Wiring.Calls

/-!
# What a process has to itself

Other processes may send a process signals, move it to another group, end as its children or leave
it to another parent. All else about it is its own, and so is what its descriptors refer to.

* `Process.own`: a process without what others may change.
* `World.Grows`: open files refer to what they did, and numbers that are given stay given.
* `World.Leaves`: the world grows, no process is made, and some of the processes keep what is their
  own. Most of what the system does is of this kind.
* `World.Untouched`: the world grows and one process keeps what is its own.
* `leaves_finish`, `leaves_takeSignals`, `untouched_fork`: ends, signals and forks.
-/

namespace JobShell

/-- The signal state without the signals that wait. -/
def Signals.settings (s : Signals) : Signals := { s with pending := [] }

/-- A process without what others may change. -/
def Process.own (p : Process) : Process :=
  { p with
    parent := 0, group := 0, children := [], stopped := false, signals := p.signals.settings }

/-- The process that a fork of `p` makes. -/
def Process.forked (p : Process) (pid : Pid) (program : Act) : Process :=
  { p with
    pid, parent := p.pid, program := some program, children := [], wake := none, caught := []
    interrupted := false, signals := p.signals.onFork }

@[simp] theorem Process.pid_forked (p : Process) (pid : Pid) (program : Act) :
    (p.forked pid program).pid = pid := rfl

namespace World

def own? (w : World) (pid : Pid) : Option Process := (w.process? pid).map Process.own

/-- Open files refer to what they did, and no number is given a second time. -/
structure Grows (w w' : World) : Prop where
  keyed : w.Keyed → w'.Keyed
  objects : ∀ id, id < w.nextFile → w'.object? id = w.object? id
  nextFile : w.nextFile ≤ w'.nextFile
  nextPid : w.nextPid ≤ w'.nextPid

/-- No process is made, and those in `who` keep what is their own. -/
structure Leaves (w w' : World) (who : Pid → Prop) : Prop extends Grows w w' where
  own : ∀ q, who q → w'.own? q = w.own? q
  nextPid_eq : w'.nextPid = w.nextPid

/-- All processes keep what is their own. -/
abbrev LeavesAll (w w' : World) : Prop := w.Leaves w' fun _ => True

/-- Process `q` keeps what is its own. -/
structure Untouched (w w' : World) (q : Pid) : Prop extends Grows w w' where
  own : w'.own? q = w.own? q

variable {w w' w'' : World} {who : Pid → Prop} {p q : Process} {pid r : Pid}

theorem Grows.refl (w : World) : w.Grows w := ⟨id, fun _ _ => rfl, Nat.le_refl _, Int.le_refl _⟩

theorem Grows.trans (h : w.Grows w') (h' : w'.Grows w'') : w.Grows w'' where
  keyed hk := h'.keyed (h.keyed hk)
  objects id hid :=
    (h'.objects id (Nat.lt_of_lt_of_le hid h.nextFile)).trans (h.objects id hid)
  nextFile := Nat.le_trans h.nextFile h'.nextFile
  nextPid := Int.le_trans h.nextPid h'.nextPid

theorem Leaves.refl (w : World) (who : Pid → Prop) : w.Leaves w who :=
  ⟨.refl w, fun _ _ => rfl, rfl⟩

theorem Leaves.trans (h : w.Leaves w' who) (h' : w'.Leaves w'' who) : w.Leaves w'' who :=
  ⟨h.toGrows.trans h'.toGrows, fun q hq => (h'.own q hq).trans (h.own q hq),
    h'.nextPid_eq.trans h.nextPid_eq⟩

theorem Leaves.mono {fewer : Pid → Prop} (h : w.Leaves w' who) (hsub : ∀ q, fewer q → who q) :
    w.Leaves w' fewer :=
  { h with own := fun q hq => h.own q (hsub q hq) }

theorem Untouched.refl (w : World) (pid : Pid) : w.Untouched w pid := ⟨.refl w, rfl⟩

theorem Untouched.trans (h : w.Untouched w' pid) (h' : w'.Untouched w'' pid) :
    w.Untouched w'' pid :=
  ⟨h.toGrows.trans h'.toGrows, h'.own.trans h.own⟩

theorem Leaves.untouched (h : w.Leaves w' who) (hpid : who pid) : w.Untouched w' pid :=
  ⟨h.toGrows, h.own pid hpid⟩

theorem own?_eq_some (hp : w.process? pid = some p) : w.own? pid = some p.own := by
  rw [own?, hp]
  rfl

/-- A process that keeps what is its own lives on. -/
theorem exists_of_own?_eq (h : w'.own? pid = w.own? pid) (hp : w'.process? pid = some p) :
    ∃ q, w.process? pid = some q ∧ p.own = q.own := by
  rw [own?_eq_some hp] at h
  obtain ⟨q, hq, heq⟩ := Option.map_eq_some_iff.1 h.symm
  exact ⟨q, hq, heq.symm⟩

/-! ## Changes of one process -/

theorem own?_setProcess (w : World) (p : Process) (r : Pid) :
    (w.setProcess p).own? r = if p.pid = r then some p.own else w.own? r := by
  rw [own?, process?_setProcess]
  split <;> rfl

theorem leaves_setProcess (w : World) (hpid : p.pid = pid) :
    w.Leaves (w.setProcess p) (· ≠ pid) where
  keyed hk := keyed_setProcess hk p
  objects _ _ := rfl
  nextFile := Nat.le_refl _
  nextPid := Int.le_refl _
  own r hr := by rw [own?_setProcess, hpid, if_neg (Ne.symm hr)]
  nextPid_eq := rfl

/-- A change of a process that others may make. -/
theorem leavesAll_update (hk : w.Keyed) (hp : w.process? pid = some p) (hq : q.own = p.own) :
    w.LeavesAll (w.setProcess q) := by
  refine { leaves_setProcess w rfl with own := fun r _ => ?_ }
  rw [own?_setProcess]
  split
  · rename_i hr
    have hpid : q.pid = pid := (congrArg (·.pid) hq : q.pid = p.pid).trans (hk.pid_eq hp)
    rw [← hr, hpid, own?_eq_some hp, hq]
  · rfl

theorem leaves_modifyProcess (hk : w.Keyed) (pid : Pid) {f : Process → Process}
    (hf : ∀ p, (f p).pid = p.pid) :
    w.Leaves (w.modifyProcess pid f) (· ≠ pid) := by
  unfold modifyProcess
  split
  · rename_i p hp
    exact leaves_setProcess w ((hf p).trans (hk.pid_eq hp))
  · exact .refl w _

theorem leavesAll_modifyProcess (hk : w.Keyed) (pid : Pid) {f : Process → Process}
    (hf : ∀ p, (f p).own = p.own) : w.LeavesAll (w.modifyProcess pid f) := by
  unfold modifyProcess
  split
  · rename_i p hp
    exact leavesAll_update hk hp (hf p)
  · exact .refl w _

theorem process?_modifyProcess (hk : w.Keyed) {f : Process → Process}
    (hf : ∀ p, (f p).pid = p.pid) :
    (w.modifyProcess pid f).process? pid = (w.process? pid).map f := by
  unfold modifyProcess
  cases hp : w.process? pid with
  | none => exact hp
  | some p =>
    rw [process?_setProcess, hf, hk.pid_eq hp, if_pos rfl]
    rfl

/-! ## Signals -/

@[simp] theorem settings_raise (s : Signals) (n : Nat) : (s.raise n).settings = s.settings := by
  unfold Signals.raise
  split
  · rfl
  · split <;> rfl

theorem leavesAll_raise (hk : w.Keyed) (pid : Pid) (n : Nat) : w.LeavesAll (w.raise pid n) := by
  refine leavesAll_modifyProcess hk pid fun p => ?_
  unfold Process.own
  simp only [settings_raise]

theorem leavesAll_foldl_raise (pids : List Pid) (n : Nat) (hk : w.Keyed) :
    w.LeavesAll (pids.foldl (·.raise · n) w) := by
  induction pids generalizing w with
  | nil => exact .refl w _
  | cons pid rest ih =>
    have h := leavesAll_raise hk pid n
    exact h.trans (ih (h.keyed hk))

/-! ## Ends -/

theorem own?_erase (w : World) (pid r : Pid) :
    { w with processes := w.processes.erase pid }.own? r =
      if pid = r then none else w.own? r := by
  by_cases h : pid = r <;> simp [own?, process?, Std.TreeMap.getElem?_erase, h]

theorem leaves_erase (w : World) (pid : Pid) :
    w.Leaves { w with processes := w.processes.erase pid } (· ≠ pid) where
  keyed hk r g hg := by
    rw [grip?_erase] at hg
    split at hg
    · cases hg
    · exact hk r g hg
  objects _ _ := rfl
  nextFile := Nat.le_refl _
  nextPid := Int.le_refl _
  own r hr := by rw [own?_erase, if_neg (Ne.symm hr)]
  nextPid_eq := rfl

theorem leavesAll_foldl_modifyProcess {f : Process → Process} (hf : ∀ p, (f p).own = p.own)
    (cs : Children) (hk : w.Keyed) :
    w.LeavesAll (cs.foldl (fun w c => w.modifyProcess c.pid f) w) := by
  induction cs generalizing w with
  | nil => exact .refl w _
  | cons c rest ih =>
    have h := leavesAll_modifyProcess hk c.pid hf
    exact h.trans (ih (h.keyed hk))

theorem leaves_finish (hk : w.Keyed) (pid : Pid) (e : Ending) :
    w.Leaves (w.finish pid e) (· ≠ pid) := by
  unfold finish
  split
  · exact .refl w _
  · rename_i p hp
    have h0 := leaves_erase w pid
    have h1 := leavesAll_foldl_modifyProcess (f := fun q => { q with parent := adopter })
      (fun _ => rfl) p.children (h0.keyed hk)
    have h2 := leavesAll_modifyProcess (h1.keyed (h0.keyed hk)) p.parent (f := fun q =>
      if q.signals.disposition Signal.child = .ignored then
        { q with children := q.children.filter (·.pid ≠ pid) }
      else { q with children := q.children.finish pid e }) (fun q => by split <;> rfl)
    have h3 := leavesAll_raise (h2.keyed (h1.keyed (h0.keyed hk))) p.parent Signal.child
    exact h0.trans ((h1.trans (h2.trans h3)).mono fun _ _ => trivial)

theorem process?_finish (hk : w.Keyed) (pid : Pid) (e : Ending) :
    (w.finish pid e).process? pid = none := by
  have h := grip?_finish hk pid e pid
  rw [if_pos rfl, grip?] at h
  exact Option.map_eq_none_iff.1 h

/-! ## Taking signals -/

theorem leaves_takeSignal (hk : w.Keyed) (p : Process) (n : Nat) :
    w.Leaves (w.takeSignal p n) (· ≠ p.pid) := by
  unfold takeSignal
  dsimp only
  split
  · exact leaves_setProcess w rfl
  · exact leaves_setProcess w rfl
  · split
    · have h := leaves_setProcess (p := { p with signals := p.signals.take n }) w rfl
      exact h.trans (leaves_finish (h.keyed hk) p.pid _)
    · exact leaves_setProcess w rfl
    · exact leaves_setProcess w rfl
    · exact leaves_setProcess w rfl

/-- A process that does not handle the signal it takes keeps what is its own, if it lives on. -/
theorem own_takeSignal (hk : w.Keyed) {n : Nat} (hd : p.signals.disposition n ≠ .handled)
    (hq : (w.takeSignal p n).process? p.pid = some q) : q.own = p.own := by
  have hset {r : Process} (hq : (w.setProcess r).process? p.pid = some q) (hpid : r.pid = p.pid)
      (hown : r.own = p.own) : q.own = p.own := by
    rw [process?_setProcess, if_pos hpid] at hq
    obtain rfl := Option.some.inj hq
    exact hown
  unfold takeSignal at hq
  dsimp only at hq
  split at hq
  · exact hset hq rfl rfl
  · rename_i hhandled
    exact absurd hhandled hd
  · split at hq
    · rw [process?_finish (keyed_setProcess hk _)] at hq
      cases hq
    · exact hset hq rfl rfl
    · exact hset hq rfl rfl
    · exact hset hq rfl rfl

theorem leaves_takeSignals (hk : w.Keyed) (n : Nat) (pid : Pid) :
    w.Leaves (w.takeSignals n pid) (· ≠ pid) := by
  refine takeSignals_induction (motive := fun w w' => w.Keyed → w.Leaves w' (· ≠ pid))
    (fun w _ => .refl w _) (fun w w' p s hp _ ih hk => ?_) n w hk
  have h := leaves_takeSignal hk p s
  rw [hk.pid_eq hp] at h
  exact h.trans (ih (h.keyed hk))

/-! ## Forks -/

theorem fork_snd (w : World) (p : Process) (program : Act) :
    (w.fork p program).2 =
      ({ w with nextPid := w.nextPid + 1 }.setProcess (p.forked w.nextPid program)).modifyProcess
        p.pid fun q => { q with children := q.children.add w.nextPid } := rfl

/-- A fork makes a process and leaves all others. -/
theorem leavesAll_fork (hk : w.Keyed) (p : Process) (program : Act) :
    ({ w with nextPid := w.nextPid + 1 }.setProcess (p.forked w.nextPid program)).LeavesAll
      (w.fork p program).2 := by
  have hkeyed : World.Keyed { w with nextPid := w.nextPid + 1 } := hk
  rw [fork_snd]
  exact leavesAll_modifyProcess (keyed_setProcess hkeyed _) _ fun _ => rfl

theorem grows_fork (hk : w.Keyed) (p : Process) (program : Act) : w.Grows (w.fork p program).2 := by
  have hgrows : w.Grows { w with nextPid := w.nextPid + 1 } :=
    ⟨id, fun _ _ => rfl, Nat.le_refl _, Int.le_of_lt (Int.lt_succ _)⟩
  have hset := leaves_setProcess (p := p.forked w.nextPid program)
    { w with nextPid := w.nextPid + 1 } rfl
  exact hgrows.trans (hset.toGrows.trans (leavesAll_fork hk p program).toGrows)

theorem own?_fork (hk : w.Keyed) (p : Process) (program : Act) (r : Pid) :
    (w.fork p program).2.own? r =
      if r = w.nextPid then some (p.forked w.nextPid program).own else w.own? r := by
  rw [(leavesAll_fork hk p program).own r trivial, own?_setProcess, Process.pid_forked]
  by_cases hr : r = w.nextPid
  · rw [if_pos hr, if_pos hr.symm]
  · rw [if_neg hr, if_neg (Ne.symm hr)]
    rfl

theorem untouched_fork (hk : w.Keyed) (p : Process) (program : Act) (hr : r ≠ w.nextPid) :
    w.Untouched (w.fork p program).2 r :=
  ⟨grows_fork hk p program, by rw [own?_fork hk, if_neg hr]⟩

end World

end JobShell
