import JobShell.Proofs.Isolation.Calls

/-!
# Parents and children

Only forks, ends and waits change who is whose child, and a wait changes only the table of the
process that waits.

* `World.Akin`: from one world to another, a process may have collected children, and nothing else
  has happened to parents and children.
* `World.Effect.kin?_eq_or`: a call leaves parents and children as they are, or is a wait.
  `World.Effect.akin`: so every call is such.
* `World.takeSignal_cases`: what a signal does to a process that takes it.
* `World.akin_or_finish`: a process that takes its signals is such, or a signal ends it.
-/

namespace JobShell

/-- The parent of a process and its children. -/
def Process.kin (p : Process) : Pid × Children := (p.parent, p.children)

/-- A process whose parent has ended. -/
def Process.adopted (p : Process) : Process := { p with parent := World.adopter }

/-- A process whose child `pid` has ended. -/
def Process.told (p : Process) (pid : Pid) (e : Ending) : Process :=
  if p.signals.disposition Signal.child = .ignored then
    { p with children := p.children.filter (·.pid ≠ pid) }
  else { p with children := p.children.finish pid e }

namespace World

def kin? (w : World) (pid : Pid) : Option (Pid × Children) := (w.process? pid).map Process.kin

/-- Process `pid` may have collected children; all else about parents and children is kept. -/
structure Akin (w w' : World) (pid : Pid) : Prop where
  others : ∀ r, r ≠ pid → w'.kin? r = w.kin? r
  parent : (w'.process? pid).map Process.parent = (w.process? pid).map Process.parent
  children : ∀ p p', w.process? pid = some p → w'.process? pid = some p' →
    p'.children ⊆ p.children

variable {w w' w₁ : World} {p q : Process} {pid : Pid}

theorem Akin.of_kin? (h : ∀ r, w'.kin? r = w.kin? r) (pid : Pid) : w.Akin w' pid := by
  have hparent := congrArg (Option.map Prod.fst) (h pid)
  simp only [kin?, Option.map_map] at hparent
  refine ⟨fun r _ => h r, hparent, fun p p' hp hp' => ?_⟩
  have hkin := h pid
  rw [kin?, hp', kin?, hp] at hkin
  have hchildren : p'.children = p.children := congrArg Prod.snd (Option.some.inj hkin)
  rw [hchildren]
  exact List.Subset.refl _

theorem Akin.refl (w : World) (pid : Pid) : w.Akin w pid := .of_kin? (fun _ => rfl) pid

/-- What could have been done by any process has been done to none. -/
theorem kin?_eq_of_akin (h : ∀ pid, w.Akin w' pid) (r : Pid) : w'.kin? r = w.kin? r :=
  (h (r + 1)).others r (Int.ne_of_lt (Int.lt_succ r))

theorem Akin.trans (h : w.Akin w₁ pid) (h' : w₁.Akin w' pid) : w.Akin w' pid := by
  refine ⟨fun r hr => (h'.others r hr).trans (h.others r hr), h'.parent.trans h.parent,
    fun p p' hp hp' => ?_⟩
  obtain ⟨p₁, hp₁, -⟩ := Option.map_eq_some_iff.1 (h'.parent.symm.trans (by rw [hp']; rfl))
  exact List.Subset.trans (h'.children p₁ p' hp₁ hp') (h.children p p₁ hp hp₁)

/-- A process lives on. -/
theorem Akin.exists (h : w.Akin w' pid) (hp : w.process? pid = some p) :
    ∃ p', w'.process? pid = some p' := by
  have hparent := h.parent
  rw [hp] at hparent
  obtain ⟨p', hp', -⟩ := Option.map_eq_some_iff.1 hparent
  exact ⟨p', hp'⟩

theorem Akin.eq_none (h : w.Akin w' pid) (hp : w.process? pid = none) :
    w'.process? pid = none := by
  have hparent := h.parent
  rw [hp] at hparent
  exact Option.map_eq_none_iff.1 hparent

/-- A process changes, with files and pipes or without. -/
theorem akin_setProcess (h : w₁.processes = w.processes) (hp : w.process? pid = some p)
    (hpid : q.pid = pid) (hparent : q.parent = p.parent) (hchildren : q.children ⊆ p.children) :
    w.Akin (w₁.setProcess q) pid := by
  have hother (r : Pid) (hr : r ≠ pid) : (w₁.setProcess q).process? r = w.process? r := by
    rw [process?_setProcess, if_neg (fun heq => hr (heq.symm.trans hpid))]
    unfold process?
    rw [h]
  have hself : (w₁.setProcess q).process? pid = some q := by
    rw [process?_setProcess, if_pos hpid]
  refine ⟨fun r hr => by rw [kin?, hother r hr]; rfl, ?_, fun p₀ p' hp₀ hp' => ?_⟩
  · rw [hself, hp]
    exact congrArg some hparent
  · obtain rfl := Option.some.inj (hp.symm.trans hp₀)
    obtain rfl := Option.some.inj (hself.symm.trans hp')
    exact hchildren

theorem akin_same (h : w'.processes = w.processes) (pid : Pid) : w.Akin w' pid :=
  .of_kin? (fun r => by unfold kin? process?; rw [h]) pid

theorem kin?_setProcess (w : World) (p : Process) (r : Pid) :
    (w.setProcess p).kin? r = if p.pid = r then some p.kin else w.kin? r := by
  rw [kin?, process?_setProcess]
  split <;> rfl

theorem kin?_modifyProcess (hk : w.Keyed) (pid : Pid) {f : Process → Process}
    (hf : ∀ p, (f p).pid = p.pid) (r : Pid) :
    (w.modifyProcess pid f).kin? r =
      if r = pid then (w.process? pid).map fun p => (f p).kin else w.kin? r := by
  unfold modifyProcess
  split
  · rename_i p hp
    rw [kin?_setProcess, hf, hk.pid_eq hp]
    by_cases hr : r = pid
    · rw [if_pos hr.symm, if_pos hr, hp]
      rfl
    · rw [if_neg (Ne.symm hr), if_neg hr]
  · rename_i hp
    split
    · rename_i hr
      rw [hr, kin?, hp]
      rfl
    · rfl

/-- A change of some process that has nothing to do with parents and children. -/
theorem akin_modifyProcess (hk : w.Keyed) (r : Pid) {f : Process → Process}
    (hf : ∀ p, (f p).pid = p.pid) (hkin : ∀ p, (f p).kin = p.kin) (pid : Pid) :
    w.Akin (w.modifyProcess r f) pid := by
  refine .of_kin? (fun s => ?_) pid
  rw [kin?_modifyProcess hk r hf]
  split
  · rename_i hs
    rw [hs, kin?]
    simp only [hkin]
  · rfl

theorem akin_raise (hk : w.Keyed) (r : Pid) (n : Nat) (pid : Pid) : w.Akin (w.raise r n) pid :=
  akin_modifyProcess hk r (f := fun p => { p with
    signals := p.signals.raise n
    stopped := p.stopped && n ≠ Signal.resume && n ≠ Signal.kill }) (fun _ => rfl) (fun _ => rfl) pid

theorem akin_foldl_raise (pids : List Pid) (n : Nat) (hk : w.Keyed) (pid : Pid) :
    w.Akin (pids.foldl (·.raise · n) w) pid := by
  induction pids generalizing w with
  | nil => exact .refl w pid
  | cons r rest ih =>
    have hraise := (leavesAll_raise hk r n).keyed hk
    exact (akin_raise hk r n pid).trans (ih hraise)

/-! ## Calls -/

/-- Only a wait is about parents and children. -/
theorem Effect.kin?_eq_or {c : Call} (h : w.Effect p c w') (hk : w.Keyed)
    (hp : w.process? p.pid = some p) :
    (∀ r, w'.kin? r = w.kin? r) ∨ ∃ which block children, c = .wait which block ∧
      children ⊆ p.children ∧ w' = w.setProcess { p with children } := by
  have hset {w₁ : World} (hsame : w₁.processes = w.processes) {who : Pid} {q q' : Process}
      (hq : w.process? who = some q) (hpid : q'.pid = q.pid) (hkin : q'.kin = q.kin) (r : Pid) :
      (w₁.setProcess q').kin? r = w.kin? r := by
    rw [kin?_setProcess, hpid, hk.pid_eq hq, hkin]
    split
    · rename_i hr
      rw [← hr, kin?, hq]
      rfl
    · rw [kin?, process?, hsame]
      rfl
  cases h with
  | same | changes | reads | drains | writes | fills | seeks => exact .inl fun _ => rfl
  | breaks => exact .inl (kin?_eq_of_akin (akin_raise hk _ _))
  | sends _ signal pids => exact .inl (kin?_eq_of_akin (akin_foldl_raise pids signal hk))
  | opens =>
    unfold install
    split
    · exact .inl fun _ => rfl
    · exact .inl (hset rfl hp rfl rfl)
  | joins | closes | copies | repeats | stands | masks | disposes | unblocks | catches | sleeps |
    executes => exact .inl (hset rfl hp rfl rfl)
  | moves hq => exact .inl (hset rfl hq rfl rfl)
  | collects which block hsub => exact .inr ⟨which, block, _, rfl, hsub, rfl⟩

theorem Effect.kin?_eq {c : Call} (h : w.Effect p c w') (hk : w.Keyed)
    (hp : w.process? p.pid = some p) (hc : ∀ which block, c ≠ .wait which block) (r : Pid) :
    w'.kin? r = w.kin? r := by
  rcases h.kin?_eq_or hk hp with hkin | ⟨which, block, _, hwait, -⟩
  · exact hkin r
  · exact absurd hwait (hc which block)

theorem Effect.akin {c : Call} (h : w.Effect p c w') (hk : w.Keyed)
    (hp : w.process? p.pid = some p) : w.Akin w' p.pid := by
  rcases h.kin?_eq_or hk hp with hkin | ⟨-, -, children, -, hsub, rfl⟩
  · exact .of_kin? hkin p.pid
  · exact akin_setProcess rfl hp rfl rfl hsub

/-! ## Signals, ends and forks -/

/-- A signal that a process takes changes what it has of signals, or ends it. -/
theorem takeSignal_cases (w : World) (p : Process) (k : Nat) :
    (∃ caught interrupted stopped, w.takeSignal p k = w.setProcess
      { p with signals := p.signals.take k, caught, interrupted, stopped }) ∨
    p.signals.disposition k = .default ∧ Signal.effect k = .ends ∧ w.takeSignal p k =
      (w.setProcess { p with signals := p.signals.take k }).finish p.pid (.killed k) := by
  unfold takeSignal
  dsimp only
  split
  · exact .inl ⟨_, _, _, rfl⟩
  · exact .inl ⟨_, _, _, rfl⟩
  · rename_i hdefault
    split
    · rename_i heffect
      exact .inr ⟨hdefault, heffect, rfl⟩
    · exact .inl ⟨_, _, _, rfl⟩
    · exact .inl ⟨_, _, _, rfl⟩
    · exact .inl ⟨_, _, _, rfl⟩

/-- A process that lives on has changed in nothing else. -/
theorem process?_takeSignal (hk : w.Keyed) {k : Nat}
    (hq : (w.takeSignal p k).process? p.pid = some q) : ∃ caught interrupted stopped,
      q = { p with signals := p.signals.take k, caught, interrupted, stopped } := by
  rcases w.takeSignal_cases p k with ⟨caught, interrupted, stopped, h⟩ | ⟨-, -, h⟩
  · rw [h, process?_setProcess, if_pos rfl] at hq
    exact ⟨caught, interrupted, stopped, (Option.some.inj hq).symm⟩
  · rw [h, process?_finish (keyed_setProcess hk _)] at hq
    cases hq

/-- A signal that a process takes ends it or leaves its kin. -/
theorem akin_takeSignal (hk : w.Keyed) (hp : w.process? pid = some p) (k : Nat) :
    w.Akin (w.takeSignal p k) pid ∨
      ∃ w₁ p₁, w.Akin w₁ pid ∧ w.Leaves w₁ (· ≠ pid) ∧ w₁.process? pid = some p₁ ∧
        w.takeSignal p k = w₁.finish pid (.killed k) := by
  obtain rfl := hk.pid_eq hp
  have hsub := List.Subset.refl p.children
  rcases w.takeSignal_cases p k with ⟨caught, interrupted, stopped, h⟩ | ⟨-, -, h⟩
  · rw [h]
    exact .inl (akin_setProcess rfl hp rfl rfl hsub)
  · refine .inr ⟨w.setProcess { p with signals := p.signals.take k },
      { p with signals := p.signals.take k }, akin_setProcess rfl hp rfl rfl hsub,
      leaves_setProcess w rfl, ?_, h⟩
    rw [process?_setProcess, if_pos rfl]

theorem takeSignals_of_none (hp : w.process? pid = none) (n : Nat) : w.takeSignals n pid = w := by
  cases n with
  | zero => rfl
  | succ n =>
    unfold takeSignals
    rw [hp]

/-- A process that takes its signals lives on as it was, unless one of them ends it. -/
theorem akin_or_finish (hk : w.Keyed) (n : Nat) (pid : Pid) :
    w.Akin (w.takeSignals n pid) pid ∨
      ∃ w₁ p k, w.Akin w₁ pid ∧ w.Leaves w₁ (· ≠ pid) ∧ w₁.process? pid = some p ∧
        w.takeSignals n pid = w₁.finish pid (.killed k) := by
  induction n generalizing w with
  | zero => exact .inl (.refl w pid)
  | succ n ih =>
    unfold takeSignals
    split
    · exact .inl (.refl w pid)
    · rename_i p hp
      split
      · exact .inl (.refl w pid)
      · split
        · exact .inl (.refl w pid)
        · rename_i k _
          have hleaves := leaves_takeSignal hk p k
          rw [hk.pid_eq hp] at hleaves
          rcases akin_takeSignal hk hp k with h | ⟨w₁, p₁, h, hl, hp₁, heq⟩
          · rcases ih (hleaves.keyed hk) with h' | ⟨w₂, p₂, k', h', hl, hp₂, heq⟩
            · exact .inl (h.trans h')
            · exact .inr ⟨w₂, p₂, k', h.trans h', hleaves.trans hl, hp₂, heq⟩
          · rw [heq, takeSignals_of_none (process?_finish (hl.keyed hk) pid _)]
            exact .inr ⟨w₁, p₁, k, h, hl, hp₁, rfl⟩

theorem process?_modifyProcess_of_ne (hk : w.Keyed) {f : Process → Process}
    (hf : ∀ p, (f p).pid = p.pid) {r : Pid} (hr : r ≠ pid) :
    (w.modifyProcess pid f).process? r = w.process? r := by
  unfold modifyProcess
  split
  · rename_i p hp
    rw [process?_setProcess, hf, hk.pid_eq hp, if_neg (Ne.symm hr)]
  · rfl

theorem keyed_modifyProcess (hk : w.Keyed) (pid : Pid) {f : Process → Process}
    (hf : ∀ p, (f p).pid = p.pid) : (w.modifyProcess pid f).Keyed :=
  (leaves_modifyProcess hk pid hf).keyed hk

/-- The children of a process that ends are taken over. -/
theorem exists_process?_foldl (cs : Children) (hk : w.Keyed) {r : Pid}
    (hq : w.process? r = some q) :
    ∃ parent, (parent = q.parent ∨ ∃ c ∈ cs, c.pid = r) ∧
      (cs.foldl (fun w c => w.modifyProcess c.pid Process.adopted) w).process? r =
        some { q with parent } := by
  induction cs generalizing w q with
  | nil => exact ⟨q.parent, .inl rfl, hq⟩
  | cons c rest ih =>
    have hkeyed := keyed_modifyProcess hk c.pid (f := Process.adopted) fun _ => rfl
    by_cases hr : r = c.pid
    · have hself : (w.modifyProcess c.pid Process.adopted).process? r = some q.adopted := by
        rw [hr] at hq ⊢
        rw [process?_modifyProcess hk (f := Process.adopted) fun _ => rfl, hq]
        rfl
      obtain ⟨parent, -, h⟩ := ih hkeyed hself
      exact ⟨parent, .inr ⟨c, List.mem_cons_self, hr.symm⟩, h⟩
    · have hother : (w.modifyProcess c.pid Process.adopted).process? r = some q :=
        (process?_modifyProcess_of_ne hk (f := Process.adopted) (fun _ => rfl) hr).trans hq
      obtain ⟨parent, hparent, h⟩ := ih hkeyed hother
      refine ⟨parent, hparent.imp_right ?_, h⟩
      rintro ⟨c', hmem, hc'⟩
      exact ⟨c', List.mem_cons_of_mem c hmem, hc'⟩

theorem keyed_foldl (cs : Children) (hk : w.Keyed) :
    (cs.foldl (fun w c => w.modifyProcess c.pid Process.adopted) w).Keyed :=
  (leavesAll_foldl_modifyProcess (f := Process.adopted) (fun _ => rfl) cs hk).keyed hk

theorem told_kept (q : Process) (pid : Pid) (e : Ending) :
    (q.told pid e).pid = q.pid ∧ (q.told pid e).parent = q.parent := by
  unfold Process.told
  split <;> exact ⟨rfl, rfl⟩

theorem finish_of_process? (hp : w.process? pid = some p) (e : Ending) :
    w.finish pid e = World.raise ((p.children.foldl
      (fun (w : World) c => w.modifyProcess c.pid Process.adopted)
      { w with processes := w.processes.erase pid }).modifyProcess p.parent (·.told pid e))
      p.parent Signal.child := by
  unfold finish
  rw [hp]
  rfl

/-- What an end is to another process. -/
theorem exists_process?_finish (hk : w.Keyed) (hp : w.process? pid = some p) (e : Ending) {r : Pid}
    (hr : r ≠ pid) (hq : w.process? r = some q) :
    ∃ q', (w.finish pid e).process? r = some q' ∧
      (q'.parent = q.parent ∨ ∃ c ∈ p.children, c.pid = r) ∧
      q'.children = if r = p.parent then (q.told pid e).children else q.children := by
  rw [finish_of_process? hp]
  have hk₀ := (leaves_erase w pid).keyed hk
  have hq₀ : { w with processes := w.processes.erase pid }.process? r = some q := by
    rw [← hq]
    simp [process?, Std.TreeMap.getElem?_erase, Ne.symm hr]
  obtain ⟨parent, hparent, hq₁⟩ := exists_process?_foldl p.children hk₀ hq₀
  have hk₁ := keyed_foldl p.children hk₀
  generalize List.foldl _ _ _ = w₁ at hq₁ hk₁ ⊢
  have htold (q : Process) : (q.told pid e).pid = q.pid := (told_kept q pid e).1
  have hk₂ := keyed_modifyProcess hk₁ p.parent (f := (·.told pid e)) htold
  have hraise (w : World) (hk : w.Keyed) : (w.raise p.parent Signal.child).kin? r = w.kin? r :=
    kin?_eq_of_akin (akin_raise hk p.parent Signal.child) r
  by_cases hrp : r = p.parent
  · have hq₂ : (w₁.modifyProcess p.parent (·.told pid e)).kin? r =
        some ({ q with parent }.told pid e).kin := by
      rw [kin?_modifyProcess hk₁ p.parent (f := (·.told pid e)) htold, if_pos hrp, ← hrp, hq₁]
      rfl
    obtain ⟨q', hq', hkin⟩ := Option.map_eq_some_iff.1 ((hraise _ hk₂).trans hq₂)
    have hchildren : ({ q with parent }.told pid e).children = (q.told pid e).children := by
      unfold Process.told
      split <;> rfl
    refine ⟨q', hq', ?_, ?_⟩
    · have heq : q'.parent = parent :=
        (congrArg Prod.fst hkin).trans (told_kept { q with parent } pid e).2
      rw [heq]
      exact hparent
    · rw [if_pos hrp, ← hchildren]
      exact congrArg Prod.snd hkin
  · have hq₂ : (w₁.modifyProcess p.parent (·.told pid e)).kin? r =
        some ({ q with parent } : Process).kin := by
      rw [kin?_modifyProcess hk₁ p.parent (f := (·.told pid e)) htold, if_neg hrp, kin?, hq₁]
      rfl
    obtain ⟨q', hq', hkin⟩ := Option.map_eq_some_iff.1 ((hraise _ hk₂).trans hq₂)
    refine ⟨q', hq', ?_, ?_⟩
    · have heq : q'.parent = parent := congrArg Prod.fst hkin
      rw [heq]
      exact hparent
    · rw [if_neg hrp]
      exact congrArg Prod.snd hkin

theorem kin?_fork (hk : w.Keyed) (hp : w.process? p.pid = some p) (hnew : p.pid ≠ w.nextPid)
    (program : Act) (r : Pid) :
    (w.fork p program).2.kin? r =
      if r = w.nextPid then some (p.pid, [])
      else if r = p.pid then some (p.parent, p.children.add w.nextPid)
      else w.kin? r := by
  have hforked : World.Keyed
      ({ w with nextPid := w.nextPid + 1 }.setProcess (p.forked w.nextPid program)) :=
    keyed_setProcess (w := { w with nextPid := w.nextPid + 1 }) hk _
  have hself : { w with nextPid := w.nextPid + 1 }.process? p.pid = some p := hp
  rw [fork_snd, kin?_modifyProcess hforked _
    (f := fun q => { q with children := q.children.add w.nextPid }) fun _ => rfl,
    kin?_setProcess, process?_setProcess, Process.pid_forked, if_neg hnew.symm, hself]
  by_cases hr : r = w.nextPid
  · have hne : r ≠ p.pid := fun heq => hnew (heq.symm.trans hr)
    rw [if_neg hne, if_pos hr.symm, if_pos hr]
    rfl
  · rw [if_neg hr, if_neg (Ne.symm hr)]
    rfl

end World

end JobShell
