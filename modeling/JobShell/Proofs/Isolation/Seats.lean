import JobShell.Proofs.Isolation.Turns

/-!
# Groups and programs of processes

Which group a process is in changes only where somebody asks for it to be moved, and which file it
runs only where it executes another.

* `Process.seat`: the group of a process and the file of its program.
* `World.Steady`: from one world to another, no process is new, and those that are left keep their
  seats. Ends and signals are of this kind, and all calls but two.
* `Effect.steady`, `steady_finish`, `steady_takeSignals`: calls, ends and signals.
* `World.Reseats`: what a step is to the seat of a process; `World.reseats_step` says that the list
  is complete.
-/

namespace JobShell

/-- The group of a process and the file of its program. -/
def Process.seat (p : Process) : Pid × Option Ino := (p.group, p.image)

/-- The call asks for a process to be moved or for another program to be executed. -/
def Call.reseats : Call → Bool
  | .setGroup .. | .exec .. => true
  | _ => false

namespace World

/-- No process is new, and each keeps its seat. -/
def Steady (w w' : World) : Prop :=
  ∀ r q', w'.process? r = some q' → ∃ q, w.process? r = some q ∧ q'.seat = q.seat

variable {w w' w₁ : World} {p q : Process} {pid r : Pid} {e : Ending} {c : Call}

theorem Steady.refl (w : World) : w.Steady w := fun _ q hq => ⟨q, hq, rfl⟩

theorem Steady.trans (h : w.Steady w₁) (h' : w₁.Steady w') : w.Steady w' := by
  intro r q' hq'
  obtain ⟨q₁, hq₁, hseat₁⟩ := h' r q' hq'
  obtain ⟨q, hq, hseat⟩ := h r q₁ hq₁
  exact ⟨q, hq, hseat₁.trans hseat⟩

theorem steady_same (h : w'.processes = w.processes) : w.Steady w' := by
  intro r q' hq'
  unfold process? at hq'
  rw [h] at hq'
  exact ⟨q', hq', rfl⟩

/-- A process changes in something else, with files and pipes or without. -/
theorem steady_setProcess (h : w₁.processes = w.processes) (hp : w.process? pid = some p)
    (hpid : q.pid = pid) (hseat : q.seat = p.seat) : w.Steady (w₁.setProcess q) := by
  intro r q' hq'
  rw [process?_setProcess] at hq'
  split at hq'
  · rename_i hr
    obtain rfl := Option.some.inj hq'
    exact ⟨p, by rw [← hr, hpid]; exact hp, hseat⟩
  · exact steady_same h r q' hq'

/-- What all processes satisfy can be checked. -/
theorem of_all_processes {f : Process → Bool} (h : w.processes.toList.all (f ·.2))
    (hp : w.process? pid = some p) : f p :=
  List.all_eq_true.1 h (pid, p) (Std.TreeMap.mem_toList_iff_getElem?_eq_some.2 hp)

theorem steady_modifyProcess (hk : w.Keyed) (pid : Pid) {f : Process → Process}
    (hf : ∀ p, (f p).pid = p.pid) (hseat : ∀ p, (f p).seat = p.seat) :
    w.Steady (w.modifyProcess pid f) := by
  unfold modifyProcess
  split
  · rename_i p hp
    exact steady_setProcess rfl hp ((hf p).trans (hk.pid_eq hp)) (hseat p)
  · exact .refl w

theorem steady_raise (hk : w.Keyed) (r : Pid) (n : Nat) : w.Steady (w.raise r n) :=
  steady_modifyProcess hk r (f := fun p => { p with
    signals := p.signals.raise n
    stopped := p.stopped && n ≠ Signal.resume && n ≠ Signal.kill }) (fun _ => rfl) fun _ => rfl

theorem steady_foldl_raise (pids : List Pid) (n : Nat) (hk : w.Keyed) :
    w.Steady (pids.foldl (·.raise · n) w) := by
  induction pids generalizing w with
  | nil => exact .refl w
  | cons r rest ih =>
    exact (steady_raise hk r n).trans (ih ((leavesAll_raise hk r n).keyed hk))

/-! ## Ends and signals -/

theorem steady_erase (w : World) (pid : Pid) :
    w.Steady { w with processes := w.processes.erase pid } := by
  intro r q' hq'
  have hr : pid ≠ r := by
    rintro rfl
    simp [process?] at hq'
  refine ⟨q', ?_, rfl⟩
  rw [← hq']
  simp [process?, Std.TreeMap.getElem?_erase, hr]

theorem steady_foldl_adopted (cs : Children) (hk : w.Keyed) :
    w.Steady (cs.foldl (fun w c => w.modifyProcess c.pid Process.adopted) w) := by
  induction cs generalizing w with
  | nil => exact .refl w
  | cons c rest ih =>
    have h := steady_modifyProcess hk c.pid (f := Process.adopted) (fun _ => rfl) fun _ => rfl
    exact h.trans (ih (keyed_modifyProcess hk c.pid fun _ => rfl))

theorem steady_finish (hk : w.Keyed) (pid : Pid) (e : Ending) : w.Steady (w.finish pid e) := by
  cases hp : w.process? pid with
  | none =>
    unfold finish
    rw [hp]
    exact .refl w
  | some p =>
    have hk₀ := (leaves_erase w pid).keyed hk
    have hk₁ := keyed_foldl p.children hk₀
    have htold (q : Process) : (q.told pid e).pid = q.pid := (told_kept q pid e).1
    have hk₂ := keyed_modifyProcess hk₁ p.parent (f := (·.told pid e)) htold
    rw [finish_of_process? hp]
    refine (steady_erase w pid).trans <| (steady_foldl_adopted p.children hk₀).trans <|
      .trans ?_ (steady_raise hk₂ p.parent Signal.child)
    refine steady_modifyProcess hk₁ p.parent htold fun q => ?_
    unfold Process.told
    split <;> rfl

theorem steady_takeSignal (hk : w.Keyed) (hp : w.process? pid = some p) (k : Nat) :
    w.Steady (w.takeSignal p k) := by
  have hpid := hk.pid_eq hp
  rcases w.takeSignal_cases p k with ⟨_, _, _, h⟩ | ⟨-, -, h⟩
  · rw [h]
    exact steady_setProcess rfl hp hpid rfl
  · rw [h]
    refine (steady_setProcess rfl hp ?_ ?_).trans (steady_finish (keyed_setProcess hk _) _ _)
    · exact hpid
    · rfl

theorem steady_takeSignals (hk : w.Keyed) (n : Nat) (pid : Pid) :
    w.Steady (w.takeSignals n pid) :=
  takeSignals_induction (motive := fun w w' => w.Keyed → w.Steady w') (fun w _ => .refl w)
    (fun _ _ p s hp _ ih hk =>
      (steady_takeSignal hk hp s).trans (ih ((leaves_takeSignal hk p s).keyed hk))) n w hk

/-! ## Calls -/

/-- A call, whatever it is, but for those that are about seats. -/
theorem Effect.steady (h : w.Effect p c w') (hk : w.Keyed) (hp : w.process? p.pid = some p)
    (hc : c.reseats = false) : w.Steady w' := by
  cases h with
  | same => exact .refl w
  | changes | reads | drains | writes | fills | seeks => exact steady_same rfl
  | breaks => exact steady_raise hk _ _
  | sends _ signal pids => exact steady_foldl_raise pids signal hk
  | opens =>
    unfold install
    split
    · exact steady_same rfl
    · exact steady_setProcess (w := w) rfl hp rfl rfl
  | joins | closes | copies | repeats | stands | masks | collects | disposes | unblocks | catches |
    sleeps => exact steady_setProcess rfl hp rfl rfl
  | moves | executes => cases hc

/-! ## Moves -/

theorem moved_self (h : r ≠ 0) : moved pid r r = (r, r) := by
  simp only [moved, if_neg h]

section

variable {target group : Pid}

/-- A process that has been moved keeps its program, and all others keep their seats. -/
theorem of_setGroup (hk : w.Keyed) {q' : Process}
    (hq' : (w.setGroup p target group).1.process? r = some q') :
    ∃ q, w.process? r = some q ∧ (q'.seat = q.seat ∨ q'.image = q.image ∧
      (w.setGroup p target group).2 = .ok () ∧ moved p.pid target group = (r, q'.group)) := by
  rcases w.setGroup_cases p target group with h | ⟨who, place, q, hmoved, hq, h⟩
  · rw [h] at hq'
    exact ⟨q', hq', .inl rfl⟩
  · rw [h, process?_setProcess] at hq'
    have hpid : q.pid = who := hk.pid_eq hq
    split at hq'
    · rename_i hr
      obtain rfl : who = r := hpid.symm.trans hr
      obtain rfl := Option.some.inj hq'
      exact ⟨q, hq, .inr ⟨rfl, by rw [h], hmoved⟩⟩
    · exact ⟨q', hq', .inl rfl⟩

/-- A process may make a group of its own. -/
theorem group_setGroup_self (hp : w.process? p.pid = some p) (hpos : 0 < p.pid)
    (hq : (w.setGroup p 0 0).1.process? p.pid = some q) : q.group = p.pid := by
  have hset : w.setGroup p 0 0 = (w.setProcess { p with group := p.pid }, .ok ()) := by
    unfold setGroup
    simp [hp, Int.not_lt.2 (Int.le_of_lt hpos)]
  rw [hset, process?_setProcess, if_pos rfl] at hq
  obtain rfl := Option.some.inj hq
  rfl

/-- A process may make a group for a child that has executed nothing yet. -/
theorem group_setGroup_child {child : Process} (hk : w.Keyed) (hc : w.process? r = some child)
    (hpos : 0 < r) (hparent : child.parent = p.pid) (himage : child.image = p.image)
    (hq : (w.setGroup p r r).1.process? r = some q) : q.group = r := by
  have hset : w.setGroup p r r = (w.setProcess { child with group := r }, .ok ()) := by
    unfold setGroup
    simp [hc, Int.not_lt.2 (Int.le_of_lt hpos), Int.ne_of_gt hpos, hparent, himage]
  have hpid : child.pid = r := hk.pid_eq hc
  rw [hset, process?_setProcess, if_pos hpid] at hq
  obtain rfl := Option.some.inj hq
  rfl

end

end World

/-- The process that is moved in what process `pid` does, and the group that it is moved to. -/
def Doing.move? (pid : Pid) : Doing → Option (Pid × Pid)
  | called (.setGroup target group) (.ok ()) => some (World.moved pid target group)
  | _ => none

namespace World

variable {w w' w₁ : World} {p q q' : Process} {pid r : Pid} {d : Option Doing}

/-! ## Steps -/

/-- What a step in which process `pid` does this is to the seat of a process, which is `q'` after
it. -/
inductive Reseats (w : World) (pid : Pid) (d : Option Doing) (r : Pid) (q' : Process) : Prop where
  | keeps {q : Process} (hq : w.process? r = some q) (hseat : q'.seat = q.seat)
  | moves {q : Process} {e : Doing} (hq : w.process? r = some q) (himage : q'.image = q.image)
      (hd : d = some e) (hmove : e.move? pid = some (r, q'.group))
  | becomes {q : Process} {path : Bytes} {args env : List Bytes} (hq : w.process? r = some q)
      (hgroup : q'.group = q.group) (hr : r = pid) (hd : d = some (.executed path args env))
  | made {p : Process} {child : Act} (hp : w.process? pid = some p) (hseat : q'.seat = p.seat)
      (hr : r = w.nextPid) (hd : d = some (.forked child (.ok r)))

theorem Steady.keeps (h : w.Steady w') (hq' : w'.process? r = some q') :
    w.Reseats pid d r q' := by
  obtain ⟨q, hq, hseat⟩ := h r q' hq'
  exact .keeps hq hseat

/-- What has gone before has moved nobody. -/
theorem Reseats.after (h : w₁.Reseats pid d r q') (hs : w.Steady w₁)
    (hnext : w₁.nextPid = w.nextPid) : w.Reseats pid d r q' := by
  cases h with
  | keeps hq hseat =>
    obtain ⟨q₀, hq₀, hseat₀⟩ := hs r _ hq
    exact .keeps hq₀ (hseat.trans hseat₀)
  | moves hq himage hd hmove =>
    obtain ⟨q₀, hq₀, hseat₀⟩ := hs r _ hq
    exact .moves hq₀ (himage.trans (congrArg Prod.snd hseat₀)) hd hmove
  | becomes hq hgroup hr hd =>
    obtain ⟨q₀, hq₀, hseat₀⟩ := hs r _ hq
    exact .becomes hq₀ (hgroup.trans (congrArg Prod.fst hseat₀)) hr hd
  | made hp hseat hr hd =>
    obtain ⟨p₀, hp₀, hseat₀⟩ := hs pid _ hp
    exact .made hp₀ (hseat.trans hseat₀) (hr.trans hnext) hd

/-- A process goes on with another program, and all keep their seats. -/
theorem Reseats.of_program {f : Process → Process} (hk : w₁.Keyed)
    (hf : ∀ q, (f q).pid = q.pid) (hseat : ∀ q, (f q).seat = q.seat)
    (hq' : (w₁.modifyProcess pid f).process? r = some q')
    (h : ∀ q, w₁.process? r = some q → w.Reseats pid d r q) : w.Reseats pid d r q' := by
  obtain ⟨q, hq, hsame⟩ := steady_modifyProcess hk pid hf hseat r q' hq'
  cases h q hq with
  | keeps hq₀ hseat₀ => exact .keeps hq₀ (hsame.trans hseat₀)
  | moves hq₀ himage hd hmove =>
    have hgroup : q'.group = q.group := congrArg Prod.fst hsame
    exact .moves hq₀ ((congrArg Prod.snd hsame).trans himage) hd (hgroup ▸ hmove)
  | becomes hq₀ hgroup hr hd =>
    exact .becomes hq₀ ((congrArg Prod.fst hsame).trans hgroup) hr hd
  | made hp hseat₀ hr hd => exact .made hp (hsame.trans hseat₀) hr hd

theorem reseats_setGroup (hk : w.Keyed) {target group : Pid}
    (hq' : (w.setGroup p target group).1.process? r = some q') :
    w.Reseats p.pid (some (.called (.setGroup target group) (w.setGroup p target group).2)) r q' := by
  obtain ⟨q, hq, hseat | ⟨himage, hreply, hmoved⟩⟩ := of_setGroup hk hq'
  · exact .keeps hq hseat
  · refine .moves hq himage rfl ?_
    rw [hreply]
    exact congrArg some hmoved

theorem reseats_fork (hk : w.Keyed) (hp : w.process? p.pid = some p) {child : Act}
    (hq' : (w.fork p child).2.process? r = some q') :
    w.Reseats p.pid (some (.forked child (.ok w.nextPid))) r q' := by
  rw [fork_snd] at hq'
  have hkeyed : World.Keyed { w with nextPid := w.nextPid + 1 } := hk
  have hset := keyed_setProcess hkeyed (p.forked w.nextPid child)
  obtain ⟨q, hq, hseat⟩ := steady_modifyProcess hset p.pid
    (f := fun q => { q with children := q.children.add w.nextPid }) (fun _ => rfl) (fun _ => rfl)
    r q' hq'
  rw [process?_setProcess, Process.pid_forked] at hq
  split at hq
  · rename_i hr
    obtain rfl := Option.some.inj hq
    subst hr
    exact .made hp hseat rfl rfl
  · exact .keeps hq hseat

theorem reseats_exec (hp : w.process? p.pid = some p) {path : Bytes}
    {args env : List Bytes} (h : w.perform p (.exec path args env) = .become w')
    (hq' : w'.process? r = some q') :
    w.Reseats p.pid (some (.executed path args env)) r q' := by
  change w.exec p path args env = .become w' at h
  unfold exec at h
  split at h <;> cases h
  rw [process?_setProcess] at hq'
  by_cases hr : p.pid = r
  · rw [if_pos hr] at hq'
    rw [hr] at hp
    obtain rfl := Option.some.inj hq'
    exact .becomes hp rfl hr.symm rfl
  · rw [if_neg hr] at hq'
    exact .keeps hq' rfl

theorem Advances.reseats (h : w.Advances p d w') (hk : w.Keyed) (hp : w.process? p.pid = some p)
    (hq' : w'.process? r = some q') : w.Reseats p.pid d r q' := by
  have hwait {w₁ : World} (hw : w₁ = w ∨ ∃ wake, w₁ = w.setProcess { p with wake }) :
      w₁.Keyed ∧ w.Steady w₁ := by
    rcases hw with rfl | ⟨wake, rfl⟩
    · exact ⟨hk, .refl w₁⟩
    · exact ⟨keyed_setProcess hk _, steady_setProcess rfl hp rfl rfl⟩
  cases h with
  | idles | lingers => exact .keeps hq' rfl
  | quits _ hperform =>
    have heffect := effect_of_done hperform
    have hsteady := heffect.steady hk hp rfl
    exact (hsteady.trans (steady_finish ((heffect.leaves hk).keyed hk) p.pid _)).keeps hq'
  | exits => exact (steady_finish hk p.pid _).keeps hq'
  | @forks child next =>
    exact Reseats.of_program (f := fun q => { q with program := some (next (.ok w.nextPid)) })
      ((grows_fork hk p child).keyed hk) (fun _ => rfl) (fun _ => rfl) hq'
      fun q hq => reseats_fork hk hp hq
  | @calls c next reply w₁ _ hperform =>
    have heffect := effect_of_done hperform
    refine Reseats.of_program (f := fun q => { q with program := some (next reply) })
      ((heffect.leaves hk).keyed hk) (fun _ => rfl) (fun _ => rfl) hq' fun q hq => ?_
    cases hc : c.reseats with
    | false => exact (heffect.steady hk hp hc).keeps hq
    | true =>
      cases c with
      | setGroup target group =>
        cases hperform
        exact reseats_setGroup hk hq
      | exec path args env =>
        change w.exec p path args env = .done w₁ reply at hperform
        unfold exec at hperform
        split at hperform <;> cases hperform
        exact .keeps hq rfl
      | _ => cases hc
  | waits _ _ hw => exact (hwait hw).2.keeps hq'
  | breaks _ _ hw =>
    obtain ⟨hkeyed, hsteady⟩ := hwait hw
    refine Steady.keeps (hsteady.trans ?_) hq'
    exact steady_modifyProcess hkeyed p.pid (fun _ => rfl) fun _ => rfl
  | executes _ hperform => exact reseats_exec hp hperform hq'

/-- What a step is to the seat of a process. -/
theorem reseats_step (hk : w.Keyed) (hq' : (w.step pid).1.process? r = some q') :
    w.Reseats pid (w.doing? pid) r q' := by
  have hsteady := steady_takeSignals hk signalCount pid
  have hleaves := leaves_takeSignals hk signalCount pid
  rcases w.doing?_cases pid with ⟨hstep, -⟩ | ⟨p, hp, hstep, hd⟩
  · rw [hstep] at hq'
    exact hsteady.keeps hq'
  · rw [hstep] at hq'
    obtain rfl := (hleaves.keyed hk).pid_eq hp
    rw [hd]
    exact ((World.advances _ p).reseats (hleaves.keyed hk) hp hq').after hsteady hleaves.nextPid_eq

/-- A process that makes a group of its own is in that. -/
theorem group_step {next : Except Errno Unit → Act} (hk : w.Keyed) (hpos : 0 < pid)
    (hprogram : w.program? pid = some (.call (.setGroup 0 0) next)) (hd : w.doing? pid ≠ none)
    (hq' : (w.step pid).1.process? pid = some q') : q'.group = pid := by
  have hleaves := leaves_takeSignals hk signalCount pid
  have hkeyed := hleaves.keyed hk
  rcases w.doing?_cases pid with ⟨hstep, ⟨hnone, -⟩ | ⟨-, hgone⟩⟩ | ⟨p, hp, hstep, hdoes⟩
  · exact absurd hnone hd
  · rw [hstep, hgone] at hq'
    cases hq'
  · have hcall := program?_takeSignals hk signalCount hprogram hp
    obtain rfl := hkeyed.pid_eq hp
    generalize w.takeSignals signalCount p.pid = w₁ at *
    have hdone : w₁.perform p (.setGroup 0 0) =
      .done (w₁.setGroup p 0 0).1 (w₁.setGroup p 0 0).2 := rfl
    have hset := ((effect_setGroup (p := p) 0 0).leavesAll hkeyed rfl).keyed hkeyed
    rw [hdoes] at hd
    rw [hstep] at hq'
    have hf : p.farewell? = none := by
      cases hf : p.farewell? with
      | none => rfl
      | some text => cases (gone_of_farewell? hkeyed hf hd).symm.trans hq'
    rw [advance_done ((Process.due?_of_none hf).trans hcall) hdone] at hq'
    obtain ⟨q, hq, hseat⟩ := steady_modifyProcess hset p.pid
      (f := fun q => { q with program := some (next (w₁.setGroup p 0 0).2) }) (fun _ => rfl)
      (fun _ => rfl) p.pid q' hq'
    exact (congrArg Prod.fst hseat).trans (group_setGroup_self hp hpos hq)

end World

end JobShell
