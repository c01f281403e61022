import JobShell.Proofs.Isolation.Turns

/-!
# Who is whose child

* `World.Breeds`: what a step of a process does to parents and children; `World.breeds_step`.
* `World.Rears`: what holds of every process and each of its children. A step keeps it, if it holds
  of the process that is forked.
* `World.Breeds.parent`: a process keeps its parent while that lives.
* `World.Breeds.news`: another process keeps its children as it has them, or is told of an end.
-/

namespace JobShell.World

variable {w w' w₁ : World} {p q : Process} {pid r : Pid} {d : Option Doing}

/-- What process `pid` does to parents and children in a step in which it does this. -/
inductive Breeds (w : World) (pid : Pid) (d : Option Doing) : World → Prop where
  | keeps {w' : World} (h : w.Akin w' pid) : Breeds w pid d w'
  | forks {w' : World} {p : Process} {cs : Children} (hp : w.process? pid = some p)
      (hcs : cs ⊆ p.children) (hnext : w'.nextPid ≠ w.nextPid)
      (hkin : ∀ r, w'.kin? r = if r = w.nextPid then some (pid, [])
        else if r = pid then some (p.parent, cs.add w.nextPid) else w.kin? r) : Breeds w pid d w'
  | ends {w₁ : World} {p : Process} {e : Ending} (h : w.Akin w₁ pid)
      (hleaves : w.Leaves w₁ (· ≠ pid)) (hp : w₁.process? pid = some p)
      (he : ∀ code, d.bind Doing.code? = some code → e = .exited code) :
    Breeds w pid d (w₁.finish pid e)

theorem exists_of_kin? {k : Pid × Children} (h : w.kin? r = some k) :
    ∃ q, w.process? r = some q ∧ q.parent = k.1 ∧ q.children = k.2 := by
  obtain ⟨q, hq, rfl⟩ := Option.map_eq_some_iff.1 h
  exact ⟨q, hq, rfl, rfl⟩

theorem kin?_eq_some (hp : w.process? r = some p) : w.kin? r = some p.kin := by
  rw [kin?, hp]
  rfl

/-- No process is new, and none has new children. -/
theorem Akin.of_process? (h : w.Akin w' pid) (hq : w'.process? r = some q) :
    ∃ p, w.process? r = some p ∧ q.parent = p.parent ∧ q.children ⊆ p.children := by
  by_cases hr : r = pid
  · subst hr
    have hparent := h.parent
    rw [hq] at hparent
    obtain ⟨p, hp, heq⟩ := Option.map_eq_some_iff.1 hparent.symm
    exact ⟨p, hp, heq.symm, h.children p q hp hq⟩
  · obtain ⟨p, hp, hparent, hchildren⟩ :=
      exists_of_kin? ((h.others r hr).symm.trans (kin?_eq_some hq))
    have hchildren : p.children = q.children := hchildren
    exact ⟨p, hp, hparent.symm, hchildren ▸ List.Subset.refl _⟩

theorem mem_told {c : Child} {e : Ending} (h : c ∈ (q.told pid e).children) :
    ∃ c' ∈ q.children, c'.pid = c.pid := by
  unfold Process.told at h
  split at h
  · exact ⟨c, (List.mem_filter.1 h).1, rfl⟩
  · obtain ⟨c', hmem, rfl⟩ := List.mem_map.1 h
    refine ⟨c', hmem, ?_⟩
    split <;> rfl

theorem of_process?_finish (hk : w.Keyed) (hp : w.process? pid = some p) {e : Ending}
    {q' : Process} (hq' : (w.finish pid e).process? r = some q') :
    r ≠ pid ∧ ∃ q, w.process? r = some q ∧
      (q'.parent = q.parent ∨ ∃ c ∈ p.children, c.pid = r) ∧
      q'.children = if r = p.parent then (q.told pid e).children else q.children := by
  have hr : r ≠ pid := by
    rintro rfl
    rw [process?_finish hk] at hq'
    cases hq'
  obtain ⟨q, hq, -⟩ := exists_of_own?_eq ((leaves_finish hk pid e).own r hr) hq'
  obtain ⟨q'', hq'', h⟩ := exists_process?_finish hk hp e hr hq
  obtain rfl := Option.some.inj (hq'.symm.trans hq'')
  exact ⟨hr, q, hq, h⟩

/-! ## Steps -/

theorem Advances.akin (h : w.Advances p d w') (hk : w.Keyed) (hp : w.process? p.pid = some p)
    {c : Call} {next : c.Reply → Act} (hdue : p.due? = some (.call c next)) :
    w.Akin w' p.pid := by
  obtain ⟨hf, hprogram⟩ := Process.of_due? hdue
  have hgoes {w₁ : World} {f : Process → Process} (hw : w.Akin w₁ p.pid) (hk₁ : w₁.Keyed)
      (hf : ∀ q, (f q).pid = q.pid) (hf' : ∀ q, (f q).kin = q.kin) :
      w.Akin (w₁.modifyProcess p.pid f) p.pid := hw.trans (akin_modifyProcess hk₁ p.pid hf hf' p.pid)
  cases h with
  | idles _ h => cases h.symm.trans hprogram
  | quits h => cases h.symm.trans hf
  | lingers h => cases h.symm.trans hf
  | exits h => cases h.symm.trans hdue
  | forks h => cases h.symm.trans hdue
  | calls _ h =>
    have heffect := effect_of_done h
    exact hgoes (heffect.akin hk hp) ((heffect.leaves hk).keyed hk) (fun _ => rfl) fun _ => rfl
  | waits _ h => exact (effect_of_wait h).akin hk hp
  | breaks _ h =>
    have heffect := effect_of_wait h
    exact hgoes (heffect.akin hk hp) ((heffect.leaves hk).keyed hk) (fun _ => rfl) fun _ => rfl
  | executes _ h => exact (effect_of_become h).akin hk hp

theorem breeds_fork (hk : w.Keyed) (hkin : w₁.Akin w pid) (hnext : w.nextPid = w₁.nextPid)
    (hp : w.process? pid = some p) (hnew : pid ≠ w.nextPid) {child : Act}
    {next : Except Errno Pid → Act} (hdue : p.due? = some (.fork child next)) :
    w₁.Breeds pid d (w.advance p).1 := by
  obtain rfl := hk.pid_eq hp
  obtain ⟨p₁, hp₁, hparent, hchildren⟩ := hkin.of_process? hp
  have hkeyed := (grows_fork hk p child).keyed hk
  refine .forks hp₁ hchildren ?_ fun r => ?_
  · have hleaves := leaves_modifyProcess hkeyed p.pid
      (f := fun q => { q with program := some (next (.ok w.nextPid)) }) fun _ => rfl
    have hforked : (w.fork p child).2.nextPid = w.nextPid + 1 :=
      (leavesAll_fork hk p child).nextPid_eq
    rw [advance_fork hdue, hleaves.nextPid_eq, hforked, ← hnext]
    exact Int.ne_of_gt (Int.lt_succ _)
  · have hsame := kin?_eq_of_akin (akin_modifyProcess hkeyed p.pid
      (f := fun q => { q with program := some (next (.ok w.nextPid)) }) (fun _ => rfl) fun _ => rfl) r
    rw [advance_fork hdue, hsame, kin?_fork hk hp hnew, hnext, hparent]
    by_cases hr : r = p.pid
    · rw [if_pos hr, if_pos hr]
    · rw [if_neg hr, if_neg hr, hkin.others r hr]

/-- A process that takes its leave ends, or has to wait. -/
theorem breeds_quit (hk : w.Keyed) (hkin : w₁.Akin w pid) (hleaves : w₁.Leaves w (· ≠ pid))
    (hp : w.process? pid = some p) {text : Bytes} (hf : p.farewell? = some text) :
    w₁.Breeds pid (w.does? p) (w.advance p).1 := by
  obtain rfl := hk.pid_eq hp
  have hadvances := w.advances p
  generalize w.does? p = d, (w.advance p).1 = w' at hadvances
  cases hadvances with
  | quits _ h =>
    have heffect := effect_of_done h
    have hakin := heffect.akin hk hp
    obtain ⟨q, hq⟩ := hakin.exists hp
    refine .ends (hkin.trans hakin) (hleaves.trans (heffect.leaves hk)) hq fun code hcode => ?_
    cases hcode
    rfl
  | lingers => exact .keeps hkin
  | idles h => cases h.symm.trans hf
  | exits h | forks h | calls h | waits h | breaks h | executes h =>
    cases (Process.of_due? h).1.symm.trans hf

theorem breeds_due (hk : w.Keyed) (hkin : w₁.Akin w pid) (hleaves : w₁.Leaves w (· ≠ pid))
    (hp : w.process? pid = some p) (hnew : pid ≠ w.nextPid) {a : Act} (hdue : p.due? = some a) :
    w₁.Breeds pid (w.does? p) (w.advance p).1 := by
  cases a with
  | exit code =>
    rw [advance_exit hdue, hk.pid_eq hp]
    refine .ends hkin hleaves hp fun code' hcode => ?_
    rw [does?_of_due? hdue, calls?, (Process.of_due? hdue).2] at hcode
    cases hcode
    rfl
  | fork child next => exact breeds_fork hk hkin hleaves.nextPid_eq hp hnew hdue
  | call c next =>
    obtain rfl := hk.pid_eq hp
    exact .keeps (hkin.trans ((World.advances _ p).akin hk hp hdue))

/-- What a step does to parents and children. -/
theorem breeds_step (hk : w.Keyed) (hgiven : ∀ p, w.process? pid = some p → pid < w.nextPid) :
    w.Breeds pid (w.doing? pid) (w.step pid).1 := by
  have hleaves := leaves_takeSignals hk signalCount pid
  have hkeyed := hleaves.keyed hk
  rcases akin_or_finish hk signalCount pid with hkin | ⟨w₁, p, k, hkin, hl, hp, heq⟩
  · rcases w.doing?_cases pid with ⟨hstep, -⟩ | ⟨p, hp, hstep, hd⟩
    · rw [hstep]
      exact .keeps hkin
    · rw [hstep, hd]
      cases hf : p.farewell? with
      | some text => exact breeds_quit hkeyed hkin hleaves hp hf
      | none =>
        cases hdue : p.due? with
        | some a =>
          refine breeds_due hkeyed hkin hleaves hp ?_ hdue
          obtain ⟨p₀, hp₀, -⟩ := hkin.of_process? hp
          rw [hleaves.nextPid_eq]
          exact Int.ne_of_lt (hgiven p₀ hp₀)
        | none =>
          rw [advance_of_idle hf ((Process.due?_of_none hf).symm.trans hdue)]
          exact .keeps hkin
  · -- a signal has ended it, and it makes no call
    have hgone : (w.takeSignals signalCount pid).process? pid = none := by
      rw [heq, process?_finish (hl.keyed hk)]
    rcases w.doing?_cases pid with ⟨hstep, ⟨-, hlives⟩ | ⟨hd, -⟩⟩ | ⟨p, hp, -, -⟩
    · rw [hgone] at hlives
      cases hlives
    · rw [hstep, heq, hd]
      refine .ends hkin hl hp fun code hcode => ?_
      cases h : w.process? pid <;> rw [h] at hcode <;> cases hcode
    · rw [hgone] at hp
      cases hp

/-! ## What steps keep -/

/-- This holds of every process and each of its children. -/
def Rears (w : World) (P : Pid → Pid → Prop) : Prop :=
  ∀ r p, w.process? r = some p → ∀ c ∈ p.children, P r c.pid

/-- A step keeps what holds of every process and each of its children. -/
theorem Breeds.rears {P : Pid → Pid → Prop} (hb : w.Breeds pid d w') (hk : w.Keyed)
    (h : w.Rears P) (hnew : w'.nextPid ≠ w.nextPid → P pid w.nextPid) : w'.Rears P := by
  intro r q hq c hmem
  cases hb with
  | keeps hkin =>
    obtain ⟨p, hp, -, hsub⟩ := hkin.of_process? hq
    exact h r p hp c (hsub hmem)
  | @forks w' p cs hp hcs hnext hkin =>
    have hself := (kin?_eq_some hq).symm.trans (hkin r)
    split at hself
    · have hnil : q.children = [] := congrArg Prod.snd (Option.some.inj hself)
      rw [hnil] at hmem
      cases hmem
    · split at hself
      · rename_i hr
        have hchildren : q.children = cs.add w.nextPid :=
          congrArg Prod.snd (Option.some.inj hself)
        rw [hchildren] at hmem
        rcases List.mem_append.1 hmem with hmem | hmem
        · exact hr ▸ h pid p hp c (hcs hmem)
        · rw [List.mem_singleton.1 hmem, hr]
          exact hnew hnext
      · obtain ⟨p', hp', -, hchildren⟩ := exists_of_kin? hself.symm
        have hchildren : p'.children = q.children := hchildren
        exact h r p' hp' c (hchildren ▸ hmem)
  | @ends w₁ p e hkin hleaves hp he =>
    obtain ⟨-, q₁, hq₁, -, hchildren⟩ := of_process?_finish (hleaves.keyed hk) hp hq
    obtain ⟨q₀, hq₀, -, hsub⟩ := hkin.of_process? hq₁
    rw [hchildren] at hmem
    split at hmem
    · obtain ⟨c', hmem', heq⟩ := mem_told hmem
      exact heq ▸ h r q₀ hq₀ c' (hsub hmem')
    · exact h r q₀ hq₀ c (hsub hmem)

/-- Processes are made by forks. -/
theorem Breeds.given (hb : w.Breeds pid d w') (hk : w.Keyed) (hnext : w.nextPid ≤ w'.nextPid)
    (hgiven : ∀ r p, w.process? r = some p → r < w.nextPid) (hq : w'.process? r = some q) :
    r < w'.nextPid := by
  cases hb with
  | keeps hkin =>
    obtain ⟨p, hp, -⟩ := hkin.of_process? hq
    exact Int.lt_of_lt_of_le (hgiven r p hp) hnext
  | @forks w' p cs hp hcs hnew hkin =>
    have hself := (kin?_eq_some hq).symm.trans (hkin r)
    split at hself
    · rename_i hr
      rw [hr]
      exact Int.lt_iff_le_and_ne.2 ⟨hnext, hnew.symm⟩
    · split at hself
      · rename_i hr
        exact Int.lt_of_lt_of_le (hr ▸ hgiven pid p hp) hnext
      · obtain ⟨p', hp', -⟩ := exists_of_kin? hself.symm
        exact Int.lt_of_lt_of_le (hgiven r p' hp') hnext
  | @ends w₁ p e hkin hleaves hp he =>
    obtain ⟨-, q₁, hq₁, -⟩ := of_process?_finish (hleaves.keyed hk) hp hq
    obtain ⟨q₀, hq₀, -⟩ := hkin.of_process? hq₁
    exact Int.lt_of_lt_of_le (hgiven r q₀ hq₀) hnext

/-- A process keeps its parent, but for the end of one that has it as a child. -/
theorem Breeds.parent (hb : w.Breeds pid d w') (hk : w.Keyed) (hr : r ≠ w.nextPid)
    (hno : w'.process? pid = none → ∀ p, w.process? pid = some p → ∀ c ∈ p.children, c.pid ≠ r)
    (hq : w'.process? r = some q) : ∃ p, w.process? r = some p ∧ q.parent = p.parent := by
  cases hb with
  | keeps hkin =>
    obtain ⟨p, hp, hparent, -⟩ := hkin.of_process? hq
    exact ⟨p, hp, hparent⟩
  | @forks w' p cs hp hcs hnext hkin =>
    have hself := (kin?_eq_some hq).symm.trans (hkin r)
    rw [if_neg hr] at hself
    split at hself
    · rename_i heq
      exact ⟨p, heq ▸ hp, congrArg Prod.fst (Option.some.inj hself)⟩
    · obtain ⟨p', hp', hparent, -⟩ := exists_of_kin? hself.symm
      exact ⟨p', hp', hparent.symm⟩
  | @ends w₁ p e hkin hleaves hp he =>
    obtain ⟨-, q₁, hq₁, hparent, -⟩ := of_process?_finish (hleaves.keyed hk) hp hq
    obtain ⟨q₀, hq₀, hparent₀, -⟩ := hkin.of_process? hq₁
    obtain ⟨p₀, hp₀, -, hsub⟩ := hkin.of_process? hp
    rcases hparent with hparent | ⟨c, hmem, hc⟩
    · exact ⟨q₀, hq₀, hparent.trans hparent₀⟩
    · exact absurd hc (hno (process?_finish (hleaves.keyed hk) pid e) p₀ hp₀ c (hsub hmem))

/-- Another process than the one that makes the step keeps its children as it has them, or is told
that this one has ended. -/
theorem Breeds.news (hb : w.Breeds pid d w') (hk : w.Keyed) (hne : r ≠ pid) (hr : r ≠ w.nextPid)
    (hp : w.process? r = some p) (hchild : p.signals.disposition Signal.child ≠ .ignored)
    (hq : w'.process? r = some q) :
    q.children = p.children ∧
        (∀ p', w.process? pid = some p' → p'.parent = r → (w'.process? pid).isSome) ∨
      ∃ e, q.children = p.children.finish pid e ∧ w'.process? pid = none ∧
        ∀ code, d.bind Doing.code? = some code → e = .exited code := by
  cases hb with
  | keeps hkin =>
    have hkin' := (hkin.others r hne)
    rw [kin?_eq_some hq, kin?_eq_some hp] at hkin'
    refine .inl ⟨congrArg Prod.snd (Option.some.inj hkin'), fun p' hp' _ => ?_⟩
    obtain ⟨p'', hp''⟩ := hkin.exists hp'
    rw [hp'']
    rfl
  | @forks w' p₀ cs hp₀ hcs hnext hkin =>
    have hkin' := hkin r
    rw [if_neg hr, if_neg hne, kin?_eq_some hq, kin?_eq_some hp] at hkin'
    refine .inl ⟨congrArg Prod.snd (Option.some.inj hkin'), fun p' hp' _ => ?_⟩
    have hself := hkin pid
    rw [if_pos rfl] at hself
    split at hself
    · obtain ⟨p'', hp'', -⟩ := exists_of_kin? hself
      rw [hp'']
      rfl
    · obtain ⟨p'', hp'', -⟩ := exists_of_kin? hself
      rw [hp'']
      rfl
  | @ends w₁ p₁ e hkin hleaves hp₁ he =>
    have hk₁ := hleaves.keyed hk
    obtain ⟨-, q₁, hq₁, -, hchildren⟩ := of_process?_finish hk₁ hp₁ hq
    have hkin' := (hkin.others r hne)
    rw [kin?_eq_some hq₁, kin?_eq_some hp] at hkin'
    have hsame : q₁.children = p.children := congrArg Prod.snd (Option.some.inj hkin')
    split at hchildren
    · refine .inr ⟨e, ?_, process?_finish hk₁ pid e, he⟩
      obtain ⟨q₀, hq₀, hown⟩ := exists_of_own?_eq (hleaves.own r hne) hq₁
      obtain rfl := Option.some.inj (hp.symm.trans hq₀)
      have hdisposition :=
        congrArg (fun o : Process => o.signals.disposition Signal.child) hown
      change q₁.signals.disposition Signal.child = p.signals.disposition Signal.child at hdisposition
      rw [hchildren, Process.told, if_neg (hdisposition ▸ hchild), ← hsame]
    · rename_i hparent
      refine .inl ⟨hchildren.trans hsame, fun p' hp' heq => absurd ?_ hparent⟩
      obtain ⟨p₀, hp₀, hparent₀, -⟩ := hkin.of_process? hp₁
      obtain rfl := Option.some.inj (hp'.symm.trans hp₀)
      rw [hparent₀, heq]

end JobShell.World
