import JobShell.Proofs.Isolation.Incidents

/-!
# Numbers that are used have been given

* `World.sound_perform`, `World.sound_step`: whatever a process asks for, the numbers of processes,
  open files and pipes that are used are among those that have been given.
* `Machine.Meets.upholds`: so it is after every incident, and files are left as they are by all but
  those that may write, `Machine.mayWrite`.
-/

namespace JobShell

theorem Process.bindings_copyAbove (p : Process) (fd file : Nat) :
    ({ p with
      descriptors := Table.set p.descriptors fd file
      closing := fd :: p.closing } : Process).bindings =
      p.bindings.set fd (some { file, closing := true }) := by
  funext n
  unfold Process.bindings Bindings.set
  dsimp only
  rw [Table.get?_set]
  split
  · rename_i h
    simp [h]
  · rename_i h
    simp [Ne.symm h]

namespace World

variable {w w' : World} {p q : Process} {pid : Pid} {t : Bindings}

theorem Sound.of_spares (hs : w.Sound) (h : w.Spares w' pid) : w'.Sound := by
  refine hs.of_keeps h.keeps rfl fun g hg => ?_
  rcases h.self with heq | hnone
  · have hold : w.grip? pid = some g := heq.symm.trans hg
    exact ⟨hs.keyed pid g hold, hs.pids pid g hold, hs.held pid g hold, hs.tidy pid g hold⟩
  · cases hnone.symm.trans hg

theorem Sound.of_keepsAll (hs : w.Sound) (h : w.KeepsAll w') : w'.Sound :=
  hs.of_spares (h.spares adopter)

/-- A process that keeps its descriptors is changed. -/
theorem Sound.modifyProcess (hs : w.Sound) (pid : Pid) {f : Process → Process}
    (hf : ∀ q, (f q).pid = q.pid ∧ (f q).descriptors = q.descriptors ∧ (f q).closing = q.closing) :
    (w.modifyProcess pid f).Sound := by
  have hpid (q : Process) : (f q).pid = q.pid := (hf q).1
  refine hs.of_keeps (keeps_modifyProcess hs.keyed pid hpid) rfl fun g hg => ?_
  rw [grip?_modifyProcess hs.keyed hpid, if_pos rfl] at hg
  obtain ⟨q, hq, rfl⟩ := Option.map_eq_some_iff.1 hg
  have hold : w.grip? pid = some q.grip := by
    show (w.process? pid).map _ = _
    rw [hq]
    rfl
  have hbindings : (f q).bindings = q.bindings := by
    unfold Process.bindings
    rw [(hf q).2.1, (hf q).2.2]
  have htidy : (f q).tidy = q.tidy := by
    unfold Process.tidy
    rw [(hf q).2.1]
  refine ⟨(hpid q).trans (hs.keyed pid _ hold), hs.pids pid _ hold, ?_, ?_⟩
  · show (f q).bindings.Below w.nextFile
    rw [hbindings]
    exact hs.held pid _ hold
  · show (f q).tidy
    rw [htidy]
    exact hs.tidy pid _ hold

/-! ## Calls -/

theorem Sound.of_rebinds (hs : w.Sound) (hp : w.process? p.pid = some p) (h : w.Rebinds w' p t)
    (ht : t.Below w.nextFile) : w'.Sound := by
  refine hs.of_keeps h.keeps h.self fun g hg => ?_
  obtain rfl := Option.some.inj hg
  exact ⟨rfl, hs.pids p.pid _ (grip?_of_process? hp), ht, rfl⟩

theorem Sound.of_binds {os : List Object} {k : Nat} (hs : w.Sound)
    (hp : w.process? p.pid = some p) (h : w.Binds w' p t os k)
    (ht : t.Below (w.nextFile + os.length))
    (hos : ∀ o ∈ os, ∀ n, o.pipe? = some n → n < w.nextPipe + k) : w'.Sound := by
  refine hs.of_adds h.adds (fun g hg => ?_) fun o ho n hn => ?_
  · obtain rfl := Option.some.inj (h.self.symm.trans hg)
    rw [h.adds.nextFile]
    exact ⟨rfl, hs.pids p.pid _ (grip?_of_process? hp), ht, rfl⟩
  · rw [h.adds.nextPipe]
    exact hos o ho n hn

section

variable (hs : w.Sound) (hp : w.process? p.pid = some p)
include hs hp

theorem sound_open (path : Bytes) (mode : OpenMode) (bits : Nat) :
    (w.open_ p path mode bits).1.Sound := by
  have hopening := opening_open hs (hs.tidy_process hp) path mode bits
  generalize w.open_ p path mode bits = r at hopening
  cases hopening with
  | refused h => exact hs.of_keepsAll h
  | @opened w' fd b o hfd hb ho h =>
    refine hs.of_binds hp h (((below_bindings hs hp).mono (Nat.le_succ _)).set fun c hc => ?_)
      fun o' ho' n hn => ?_
    · obtain rfl := Option.some.inj hc
      rw [hb]
      exact Nat.lt_succ_self _
    · obtain rfl := List.mem_singleton.1 ho'
      obtain ⟨id, o'', hid, hn'⟩ := ho n hn
      exact hs.pipes id o'' n hid hn'

theorem sound_makePipe : (w.makePipe p).1.Sound := by
  rcases makePipe_cases hs (hs.tidy_process hp) with
    ⟨e, h⟩ | ⟨w', r, o, b, b', h, hr, ho, hro, hb, hb', hbinds⟩
  · rw [h]
    exact hs
  · rw [h]
    refine hs.of_binds hp hbinds ?_ fun o' ho' n hn => ?_
    · refine (((below_bindings hs hp).mono (Nat.le_add_right _ 2)).set fun c hc => ?_).set
        fun c hc => ?_
      · obtain rfl := Option.some.inj hc
        rw [hb]
        exact Nat.lt_add_of_pos_right (by decide)
      · obtain rfl := Option.some.inj hc
        rw [hb']
        exact Nat.lt_succ_self _
    · simp only [List.mem_cons, List.not_mem_nil, or_false] at ho'
      rcases ho' with rfl | rfl <;> cases hn <;> exact Nat.lt_succ_self _

theorem sound_copyAbove (fd least : Nat) : (w.copyAbove p fd least).1.Sound := by
  unfold copyAbove
  cases hfile : Table.get? p.descriptors fd with
  | none => exact hs
  | some id =>
    dsimp only
    split
    · exact hs
    · have hbelow := below_bindings hs hp
      refine hs.of_rebinds hp (rebinds_setProcess rfl rfl (Process.tidy_set
        (hs.tidy_process hp) rfl)) ?_
      rw [Process.bindings_copyAbove]
      refine hbelow.set fun c hc => ?_
      obtain rfl := Option.some.inj hc
      refine hbelow fd { file := id, closing := decide (fd ∈ p.closing) } ?_
      rw [Process.bindings, hfile]
      rfl

theorem sound_dup2 (fd target : Nat) : (w.dup2 p fd target).1.Sound := by
  by_cases hne : fd = target
  · have hsame : (w.dup2 p fd target).1 = w := by
      unfold dup2
      split
      · rfl
      · split
        · rfl
        · rfl
    rw [hsame]
    exact hs
  · rcases dup2_cases (w := w) (hs.tidy_process hp) hne with ⟨e, h⟩ | ⟨w', b, hb, h, hr⟩
    · rw [h]
      exact hs
    · rw [h]
      have hbelow := below_bindings hs hp
      refine hs.of_rebinds hp hr (hbelow.set fun c hc => ?_)
      obtain rfl := Option.some.inj hc
      exact hbelow fd b hb

theorem all_sound_exec (path : Bytes) (args env : List Bytes) :
    (w.exec p path args env).All Sound := by
  rcases exec_cases (w := w) (hs.tidy_process hp) path args env with
    ⟨e, h, -⟩ | ⟨w', h, -, hk, a, hg⟩
  · rw [h]
    exact hs
  · rw [h]
    refine hs.of_keeps hk hg fun g hg => ?_
    obtain rfl := Option.some.inj hg
    exact ⟨rfl, hs.pids p.pid _ (grip?_of_process? hp), (below_bindings hs hp).kept, rfl⟩

/-- Whatever a process asks for. -/
theorem sound_perform (c : Call) : (w.perform p c).All Sound := by
  cases hc : c.rebinds with
  | false =>
    exact (w.effect_perform p c).imp fun _ h => hs.of_keepsAll (h.keepsAll hs.keyed hp hc)
  | true =>
    cases c with
    | «open» path mode bits => exact sound_open hs hp path mode bits
    | close fd =>
      exact hs.of_rebinds hp (rebinds_close hs hp fd)
        ((below_bindings hs hp).set fun _ hb => nomatch hb)
    | pipe => exact sound_makePipe hs hp
    | copyAbove fd least => exact sound_copyAbove hs hp fd least
    | dup2 fd target => exact sound_dup2 hs hp fd target
    | exec path args env => exact all_sound_exec hs hp path args env
    | _ => cases hc

/-! ## Steps -/

theorem sound_fork (child : Act) : (w.fork p child).2.Sound :=
  (forks_fork hs (hs.tidy_process hp) child).2.sound hs (below_bindings hs hp)

theorem Advances.sound {d : Option Doing} (h : w.Advances p d w') : w'.Sound := by
  have hgoes {w₁ : World} (h : w₁.Sound) {f : Process → Process}
      (hf : ∀ q, (f q).pid = q.pid ∧ (f q).descriptors = q.descriptors ∧ (f q).closing = q.closing) :
      (w₁.modifyProcess p.pid f).Sound := h.modifyProcess p.pid hf
  have hcalls (c : Call) := sound_perform hs hp c
  cases h with
  | idles | lingers => exact hs
  | @quits text _ _ _ hperform =>
    have hsound := hcalls (.write 1 text)
    rw [hperform] at hsound
    exact hsound.of_spares (spares_finish hsound.keyed p.pid _)
  | exits => exact hs.of_spares (spares_finish hs.keyed p.pid _)
  | forks => exact hgoes (sound_fork hs hp _) fun _ => ⟨rfl, rfl, rfl⟩
  | @calls c _ _ _ _ hperform | @breaks c _ _ _ _ hperform =>
    have hsound := hcalls c
    rw [hperform] at hsound
    exact hgoes hsound fun _ => ⟨rfl, rfl, rfl⟩
  | @waits c _ _ _ hperform =>
    have hsound := hcalls c
    rw [hperform] at hsound
    exact hsound
  | @executes path args env _ _ _ hperform =>
    have hsound := hcalls (.exec path args env)
    rw [hperform] at hsound
    exact hsound

end

theorem sound_takeSignals (hs : w.Sound) (n : Nat) (pid : Pid) : (w.takeSignals n pid).Sound :=
  hs.of_spares (spares_takeSignals hs.keyed n pid)

theorem sound_step (hs : w.Sound) (pid : Pid) : (w.step pid).1.Sound := by
  have h := sound_takeSignals hs signalCount pid
  rcases w.doing?_cases pid with ⟨hstep, -⟩ | ⟨p, hp, hstep, -⟩
  · rw [hstep]
    exact h
  · obtain rfl := h.keyed.pid_eq hp
    rw [hstep]
    exact (World.advances _ p).sound h hp

end World

/-! ## Incidents -/

namespace Machine

variable {m m' : Machine} {p : Process} {i : Incident} {is : List Incident}

/-- The interpreter is next to write, unless a signal comes first. -/
def isWriting (m : Machine) : Bool :=
  match m.process? with
  | some p => match (m.current p).need with
    | .write .. => true
    | _ => false
  | none => false

/-- All numbers that are used have been given, and files are left as they are unless `writes`. -/
structure Upholds (m : Machine) (writes : Bool) (m' : Machine) : Prop where
  sound : m'.world.Sound
  lasting : writes = false → m.world.Lasting m'.world

theorem Upholds.of_rest {writes : Bool} (hs : m'.world.Sound) (h : m'.world.rest = m.world.rest) :
    m.Upholds writes m' :=
  ⟨hs, fun _ => .of_rest h⟩

variable {writes : Bool}

theorem upholds_keep (hs : m.world.Sound) (s : Shell) : m.Upholds writes (m.keep s) :=
  .of_rest (hs.modifyProcess m.pid fun _ => ⟨rfl, rfl, rfl⟩) (World.rest_modifyProcess _ _ _)

theorem Acts.upholds (h : m.Acts p m') (hs : m.world.Sound) (hp : m.process? = some p) :
    m.Upholds m.isWriting m' := by
  have hk := hs.keyed
  have hself : m.world.process? p.pid = some p := by
    rw [hk.pid_eq hp]
    exact hp
  have hsound {c : Call} {w : World} (h : m.world.Effect p c w) (hc : c.rebinds = false) :
      w.Sound := hs.of_keepsAll (h.keepsAll hk hself hc)
  cases h with
  | moves => exact upholds_keep hs _
  | forks => exact ⟨World.sound_fork hs hself _, fun _ => World.lasting_fork _ _ _⟩
  | @groups pid =>
    have heffect := World.effect_setGroup (w := m.world) (p := p) pid pid
    exact .of_rest (hsound heffect rfl) (heffect.rest_eq rfl)
  | @sends pid n =>
    have heffect := World.effect_kill (w := m.world) (p := p) pid n
    exact .of_rest (hsound heffect rfl) (heffect.rest_eq rfl)
  | @writes text next world r hneed h =>
    have hwriting : m.isWriting = true := by
      unfold isWriting
      rw [hp]
      dsimp only
      rw [hneed]
    refine ⟨hsound (World.effect_of_done (c := .write 1 text) h) rfl, fun hnot => ?_⟩
    exact absurd (hwriting.symm.trans hnot) Bool.noConfusion
  | changes _ heffect => exact .of_rest (hsound heffect rfl) (heffect.rest_eq rfl)
  | leaves => exact .of_rest (hs.of_spares (World.spares_finish hk m.pid _)) (World.rest_finish _ _ _)
  | stands => exact .of_rest hs rfl

theorem upholds_step (hs : m.world.Sound) : m.Upholds m.isWriting m.step.1 := by
  unfold step
  split
  · exact .of_rest hs rfl
  · rename_i p hp
    split
    · exact .of_rest hs rfl
    · split
      · rename_i hsignal
        rcases takeSignal?_cases hsignal with ⟨s, -, rfl⟩ | ⟨n, -, rfl⟩
        · exact upholds_keep hs s
        · exact .of_rest (hs.of_spares (World.spares_takeSignal hs.keyed hp n))
            (World.rest_takeSignal _ _ _)
      · exact (m.acts p).upholds hs hp

/-- What may change files. -/
def mayWrite (m : Machine) : Incident → Bool
  | .happens (.turn pid) => (m.world.doing? pid).any (!·.isCalm)
  | .happens .works => m.isWriting
  | _ => false

theorem Meets.upholds (hm : m.Meets i m') (hs : m.world.Sound) : m.Upholds (m.mayWrite i) m' := by
  cases hm with
  | happens hm =>
    cases hm with
    | line => exact .of_rest hs rfl
    | passes clock =>
      exact ⟨hs.of_keepsAll ⟨fun _ _ => rfl, fun _ => rfl, rfl, rfl, rfl⟩,
        fun _ => ⟨rfl, fun _ _ => rfl, Nat.le_refl _⟩⟩
    | works => exact upholds_step hs
    | refused => exact upholds_keep hs _
    | @turn pid hpid =>
      refine ⟨World.sound_step hs pid, fun hnot => World.lasting_step fun d hd => ?_⟩
      unfold mayWrite at hnot
      dsimp only at hnot
      rw [hd, Option.any_some, Bool.not_eq_false'] at hnot
      exact hnot
    | sent pid n =>
      exact .of_rest (hs.of_keepsAll (World.keepsAll_raise hs.keyed pid n))
        (World.rest_modifyProcess _ _ _)
  | @denied pid e d world hpid hd =>
    obtain ⟨p, a, b, hp, -, -, rfl⟩ := World.denied?_eq_some hd
    have hset : m.world.setProcess { p with program := some b } =
        m.world.modifyProcess pid fun q => { q with program := some b } := by
      rw [World.modifyProcess, hp]
    refine .of_rest ?_ rfl
    show (m.world.setProcess _).Sound
    rw [hset]
    exact hs.modifyProcess pid fun _ => ⟨rfl, rfl, rfl⟩

theorem sound_of_meets? (hs : m.world.Sound) (h : m.meets? is = some m') : m'.world.Sound :=
  meets?_induction (P := fun _ m' => m'.world.Sound) hs
    (fun _ _ _ _ _ hs₁ hm => ((meets_of_meet? hs₁.keyed hm).upholds hs₁).sound) h

end Machine

end JobShell
