import JobShell.Proofs.Wiring.Calls

/-!
# What a step does to a process that meets a duty

* `Plumbing.after`: what has been made for the job after a call of one of its processes.
* `World.Moves`: what one step of a process comes to, with one constructor for each kind.
* `moves_due`: a call of a process that meets its duty is such a move, and the process goes on
  meeting its duty if it does not execute a program.
* `moves_advance`: so is every step that it makes, be it that it takes its leave.
-/

namespace JobShell

/-- What has been made for a job once process `p` of it has made its next call. -/
def Plumbing.after (m : Plumbing) (w : World) (p : Process) : Plumbing :=
  match p.due? with
  | some (.call (.open path mode bits) _) =>
    match (w.open_ p path mode bits).2 with
    | .ok _ => { m with opened := some { path, mode, file := w.nextFile } }
    | .error _ => m
  | some (.call .pipe _) =>
    match (w.makePipe p).2 with
    | .ok _ =>
      { m with pipes := m.pipes ++
          [{ number := w.nextPipe, read := w.nextFile, write := w.nextFile + 1 }] }
    | .error _ => m
  | some (.fork ..) => { m with started := m.started ++ [w.nextPid] }
  | _ => m

namespace World

/-- The process goes on with a program that meets its duty. -/
def Goes (w : World) (d : Duty) (pid : Pid) (t : Bindings) (m : Plumbing) : Prop :=
  ∃ a, w.grip? pid = some { pid, program := some a, bindings := t } ∧ a.Meets d t m

/-- What a step of process `pid` comes to, that had bindings `t`: the world and the plumbing after
it, and whether the process has executed a program. -/
inductive Moves (d : Duty) (w : World) (pid : Pid) (t : Bindings) (m : Plumbing) :
    World → Plumbing → Bool → Prop where
  | ends {w' : World} (hk : w.Keeps w' (· ≠ pid)) (hg : w'.grip? pid = none) :
      Moves d w pid t m w' m false
  | goes {w' : World} {t' : Bindings} (hk : w.Keeps w' (· ≠ pid)) (ht : t'.Below w.nextFile)
      (hg : w'.Goes d pid t' m) : Moves d w pid t m w' m false
  | executes {w' : World} (hk : w.Keeps w' (· ≠ pid)) (hx : d.exec t m)
      (hg : ∃ a, w'.grip? pid = some { pid, program := a, bindings := t.kept }) :
      Moves d w pid t m w' m true
  | opens {w' : World} {fd : Nat} {b : Binding} {o : Object} {opened : Opened} (hl : d.leads)
      (hm : m.pipes = []) (hb : b.file = w.nextFile) (hopened : opened.file = w.nextFile)
      (ho : ∀ n, o.pipe? = some n → ∃ id o', w.object? id = some o' ∧ o'.pipe? = some n)
      (ha : w.Adds w' (· ≠ pid) [o] 0)
      (hg : w'.Goes d pid (t.set fd (some b)) { m with opened := some opened }) :
      Moves d w pid t m w' { m with opened := some opened } false
  | pipes {w' : World} {r o : Nat} {b b' : Binding} (hl : d.leads) (hb : b.file = w.nextFile)
      (hb' : b'.file = w.nextFile + 1)
      (ha : w.Adds w' (· ≠ pid) [.readEnd w.nextPipe, .writeEnd w.nextPipe] 1)
      (hg : w'.Goes d pid ((t.set r (some b)).set o (some b'))
        { m with pipes := m.pipes ++
            [{ number := w.nextPipe, read := w.nextFile, write := w.nextFile + 1 }] }) :
      Moves d w pid t m w' { m with pipes := m.pipes ++
        [{ number := w.nextPipe, read := w.nextFile, write := w.nextFile + 1 }] } false
  | forks {w₁ w' : World} {child : Act} (hl : d.leads) (hc : d.child child t m)
      (hf : w.Forks w₁ t child) (hk : w₁.Keeps w' (· ≠ pid))
      (hg : w'.Goes d pid t { m with started := m.started ++ [w.nextPid] }) :
      Moves d w pid t m w' { m with started := m.started ++ [w.nextPid] } false

variable {d : Duty} {w w' : World} {p : Process} {m : Plumbing}

/-! ## Going on -/

theorem goes_modifyProcess (hk : w.Keyed) {pid : Pid} {f : Process → Process} {a : Act}
    {b : Option Act} {t : Bindings} (hf : ∀ q, (f q).grip = { q.grip with program := some a })
    (hg : w.grip? pid = some { pid, program := b, bindings := t }) (hm : a.Meets d t m) :
    w.Keeps (w.modifyProcess pid f) (· ≠ pid) ∧ (w.modifyProcess pid f).Goes d pid t m := by
  have hpid : ∀ q, (f q).pid = q.pid := fun q => congrArg Grip.pid (hf q)
  refine ⟨keeps_modifyProcess hk pid hpid, a, ?_, hm⟩
  rw [grip?_modifyProcess hk hpid, if_pos rfl]
  unfold grip? at hg
  cases hp : w.process? pid with
  | none =>
    rw [hp] at hg
    cases hg
  | some p =>
    rw [hp, Option.map_some, Option.some.injEq] at hg
    rw [Option.map_some, hf, hg]

theorem advance_of_due? {a : Act} (hdue : p.due? = some a) : w.advance p = w.proceed p := by
  unfold advance
  rw [(Process.of_due? hdue).1]

theorem advance_of_farewell? {text : Bytes} (hf : p.farewell? = some text) :
    w.advance p = w.quit p text := by
  unfold advance
  rw [hf]

theorem advance_of_idle (hf : p.farewell? = none) (hprogram : p.program = none) :
    w.advance p = (w, false) := by
  unfold advance
  rw [hf]
  dsimp only
  rw [proceed, hprogram]

/-- A process that takes its leave ends, or has to wait for its farewell to be taken from it. -/
theorem quit_cases (w : World) (p : Process) (text : Bytes) :
    (∃ w' r, w.write p 1 text = .done w' r ∧
      (w.quit p text).1 = w'.finish p.pid (.exited 0)) ∨
    w.write p 1 text = .wait w ∧ (w.quit p text).1 = w := by
  unfold quit
  rcases w.write_cases p 1 text with ⟨w', r, h⟩ | h
  · exact .inl ⟨w', r, h, by rw [h]⟩
  · exact .inr ⟨h, by rw [h]⟩

theorem advance_done {c : Call} {next : c.Reply → Act} {r : c.Reply}
    (hdue : p.due? = some (.call c next)) (h : w.perform p c = .done w' r) :
    (w.advance p).1 = w'.modifyProcess p.pid fun q => { q with program := some (next r) } := by
  rw [advance_of_due? hdue]
  unfold proceed
  rw [(Process.of_due? hdue).2]
  dsimp only
  rw [h]

theorem advance_become {c : Call} {next : c.Reply → Act}
    (hdue : p.due? = some (.call c next)) (h : w.perform p c = .become w') :
    (w.advance p).1 = w' := by
  rw [advance_of_due? hdue]
  unfold proceed
  rw [(Process.of_due? hdue).2]
  dsimp only
  rw [h]

theorem advance_wait {c : Call} {next : c.Reply → Act}
    (hdue : p.due? = some (.call c next)) (h : w.perform p c = .wait w') :
    (w.advance p).1 = w' ∨ ∃ r, (w.advance p).1 = w'.modifyProcess p.pid fun q =>
      { q with program := some (next r), interrupted := false, wake := none } := by
  rw [advance_of_due? hdue]
  unfold proceed
  rw [(Process.of_due? hdue).2]
  dsimp only
  rw [h]
  dsimp only
  split
  · exact .inr ⟨_, rfl⟩
  · exact .inl rfl

theorem advance_fork {child : Act} {next : Except Errno Pid → Act}
    (hdue : p.due? = some (.fork child next)) :
    (w.advance p).1 = (w.fork p child).2.modifyProcess p.pid
      fun q => { q with program := some (next (.ok w.nextPid)) } := by
  rw [advance_of_due? hdue, proceed, (Process.of_due? hdue).2]
  rfl

theorem advance_exit {code : UInt8} (hdue : p.due? = some (.exit code)) :
    (w.advance p).1 = w.finish p.pid (.exited code) := by
  rw [advance_of_due? hdue, proceed, (Process.of_due? hdue).2]

/-! ## A call -/

theorem after_plain {c : Call} {next : c.Reply → Act}
    (hdue : p.due? = some (.call c next)) (hc : c.isPlain) :
    m.after w p = m ∧ w.executes p = false := by
  unfold Plumbing.after executes
  rw [hdue]
  cases c <;> first | exact ⟨rfl, rfl⟩ | cases hc

/-- A call that has come to its end, and after which the process holds `t`. -/
theorem moves_done (hs : w.Sound) {c : Call} {next : c.Reply → Act} {r : c.Reply} {t : Bindings}
    (hdue : p.due? = some (.call c next)) (h : w.perform p c = .done w' r)
    (hr : w.Rebinds w' p t) (ht : t.Below w.nextFile) (hm : (next r).Meets d t m) :
    w.Moves d p.pid p.bindings m (w.advance p).1 m false := by
  rw [advance_done hdue h]
  obtain ⟨hk, hg⟩ := goes_modifyProcess (hr.keyed hs.keyed)
    (f := fun q => { q with program := some (next r) }) (fun _ => rfl) hr.self hm
  exact .goes (hr.keeps.trans hk) ht hg

section

variable (hs : w.Sound) (hp : w.process? p.pid = some p)
include hs hp

theorem below_bindings : p.bindings.Below w.nextFile :=
  hs.held p.pid p.grip (grip?_of_process? hp)

theorem moves_plain {c : Call} {next : c.Reply → Act} (hdue : p.due? = some (.call c next))
    (hc : c.isPlain) (hm : ∀ r, (next r).Meets d p.bindings m) :
    w.Moves d p.pid p.bindings m (w.advance p).1 m false := by
  have hbelow := below_bindings hs hp
  rcases perform_plain hs.keyed hp hc with ⟨w', r, h, hkeeps⟩ | h
  · exact moves_done hs hdue h (.of_keepsAll hkeeps hs hp) hbelow (hm r)
  · have hgrip := hs.grip? hp (Process.of_due? hdue).2
    rcases advance_wait hdue h with heq | ⟨r, heq⟩
    · rw [heq]
      exact .goes (.refl w _) hbelow ⟨.call c next, hs.grip? hp (Process.of_due? hdue).2, .plain hc hm⟩
    · rw [heq]
      obtain ⟨hk, hg⟩ := goes_modifyProcess hs.keyed
        (f := fun q => { q with program := some (next r), interrupted := false, wake := none })
        (fun _ => rfl) hgrip (hm r)
      exact .goes hk hbelow hg

theorem moves_close {fd : Nat} {next : Except Errno Unit → Act}
    (hdue : p.due? = some (.call (.close fd) next))
    (hm : ∀ r, (next r).Meets d (p.bindings.set fd none) m) :
    w.Moves d p.pid p.bindings m (w.advance p).1 m false :=
  moves_done hs hdue rfl (rebinds_close hs hp fd)
    ((below_bindings hs hp).set fun _ hb => by cases hb) (hm _)

theorem moves_dup2 {fd target : Nat} {next : Except Errno Unit → Act}
    (hdue : p.due? = some (.call (.dup2 fd target) next)) (hne : fd ≠ target)
    (he : ∀ e, (next (.error e)).Meets d p.bindings m)
    (hm : ∀ b, p.bindings fd = some b →
      (next (.ok ())).Meets d (p.bindings.set target (some { file := b.file })) m) :
    w.Moves d p.pid p.bindings m (w.advance p).1 m false := by
  have hbelow := below_bindings hs hp
  have hperform : w.perform p (.dup2 fd target) = .of (w.dup2 p fd target) := rfl
  rcases dup2_cases (w := w) (hs.tidy_process hp) hne with ⟨e, h⟩ | ⟨w', b, hb, h, hr⟩
  · rw [h] at hperform
    exact moves_done hs hdue hperform (.of_keepsAll (.refl w _) hs hp) hbelow (he e)
  · rw [h] at hperform
    refine moves_done hs hdue hperform hr (hbelow.set fun c hc => ?_) (hm b hb)
    cases hc
    exact hbelow fd b hb

theorem moves_exec {path : Bytes} {args env : List Bytes} {next : Errno → Act}
    (hdue : p.due? = some (.call (.exec path args env) next)) (hx : d.exec p.bindings m)
    (he : ∀ e, (next e).Meets d p.bindings m) :
    w.Moves d p.pid p.bindings m (w.advance p).1 m (w.executes p) := by
  have hexecutes : w.executes p = (w.program p path args env).isOk := by
    unfold executes
    rw [hdue]
  rcases exec_cases (w := w) (hs.tidy_process hp) path args env with
    ⟨e, h, hok⟩ | ⟨w', h, hok, hk, hg⟩
  · rw [hexecutes, hok]
    exact moves_done hs hdue h (.of_keepsAll (.refl w _) hs hp) (below_bindings hs hp) (he e)
  · rw [hexecutes, hok, advance_become hdue h]
    exact .executes hk hx hg

theorem moves_open {path : Bytes} {mode : OpenMode} {bits : Nat} {next : Except Errno Nat → Act}
    (hdue : p.due? = some (.call (.open path mode bits) next)) (hl : d.leads)
    (hpipes : m.pipes = []) (he : ∀ e, (next (.error e)).Meets d p.bindings m)
    (hm : ∀ fd b, p.bindings fd = none → (next (.ok fd)).Meets d (p.bindings.set fd (some b))
      { m with opened := some { path, mode, file := b.file } }) :
    w.Moves d p.pid p.bindings m (w.advance p).1 (m.after w p) false := by
  have hperform : w.perform p (.open path mode bits) = .of (w.open_ p path mode bits) := rfl
  have hafter : m.after w p = match (w.open_ p path mode bits).2 with
      | .ok _ => { m with opened := some { path, mode, file := w.nextFile } }
      | .error _ => m := by
    unfold Plumbing.after
    rw [hdue]
  have hopening := opening_open hs (hs.tidy_process hp) path mode bits
  generalize w.open_ p path mode bits = r at hperform hafter hopening
  rw [hafter]
  cases hopening with
  | refused h =>
    exact moves_done hs hdue hperform (.of_keepsAll h hs hp) (below_bindings hs hp) (he _)
  | @opened w' fd b o hfd hb ho h =>
    rw [advance_done hdue hperform]
    obtain ⟨hk, hg⟩ := goes_modifyProcess (h.keyed hs.keyed)
      (f := fun q => { q with program := some (next (.ok fd)) }) (fun _ => rfl) h.self (hm fd b hfd)
    rw [hb] at hg
    exact .opens hl hpipes hb rfl ho (h.adds.trans_keeps hk) hg

theorem moves_pipe {next : Except Errno (Nat × Nat) → Act}
    (hdue : p.due? = some (.call .pipe next)) (hl : d.leads)
    (he : ∀ e, (next (.error e)).Meets d p.bindings m)
    (hm : ∀ number r w b b', p.bindings r = none → p.bindings w = none → r ≠ w →
      (next (.ok (r, w))).Meets d ((p.bindings.set r (some b)).set w (some b'))
        { m with pipes := m.pipes ++ [{ number, read := b.file, write := b'.file }] }) :
    w.Moves d p.pid p.bindings m (w.advance p).1 (m.after w p) false := by
  have hperform : w.perform p .pipe = .of (w.makePipe p) := rfl
  have hafter : m.after w p = match (w.makePipe p).2 with
      | .ok _ => { m with pipes := m.pipes ++
          [{ number := w.nextPipe, read := w.nextFile, write := w.nextFile + 1 }] }
      | .error _ => m := by
    unfold Plumbing.after
    rw [hdue]
  rcases makePipe_cases hs (hs.tidy_process hp) with
    ⟨e, h⟩ | ⟨w', r, o, b, b', h, hr, ho, hro, hb, hb', hbinds⟩
  · rw [h] at hperform hafter
    rw [hafter]
    exact moves_done hs hdue hperform (.of_keepsAll (.refl w _) hs hp) (below_bindings hs hp)
      (he e)
  · rw [h] at hperform hafter
    rw [hafter, advance_done hdue hperform]
    obtain ⟨hk, hg⟩ := goes_modifyProcess (hbinds.keyed hs.keyed)
      (f := fun q => { q with program := some (next (.ok (r, o))) }) (fun _ => rfl) hbinds.self
      (hm w.nextPipe r o b b' hr ho hro)
    rw [hb, hb'] at hg
    exact .pipes hl hb hb' (hbinds.adds.trans_keeps hk) hg

theorem moves_fork {child : Act} {next : Except Errno Pid → Act}
    (hdue : p.due? = some (.fork child next)) (hl : d.leads)
    (hc : d.child child p.bindings m)
    (hm : ∀ pid, (next (.ok pid)).Meets d p.bindings { m with started := m.started ++ [pid] }) :
    w.Moves d p.pid p.bindings m (w.advance p).1 (m.after w p) false := by
  obtain ⟨-, hforks⟩ := forks_fork hs (hs.tidy_process hp) child
  have hafter : m.after w p = { m with started := m.started ++ [w.nextPid] } := by
    unfold Plumbing.after
    rw [hdue]
  have hgrip := hs.grip? hp (Process.of_due? hdue).2
  have hne : p.pid ≠ w.nextPid := Int.ne_of_lt (hs.pids _ _ hgrip)
  rw [advance_fork hdue, hafter]
  obtain ⟨hk, hg⟩ := goes_modifyProcess (hforks.keyed hs.keyed)
    (f := fun q => { q with program := some (next (.ok w.nextPid)) }) (fun _ => rfl)
    ((hforks.grips _ hne).trans hgrip) (hm w.nextPid)
  exact .forks hl hc hforks hk hg

/-- A process that takes its leave does nothing for the job. -/
theorem moves_quit {a : Act} {text : Bytes} (hprogram : p.program = some a)
    (hm : a.Meets d p.bindings m) :
    w.Moves d p.pid p.bindings m (w.quit p text).1 m false := by
  have hbelow := below_bindings hs hp
  rcases w.quit_cases p text with ⟨w', r, hwrite, h⟩ | ⟨-, h⟩
  · rw [h]
    have hkeeps : w.KeepsAll w' := by
      have heffect := effect_of_done (c := .write 1 text) hwrite
      exact heffect.keepsAll hs.keyed hp rfl
    have hkeyed := hs.keyed.of_keepsAll hkeeps
    exact .ends ((hkeeps.keeps _).trans (keeps_finish hkeyed p.pid _))
      (by rw [grip?_finish hkeyed, if_pos rfl])
  · rw [h]
    exact .goes (.refl w _) hbelow ⟨a, hs.grip? hp hprogram, hm⟩

/-- A call of a process that meets its duty. -/
theorem moves_due {a : Act} (hdue : p.due? = some a) (hm : a.Meets d p.bindings m) :
    w.Moves d p.pid p.bindings m (w.advance p).1 (m.after w p) (w.executes p) := by
  generalize ht : p.bindings = t at hm ⊢
  cases hm with
  | @exit code =>
    subst ht
    have hafter : m.after w p = m := by unfold Plumbing.after; rw [hdue]
    have hexecutes : w.executes p = false := by unfold executes; rw [hdue]
    rw [hafter, hexecutes, advance_exit hdue]
    exact .ends (keeps_finish hs.keyed p.pid _) (by rw [grip?_finish hs.keyed, if_pos rfl])
  | plain hc h =>
    subst ht
    obtain ⟨hafter, hexecutes⟩ := after_plain (m := m) (w := w) hdue hc
    rw [hafter, hexecutes]
    exact moves_plain hs hp hdue hc h
  | close h =>
    subst ht
    have hafter : m.after w p = m := by unfold Plumbing.after; rw [hdue]
    have hexecutes : w.executes p = false := by unfold executes; rw [hdue]
    rw [hafter, hexecutes]
    exact moves_close hs hp hdue h
  | dup2 hne he h =>
    subst ht
    have hafter : m.after w p = m := by unfold Plumbing.after; rw [hdue]
    have hexecutes : w.executes p = false := by unfold executes; rw [hdue]
    rw [hafter, hexecutes]
    exact moves_dup2 hs hp hdue hne he h
  | exec hx he =>
    subst ht
    have hafter : m.after w p = m := by unfold Plumbing.after; rw [hdue]
    rw [hafter]
    exact moves_exec hs hp hdue hx he
  | opens hl hpipes he h =>
    subst ht
    have hexecutes : w.executes p = false := by unfold executes; rw [hdue]
    rw [hexecutes]
    exact moves_open hs hp hdue hl hpipes he h
  | pipe hl he h =>
    subst ht
    have hexecutes : w.executes p = false := by unfold executes; rw [hdue]
    rw [hexecutes]
    exact moves_pipe hs hp hdue hl he h
  | fork hl hc _ h =>
    subst ht
    have hexecutes : w.executes p = false := by unfold executes; rw [hdue]
    rw [hexecutes]
    exact moves_fork hs hp hdue hl hc h

end

/-- A step of a process that meets its duty. -/
theorem moves_advance (hs : w.Sound) (hp : w.process? p.pid = some p) {a : Act}
    (hprogram : p.program = some a) (hm : a.Meets d p.bindings m) :
    w.Moves d p.pid p.bindings m (w.advance p).1 (m.after w p) (w.executes p) := by
  cases hf : p.farewell? with
  | none => exact moves_due hs hp ((Process.due?_of_none hf).trans hprogram) hm
  | some text =>
    have hdue : p.due? = none := by
      rw [Process.due?, hf]
      rfl
    have hafter : m.after w p = m := by unfold Plumbing.after; rw [hdue]
    have hexecutes : w.executes p = false := by unfold executes; rw [hdue]
    rw [hafter, hexecutes, advance_of_farewell? hf]
    exact moves_quit hs hp hprogram hm

/-! ## What a move keeps -/

namespace Moves

variable {pid : Pid} {t : Bindings} {m' : Plumbing} {ex : Bool}

theorem others (h : w.Moves d pid t m w' m' ex) {q : Pid} (hq : q ≠ pid)
    (hnew : q ≠ w.nextPid ∨ q ∉ m'.started) : w'.grip? q = w.grip? q := by
  cases h with
  | ends hk => exact hk.grips q hq
  | goes hk => exact hk.grips q hq
  | executes hk => exact hk.grips q hq
  | opens _ _ _ _ _ ha => exact ha.grips q hq
  | pipes _ _ _ ha => exact ha.grips q hq
  | forks _ _ hf hk =>
    refine (hk.grips q hq).trans (hf.grips q ?_)
    rintro rfl
    simp at hnew

theorem sound (h : w.Moves d pid t m w' m' ex) (hs : w.Sound) (hpid : pid < w.nextPid)
    (ht : t.Below w.nextFile) : w'.Sound := by
  cases h with
  | ends hk hg => exact hs.of_keeps hk hg fun g hg => by cases hg
  | goes hk ht' hg =>
    obtain ⟨a, hg, -⟩ := hg
    refine hs.of_keeps hk hg fun g hg => ?_
    cases hg
    exact ⟨rfl, hpid, ht', rfl⟩
  | executes hk _ hg =>
    obtain ⟨a, hg⟩ := hg
    refine hs.of_keeps hk hg fun g hg => ?_
    cases hg
    exact ⟨rfl, hpid, ht.kept, rfl⟩
  | opens _ _ hb _ ho ha hg =>
    obtain ⟨a, hg, -⟩ := hg
    refine hs.of_adds ha (fun g hg' => ?_) fun o' ho' n hn => ?_
    · rw [hg] at hg'
      cases hg'
      rw [ha.nextFile]
      refine ⟨rfl, hpid, (ht.mono (Nat.le_add_right _ _)).set fun c hc => ?_, rfl⟩
      cases hc
      rw [hb]
      exact Nat.lt_succ_self _
    · rw [List.mem_singleton] at ho'
      subst ho'
      obtain ⟨id, o', hid, hn'⟩ := ho n hn
      exact ha.nextPipe ▸ hs.pipes id o' n hid hn'
  | @pipes w' r o b b' _ hb hb' ha hg =>
    obtain ⟨a, hg, -⟩ := hg
    refine hs.of_adds ha (fun g hg' => ?_) fun o' ho' n hn => ?_
    · rw [hg] at hg'
      cases hg'
      rw [ha.nextFile]
      have hfirst : (t.set r (some b)).Below (w.nextFile + 2) := by
        refine (ht.mono (Nat.le_add_right _ 2)).set fun c hc => ?_
        cases hc
        rw [hb]
        exact Nat.lt_add_of_pos_right (by decide)
      refine ⟨rfl, hpid, hfirst.set fun c hc => ?_, rfl⟩
      cases hc
      rw [hb']
      exact Nat.lt_succ_self _
    · rw [ha.nextPipe]
      simp only [List.mem_cons, List.not_mem_nil, or_false] at ho'
      rcases ho' with rfl | rfl <;> cases hn <;> exact Nat.lt_succ_self _
  | forks _ _ hf hk hg =>
    obtain ⟨a, hg, -⟩ := hg
    refine (hf.sound hs ht).of_keeps hk hg fun g hg => ?_
    cases hg
    rw [hf.nextPid, hf.nextFile]
    exact ⟨rfl, Int.lt_trans hpid (Int.lt_succ _), ht, rfl⟩

/-- Only a process that leads makes anything for the job. -/
theorem made_eq (h : w.Moves d pid t m w' m' ex) (hl : ¬d.leads) : m' = m := by
  cases h with
  | ends => rfl
  | goes => rfl
  | executes => rfl
  | opens hl' => exact absurd hl' hl
  | pipes hl' => exact absurd hl' hl
  | forks hl' => exact absurd hl' hl

theorem nextPid_le (h : w.Moves d pid t m w' m' ex) : w.nextPid ≤ w'.nextPid := by
  cases h with
  | ends hk => exact Int.le_of_eq hk.nextPid.symm
  | goes hk => exact Int.le_of_eq hk.nextPid.symm
  | executes hk => exact Int.le_of_eq hk.nextPid.symm
  | opens _ _ _ _ _ ha => exact Int.le_of_eq ha.nextPid.symm
  | pipes _ _ _ ha => exact Int.le_of_eq ha.nextPid.symm
  | forks _ _ hf hk =>
    rw [hk.nextPid, hf.nextPid]
    exact Int.le_of_lt (Int.lt_succ _)

/-- A process has been started, or not. -/
theorem started_cases (h : w.Moves d pid t m w' m' ex) (hpid : pid < w.nextPid) :
    m'.started = m.started ∨
    m' = { m with started := m.started ++ [w.nextPid] } ∧ w'.nextPid = w.nextPid + 1 ∧ ex = false ∧
      ∃ child, d.child child t m ∧
        w'.grip? w.nextPid = some { pid := w.nextPid, program := some child, bindings := t } := by
  cases h with
  | ends => exact .inl rfl
  | goes => exact .inl rfl
  | executes => exact .inl rfl
  | opens => exact .inl rfl
  | pipes => exact .inl rfl
  | forks _ hc hf hk =>
    refine .inr ⟨rfl, hk.nextPid.trans hf.nextPid, rfl, _, hc, ?_⟩
    exact (hk.grips _ (Int.ne_of_gt hpid)).trans hf.child

end Moves

end World

end JobShell
