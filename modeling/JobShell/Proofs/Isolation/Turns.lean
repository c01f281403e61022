import JobShell.Proofs.Isolation.Kin
import JobShell.Proofs.Wiring.Paths

/-!
# What a process does in a step

A process that runs a program of its own takes its signals and then makes its next call, if it can.

* `World.doing?`: what a process does in its next step.
* `World.Advances`: what it does when it has taken its signals, and what becomes of the world, with
  one constructor for each kind; `World.advances` says that the list is complete.
* `World.Takes`: what that step comes to for its program, `World.takes_step`.
* `World.Lasting`: the tree of files and the open files are as they were. `World.lasting_step`: so it
  is with a step in which a process does nothing that could change files.
* `World.denied?`: the system refuses it what it asks for next, `Doing.IsDenied`.
-/

namespace JobShell.World

/-- The program a process goes on with. -/
def program? (w : World) (pid : Pid) : Option Act := (w.process? pid).bind Process.program

/-- What comes of the next call of a process with its program. -/
def calls? (w : World) (p : Process) : Option Doing :=
  match p.program with
  | none => none
  | some (.exit code) => some (.exited code)
  | some (.fork child _) => some (.forked child (.ok w.nextPid))
  | some (.call c _) =>
    match w.perform p c with
    | .done _ reply => some (.called c reply)
    | .become _ =>
      match c with
      | .exec path args env => some (.executed path args env)
      | _ => none
    | .wait _ =>
      match c.interrupted?, p.interrupted with
      | some reply, true => some (.called c reply)
      | _, _ => none

/-- What a process does that has taken its signals: it takes its leave, or makes its next call. -/
def does? (w : World) (p : Process) : Option Doing :=
  match p.farewell? with
  | some text =>
    match w.write p 1 text with
    | .done _ reply => some (.interrupted text reply)
    | _ => none
  | none => w.calls? p

/-- What a process does in its next step; a signal may end it. -/
def doing? (w : World) (pid : Pid) : Option Doing :=
  let after := w.takeSignals signalCount pid
  match after.process? pid with
  | none => (w.process? pid).map fun _ => .killed
  | some p => if p.stopped then none else after.does? p

/-- What a step comes to for a process that goes on with program `a`. -/
inductive Takes (w' : World) (pid : Pid) (a : Act) : Option Doing → Prop where
  | waits (h : w'.program? pid = some a) : Takes w' pid a none
  | goes {b : Act} {d : Doing} (hd : a.Does d (some b)) (h : w'.program? pid = some b) :
      Takes w' pid a (some d)
  | ends {d : Doing} (hd : a.Does d none) (h : d.executes = false → w'.process? pid = none) :
      Takes w' pid a (some d)
  | quits {text : Bytes} {reply : Except Errno Nat} (h : w'.process? pid = none) :
      Takes w' pid a (some (.interrupted text reply))

/-- What `p` does when it has taken its signals, and what becomes of the world. -/
inductive Advances (w : World) (p : Process) : Option Doing → World → Prop where
  | idles (hf : p.farewell? = none) (hprogram : p.program = none) : w.Advances p none w
  | quits {text : Bytes} {reply : Except Errno Nat} {w' : World} (hf : p.farewell? = some text)
      (h : w.perform p (.write 1 text) = .done w' reply) :
    w.Advances p (some (.interrupted text reply)) (w'.finish p.pid (.exited 0))
  /-- Its farewell is not taken from it. -/
  | lingers {text : Bytes} (hf : p.farewell? = some text)
      (h : w.perform p (.write 1 text) = .wait w) : w.Advances p none w
  | exits {code : UInt8} (hdue : p.due? = some (.exit code)) :
    w.Advances p (some (.exited code)) (w.finish p.pid (.exited code))
  | forks {child : Act} {next : Except Errno Pid → Act}
      (hdue : p.due? = some (.fork child next)) :
    w.Advances p (some (.forked child (.ok w.nextPid))) ((w.fork p child).2.modifyProcess p.pid
      fun q => { q with program := some (next (.ok w.nextPid)) })
  | calls {c : Call} {next : c.Reply → Act} {reply : c.Reply} {w' : World}
      (hdue : p.due? = some (.call c next)) (h : w.perform p c = .done w' reply) :
    w.Advances p (some (.called c reply))
      (w'.modifyProcess p.pid fun q => { q with program := some (next reply) })
  | waits {c : Call} {next : c.Reply → Act} {w' : World}
      (hdue : p.due? = some (.call c next)) (h : w.perform p c = .wait w')
      (hw : w' = w ∨ ∃ wake, w' = w.setProcess { p with wake }) : w.Advances p none w'
  /-- A signal interrupts the call. -/
  | breaks {c : Call} {next : c.Reply → Act} {reply : c.Reply} {w' : World}
      (hdue : p.due? = some (.call c next)) (h : w.perform p c = .wait w')
      (hw : w' = w ∨ ∃ wake, w' = w.setProcess { p with wake })
      (hreply : c.interrupted? = some reply) :
    w.Advances p (some (.called c reply)) (w'.modifyProcess p.pid fun q =>
      { q with program := some (next reply), interrupted := false, wake := none })
  | executes {path : Bytes} {args env : List Bytes} {next : Errno → Act} {w' : World}
      (hdue : p.due? = some (.call (.exec path args env) next))
      (h : w.perform p (.exec path args env) = .become w') :
    w.Advances p (some (.executed path args env)) w'

variable {w w' w₁ : World} {p q : Process} {pid : Pid} {a b : Act} {c : Call} {d : Option Doing}

/-- After its signals a process makes its next call, or it has ended or is stopped. -/
theorem doing?_cases (w : World) (pid : Pid) :
    (w.step pid).1 = w.takeSignals signalCount pid ∧
      (w.doing? pid = none ∧ ((w.takeSignals signalCount pid).process? pid).isSome ∨
        w.doing? pid = (w.process? pid).map (fun _ => .killed) ∧
          (w.takeSignals signalCount pid).process? pid = none) ∨
    ∃ p, (w.takeSignals signalCount pid).process? pid = some p ∧
      (w.step pid).1 = ((w.takeSignals signalCount pid).advance p).1 ∧
      w.doing? pid = (w.takeSignals signalCount pid).does? p := by
  unfold step doing?
  dsimp only
  generalize w.takeSignals signalCount pid = w₁
  cases hp : w₁.process? pid with
  | none => exact .inl ⟨rfl, .inr ⟨rfl, rfl⟩⟩
  | some p => cases hs : p.stopped <;> simp [hs]

theorem program?_eq_some (hp : w.process? pid = some p) : w.program? pid = p.program := by
  rw [program?, hp]
  rfl

theorem exists_of_program? (h : w.program? pid = some a) :
    ∃ p, w.process? pid = some p ∧ p.program = some a :=
  Option.bind_eq_some_iff.1 h

/-- A process goes on with another program, if it lives. -/
theorem program?_modifyProcess (hk : w.Keyed) {f : Process → Process}
    (hf : ∀ p, (f p).pid = p.pid) (hprogram : ∀ p, (f p).program = some b)
    (hp : w.process? pid = some p) : (w.modifyProcess pid f).program? pid = some b := by
  rw [program?, process?_modifyProcess hk hf, hp]
  exact hprogram p

/-! ## Calls -/

theorem read_cases (w : World) (p : Process) (fd count : Nat) :
    (∃ w' r, w.read p fd count = .done w' r) ∨ w.read p fd count = .wait w := by
  unfold read
  split
  · exact .inl ⟨_, _, rfl⟩
  · split
    · exact .inl ⟨_, _, rfl⟩
    · dsimp only
      split
      · exact .inl ⟨_, _, rfl⟩
      · exact .inl ⟨_, _, rfl⟩
      · split
        · split
          · exact .inr rfl
          · exact .inl ⟨_, _, rfl⟩
        · exact .inl ⟨_, _, rfl⟩
      · split <;> exact .inl ⟨_, _, rfl⟩

theorem wait_cases (w : World) (p : Process) (which : Option Pid) (block : Bool) :
    (∃ w' r, w.wait p which block = .done w' r) ∨ w.wait p which block = .wait w := by
  unfold wait
  dsimp only
  split
  · exact .inl ⟨_, _, rfl⟩
  · split
    · exact .inr rfl
    · exact .inl ⟨_, _, rfl⟩
  · exact .inl ⟨_, _, rfl⟩

theorem sleep_cases (w : World) (p : Process) (nanos : Nat) :
    (∃ w' r, w.sleep p nanos = .done w' r) ∨
      ∃ wake, w.sleep p nanos = .wait (w.setProcess { p with wake }) ∨
        w.sleep p nanos = .wait w := by
  unfold sleep
  split
  · split
    · exact .inl ⟨_, _, rfl⟩
    · exact .inr ⟨_, .inl rfl⟩
  · split
    · exact .inl ⟨_, _, rfl⟩
    · exact .inr ⟨none, .inr rfl⟩

theorem ofChange_cases (w : World) (r : Except Errno World) :
    ∃ w' reply, Outcome.ofChange w r = .done w' reply := by
  cases r <;> exact ⟨_, _, rfl⟩

/-- A call is done, or has to be made again and has done nothing but set the time to wake, or
another program takes the place of the process. -/
theorem perform_cases (w : World) (p : Process) (c : Call) :
    (∃ w' r, w.perform p c = .done w' r) ∨
      (∃ w', w.perform p c = .wait w' ∧ (w' = w ∨ ∃ wake, w' = w.setProcess { p with wake })) ∨
      ∃ w' path args env, c = .exec path args env ∧ w.perform p c = .become w' := by
  cases c with
  | read fd count =>
    exact (read_cases w p fd count).imp id fun h => .inl ⟨_, h, .inl rfl⟩
  | write fd text =>
    exact (write_cases w p fd text).imp id fun h => .inl ⟨_, h, .inl rfl⟩
  | wait which block =>
    exact (wait_cases w p which block).imp id fun h => .inl ⟨_, h, .inl rfl⟩
  | sleep nanos =>
    rcases sleep_cases w p nanos with h | ⟨wake, h | h⟩
    · exact .inl h
    · exact .inr (.inl ⟨_, h, .inr ⟨wake, rfl⟩⟩)
    · exact .inr (.inl ⟨_, h, .inl rfl⟩)
  | exec path args env =>
    show (∃ w' r, w.exec p path args env = .done w' r) ∨ _
    change _ ∨ (∃ w', w.exec p path args env = .wait w' ∧ _) ∨
      ∃ w' path' args' env', _ ∧ w.exec p path args env = .become w'
    unfold exec
    split
    · exact .inl ⟨_, _, rfl⟩
    · exact .inr (.inr ⟨_, path, args, env, rfl, rfl⟩)
  | mkdir | rmdir | unlink | rename | link | symlink | chmod | touch =>
    exact .inl (ofChange_cases w _)
  | _ => exact .inl ⟨_, _, rfl⟩

theorem does?_of_due? (hdue : p.due? = some a) : w.does? p = w.calls? p := by
  unfold does?
  rw [(Process.of_due? hdue).1]

/-- A process that takes its leave does so, or has to wait. -/
theorem advances_quit {text : Bytes} (hf : p.farewell? = some text) :
    w.Advances p (w.does? p) (w.advance p).1 := by
  rw [advance_of_farewell? hf, does?, hf]
  dsimp only
  rcases w.quit_cases p text with ⟨w', r, hwrite, h⟩ | ⟨hwait, h⟩
  · rw [h, hwrite]
    exact .quits hf hwrite
  · rw [h, hwait]
    exact .lingers hf hwait

/-- A process makes the next call of its program. -/
theorem advances_due (hdue : p.due? = some a) : w.Advances p (w.does? p) (w.advance p).1 := by
  obtain ⟨-, hprogram⟩ := Process.of_due? hdue
  rw [does?_of_due? hdue, calls?, hprogram]
  cases a with
  | exit code =>
    rw [advance_exit hdue]
    exact .exits hdue
  | fork child next =>
    rw [advance_fork hdue]
    exact .forks hdue
  | call c next =>
    dsimp only
    rcases w.perform_cases p c with ⟨w', reply, h⟩ | ⟨w', h, hw⟩ | ⟨w', path, args, env, rfl, h⟩
    · rw [h, advance_done hdue h]
      exact .calls hdue h
    · rw [h, advance_of_due? hdue, proceed, hprogram]
      dsimp only
      rw [h]
      dsimp only
      cases hreply : c.interrupted? with
      | none => exact .waits hdue h hw
      | some reply =>
        cases p.interrupted with
        | false => exact .waits hdue h hw
        | true => exact .breaks hdue h hw hreply
    · rw [h, advance_become hdue h]
      exact .executes hdue h

theorem advances (w : World) (p : Process) : w.Advances p (w.does? p) (w.advance p).1 := by
  cases hf : p.farewell? with
  | some text => exact advances_quit hf
  | none =>
    have hdue := Process.due?_of_none hf
    cases hprogram : p.program with
    | some a => exact advances_due (hdue.trans hprogram)
    | none =>
      rw [advance_of_idle hf hprogram, does?, hf]
      dsimp only
      rw [calls?, hprogram]
      exact .idles hf hprogram

/-! ## The program -/

theorem Advances.takes (h : w.Advances p d w') (hk : w.Keyed) (hp : w.process? p.pid = some p)
    (hnew : p.pid ≠ w.nextPid) (hprogram : p.program = some a) : w'.Takes p.pid a d := by
  -- a process that waits is there as before, but for the time to wake
  have hthere {w₁ : World} (hw : w₁ = w ∨ ∃ wake, w₁ = w.setProcess { p with wake }) :
      w₁.Keyed ∧ ∃ q, w₁.process? p.pid = some q ∧ q.program = p.program := by
    rcases hw with rfl | ⟨wake, rfl⟩
    · exact ⟨hk, p, hp, rfl⟩
    · exact ⟨keyed_setProcess hk _, { p with wake }, by rw [process?_setProcess, if_pos rfl], rfl⟩
  cases h with
  | idles _ hnone => cases hnone.symm.trans hprogram
  | quits _ h =>
    have hkeyed := ((effect_of_done h).leaves hk).keyed hk
    exact .quits (process?_finish hkeyed _ _)
  | lingers => exact .waits ((program?_eq_some hp).trans hprogram)
  | exits hexit =>
    obtain rfl := Option.some.inj ((Process.of_due? hexit).2.symm.trans hprogram)
    exact .ends .exits fun _ => process?_finish hk _ _
  | @forks child next hfork =>
    obtain rfl := Option.some.inj ((Process.of_due? hfork).2.symm.trans hprogram)
    have hself := kin?_fork hk hp hnew child p.pid
    rw [if_neg hnew, if_pos rfl] at hself
    obtain ⟨q, hq, -⟩ := Option.map_eq_some_iff.1 hself
    exact .goes (.forks _) (program?_modifyProcess
      (f := fun q => { q with program := some (next (.ok w.nextPid)) })
      ((grows_fork hk p child).keyed hk) (fun _ => rfl) (fun _ => rfl) hq)
  | @calls c next reply w₁ hcall hperform =>
    obtain rfl := Option.some.inj ((Process.of_due? hcall).2.symm.trans hprogram)
    have heffect := effect_of_done hperform
    obtain ⟨q, hq⟩ := (heffect.akin hk hp).exists hp
    exact .goes (.calls reply) (program?_modifyProcess
      (f := fun q => { q with program := some (next reply) })
      ((heffect.leaves hk).keyed hk) (fun _ => rfl) (fun _ => rfl) hq)
  | waits hcall _ hw =>
    obtain ⟨-, q, hq, hsame⟩ := hthere hw
    exact .waits ((program?_eq_some hq).trans (hsame.trans hprogram))
  | @breaks c next reply w₁ hcall _ hw =>
    obtain rfl := Option.some.inj ((Process.of_due? hcall).2.symm.trans hprogram)
    obtain ⟨hkeyed, q, hq, -⟩ := hthere hw
    exact .goes (.calls reply) (program?_modifyProcess
      (f := fun q => { q with program := some (next reply), interrupted := false, wake := none })
      hkeyed (fun _ => rfl) (fun _ => rfl) hq)
  | executes hcall =>
    obtain rfl := Option.some.inj ((Process.of_due? hcall).2.symm.trans hprogram)
    exact .ends .executes nofun

/-- A process that takes its leave, and does not have to wait, is gone. -/
theorem gone_of_farewell? (hk : w.Keyed) {text : Bytes} (hf : p.farewell? = some text)
    (hd : w.does? p ≠ none) : (w.advance p).1.process? p.pid = none := by
  have hadvances := w.advances p
  generalize w.does? p = d, (w.advance p).1 = w' at hadvances hd ⊢
  cases hadvances with
  | quits _ h => exact process?_finish (((effect_of_done h).leaves hk).keyed hk) _ _
  | idles | lingers | waits => exact absurd rfl hd
  | exits h | forks h | calls h | breaks h | executes h =>
    cases (Process.of_due? h).1.symm.trans hf

/-- A process that takes its signals keeps its program, if it lives. -/
theorem program?_takeSignals (hk : w.Keyed) (n : Nat) (h : w.program? pid = some a)
    (hp : (w.takeSignals n pid).process? pid = some p) : p.program = some a := by
  obtain ⟨q, hq, hprogram⟩ := exists_of_program? h
  have hgrip : (w.takeSignals n pid).grip? pid = some p.grip := by rw [grip?, hp]; rfl
  rcases (spares_takeSignals hk n pid).2 with heq | hnone
  · rw [hgrip, grip?, hq] at heq
    rw [← hprogram]
    exact congrArg Grip.program (Option.some.inj heq)
  · rw [hgrip] at hnone
    cases hnone

/-- What a step comes to. -/
theorem takes_step (hk : w.Keyed) (hknown : pid < w.nextPid) (h : w.program? pid = some a) :
    (w.step pid).1.Takes pid a (w.doing? pid) := by
  have hleaves := leaves_takeSignals hk signalCount pid
  have hkeyed := hleaves.keyed hk
  rcases w.doing?_cases pid with ⟨hstep, ⟨hd, hlives⟩ | ⟨hd, hgone⟩⟩ | ⟨p, hp, hstep, hd⟩
  · obtain ⟨p, hp⟩ := Option.isSome_iff_exists.1 hlives
    rw [hstep, hd]
    refine .waits ?_
    rw [program?_eq_some hp, program?_takeSignals hk signalCount h hp]
  · obtain ⟨q, hq, -⟩ := exists_of_program? h
    rw [hstep, hd, hq]
    exact .ends .dies fun _ => hgone
  · have hprogram := program?_takeSignals hk signalCount h hp
    obtain rfl := hkeyed.pid_eq hp
    rw [← hleaves.nextPid_eq] at hknown
    rw [hstep, hd]
    exact (World.advances _ p).takes hkeyed hp (Int.ne_of_lt hknown) hprogram

/-- A call that has been answered, and not because a signal has interrupted it, has been made by the
process as it is after its signals. -/
theorem performed_of_doing? {reply : c.Reply} (h : w.doing? pid = some (.called c reply))
    (hreply : c.interrupted? ≠ some reply) : ∃ p next w',
      (w.takeSignals signalCount pid).process? pid = some p ∧ p.program = some (.call c next) ∧
      (w.takeSignals signalCount pid).perform p c = .done w' reply ∧
      (w.step pid).1 = w'.modifyProcess p.pid fun q => { q with program := some (next reply) } := by
  rcases w.doing?_cases pid with ⟨-, ⟨hd, -⟩ | ⟨hd, -⟩⟩ | ⟨p, hp, hstep, hd⟩
  · cases hd.symm.trans h
  · obtain ⟨-, -, hcode⟩ := Option.map_eq_some_iff.1 (hd.symm.trans h)
    cases hcode
  · have hadvances := World.advances (w.takeSignals signalCount pid) p
    rw [← hd, h, ← hstep] at hadvances
    generalize (w.step pid).1 = w' at hadvances
    cases hadvances with
    | calls hdue hperform => exact ⟨p, _, _, hp, (Process.of_due? hdue).2, hperform, rfl⟩
    | breaks _ _ _ hinterrupted => exact absurd hinterrupted hreply

/-! ## Files -/

/-- A world without its processes. -/
def rest (w : World) : World := { w with processes := ∅ }

/-- The tree of files is as it was, and so is every open file that there was. -/
structure Lasting (w w' : World) : Prop where
  tree : w'.tree = w.tree
  files : ∀ id, id < w.nextFile → w'.file? id = w.file? id
  nextFile : w.nextFile ≤ w'.nextFile

theorem Lasting.of_rest (h : w'.rest = w.rest) : w.Lasting w' :=
  ⟨congrArg (·.tree) h, fun id _ => congrArg (·.file? id) h,
    Nat.le_of_eq (congrArg (·.nextFile) h).symm⟩

theorem Lasting.refl (w : World) : w.Lasting w := .of_rest rfl

theorem Lasting.trans (h : w.Lasting w₁) (h' : w₁.Lasting w') : w.Lasting w' where
  tree := h'.tree.trans h.tree
  files id hid := (h'.files id (Nat.lt_of_lt_of_le hid h.nextFile)).trans (h.files id hid)
  nextFile := Nat.le_trans h.nextFile h'.nextFile

theorem rest_modifyProcess (w : World) (pid : Pid) (f : Process → Process) :
    (w.modifyProcess pid f).rest = w.rest := by
  unfold modifyProcess
  split <;> rfl

theorem rest_foldl (cs : Children) (f : Process → Process) (w : World) :
    (cs.foldl (fun w c => w.modifyProcess c.pid f) w).rest = w.rest := by
  induction cs generalizing w with
  | nil => rfl
  | cons c rest ih => exact (ih _).trans (rest_modifyProcess w c.pid f)

theorem rest_finish (w : World) (pid : Pid) (e : Ending) : (w.finish pid e).rest = w.rest := by
  cases hp : w.process? pid with
  | none =>
    unfold finish
    rw [hp]
  | some p =>
    rw [finish_of_process? hp, raise, rest_modifyProcess, rest_modifyProcess, rest_foldl]
    rfl

theorem rest_takeSignal (w : World) (p : Process) (n : Nat) :
    (w.takeSignal p n).rest = w.rest := by
  rcases w.takeSignal_cases p n with ⟨_, _, _, h⟩ | ⟨-, -, h⟩
  · rw [h]
    rfl
  · rw [h]
    exact rest_finish _ _ _

theorem rest_takeSignals (n : Nat) (w : World) (pid : Pid) :
    (w.takeSignals n pid).rest = w.rest :=
  takeSignals_induction (motive := fun w w' => w'.rest = w.rest) (fun _ => rfl)
    (fun w _ p s _ _ ih => ih.trans (rest_takeSignal w p s)) n w

/-- A text that has been written, in a call or as a farewell, has been written by the process as it is
after its signals. -/
theorem written_of_doing? {d : Doing} {fd n : Nat} {text : Bytes} (h : w.doing? pid = some d)
    (hd : d = .called (.write fd text) (.ok n) ∨ fd = 1 ∧ d = .interrupted text (.ok n)) :
    ∃ p w', (w.takeSignals signalCount pid).process? pid = some p ∧
      (w.takeSignals signalCount pid).write p fd text = .done w' (.ok n) ∧
      (w.step pid).1.rest = w'.rest := by
  rcases hd with rfl | ⟨rfl, rfl⟩
  · obtain ⟨p, next, w', hp, -, hperform, hstep⟩ := performed_of_doing? h nofun
    exact ⟨p, w', hp, hperform, hstep ▸ rest_modifyProcess _ _ _⟩
  · rcases w.doing?_cases pid with ⟨-, ⟨hd, -⟩ | ⟨hd, -⟩⟩ | ⟨p, hp, hstep, hd⟩
    · cases hd.symm.trans h
    · obtain ⟨-, -, hkilled⟩ := Option.map_eq_some_iff.1 (hd.symm.trans h)
      cases hkilled
    · have hadvances := World.advances (w.takeSignals signalCount pid) p
      rw [← hd, h, ← hstep] at hadvances
      generalize (w.step pid).1 = w' at hadvances
      cases hadvances with
      | quits _ hperform => exact ⟨p, _, hp, hperform, rest_finish _ _ _⟩

theorem lasting_fork (w : World) (p : Process) (child : Act) : w.Lasting (w.fork p child).2 := by
  have hset : w.Lasting
      ({ w with nextPid := w.nextPid + 1 }.setProcess (p.forked w.nextPid child)) :=
    ⟨rfl, fun _ _ => rfl, Nat.le_refl _⟩
  rw [fork_snd]
  exact hset.trans (.of_rest (rest_modifyProcess _ _ _))

theorem lasting_addFile (w : World) (f : OpenFile) : w.Lasting (w.addFile f).2 := by
  refine ⟨rfl, fun id hid => ?_, Nat.le_succ _⟩
  have hne := Nat.ne_of_gt hid
  simp [addFile, file?, Std.TreeMap.getElem?_insert, hne]

theorem rest_foldl_raise (pids : List Pid) (n : Nat) (w : World) :
    (pids.foldl (·.raise · n) w).rest = w.rest := by
  induction pids generalizing w with
  | nil => rfl
  | cons pid rest ih => exact (ih _).trans (rest_modifyProcess w pid _)

/-- A call that concerns processes only. -/
theorem Effect.rest_eq (h : w.Effect p c w') (hc : c.touches = false) : w'.rest = w.rest := by
  cases h with
  | same | closes | copies | repeats | stands | masks | moves | collects | disposes | unblocks |
    catches | sleeps | executes => rfl
  | sends _ signal pids => exact rest_foldl_raise pids signal w
  | changes hfiling => cases hc.symm.trans (Call.touches_of_isFiling hfiling)
  | opens | reads | drains | writes | fills | breaks | seeks | joins => cases hc

theorem Effect.lasting (h : w.Effect p c w') (hc : c.isCalm) : w.Lasting w' := by
  cases h with
  | joins =>
    have hpipe : w.Lasting { w with
        pipes := w.pipes.insert w.nextPipe [], nextPipe := w.nextPipe + 1 } :=
      ⟨rfl, fun _ _ => rfl, Nat.le_refl _⟩
    exact (hpipe.trans ((lasting_addFile _ _).trans (lasting_addFile _ _))).trans (.of_rest rfl)
  | same => exact .refl w
  | closes | repeats | moves | disposes | unblocks => exact .of_rest rfl
  | changes hfiling => cases c <;> cases hc <;> cases hfiling
  | _ => cases hc

theorem rest_of_wait (hw : w' = w ∨ ∃ wake, w' = w.setProcess { p with wake }) :
    w'.rest = w.rest := by
  rcases hw with rfl | ⟨wake, rfl⟩ <;> rfl

theorem Advances.lasting (h : w.Advances p d w') (hcalm : ∀ e, d = some e → e.isCalm) :
    w.Lasting w' := by
  have hgoes {w₁ : World} (h : w.Lasting w₁) {f : Process → Process} :
      w.Lasting (w₁.modifyProcess p.pid f) := h.trans (.of_rest (rest_modifyProcess _ _ _))
  cases h with
  | idles | lingers => exact .refl w
  | quits => cases hcalm _ rfl
  | exits => exact .of_rest (rest_finish _ _ _)
  | forks => exact hgoes (lasting_fork w p _)
  | calls _ hperform => exact hgoes ((effect_of_done hperform).lasting (hcalm _ rfl))
  | waits _ _ hw => exact .of_rest (rest_of_wait hw)
  | breaks _ _ hw => exact hgoes (.of_rest (rest_of_wait hw))
  | executes _ hperform => exact .of_rest ((effect_of_become hperform).rest_eq rfl)

/-- A step in which a process does nothing that could change files leaves them as they are. -/
theorem lasting_step (hcalm : ∀ d, w.doing? pid = some d → d.isCalm) :
    w.Lasting (w.step pid).1 := by
  have htaken : w.Lasting (w.takeSignals signalCount pid) :=
    .of_rest (rest_takeSignals signalCount w pid)
  rcases w.doing?_cases pid with ⟨hstep, -⟩ | ⟨p, hp, hstep, hd⟩
  · rw [hstep]
    exact htaken
  · rw [hd] at hcalm
    rw [hstep]
    exact htaken.trans ((World.advances _ p).lasting hcalm)

end JobShell.World

/-! ## Refusals -/

namespace JobShell

/-- A program is refused the file, the pipe or the process that it asks for next. -/
def Act.denied? (e : Errno) : Act → Option (Doing × Act)
  | .call (.open path mode bits) next =>
    some (.called (.open path mode bits) (.error e), next (.error e))
  | .call .pipe next => some (.called .pipe (.error e), next (.error e))
  | .fork child next => some (.forked child (.error e), next (.error e))
  | _ => none

/-- What it does then. -/
inductive Doing.IsDenied (e : Errno) : Doing → Prop where
  | file (path : Bytes) (mode : OpenMode) (bits : Nat) :
      IsDenied e (.called (.open path mode bits) (.error e))
  | pipe : IsDenied e (.called .pipe (.error e))
  | process (child : Act) : IsDenied e (.forked child (.error e))

theorem Act.isDenied_of_denied? {a b : Act} {d : Doing} {e : Errno}
    (h : a.denied? e = some (d, b)) : d.IsDenied e := by
  unfold denied? at h
  split at h <;> cases h <;> constructor

theorem Act.does_of_denied? {a b : Act} {d : Doing} {e : Errno} (h : a.denied? e = some (d, b)) :
    a.Does d (some b) := by
  unfold denied? at h
  split at h <;> cases h
  · exact .calls _
  · exact .calls _
  · exact .forks _

namespace World

/-- The system refuses a process what it asks for next. -/
def denied? (w : World) (pid : Pid) (e : Errno) : Option (Doing × World) :=
  match w.process? pid with
  | none => none
  | some p =>
    if p.stopped then none
    else (p.due?.bind (Act.denied? e)).map fun (d, a) =>
      (d, w.setProcess { p with program := some a })

theorem denied?_eq_some {w w' : World} {pid : Pid} {e : Errno} {d : Doing}
    (h : w.denied? pid e = some (d, w')) : ∃ p a b, w.process? pid = some p ∧
      p.program = some a ∧ a.denied? e = some (d, b) ∧
      w' = w.setProcess { p with program := some b } := by
  unfold denied? at h
  split at h
  · cases h
  · rename_i p hp
    split at h
    · cases h
    · obtain ⟨⟨d', b⟩, hdenied, heq⟩ := Option.map_eq_some_iff.1 h
      obtain ⟨a, hdue, hdenied⟩ := Option.bind_eq_some_iff.1 hdenied
      cases heq
      exact ⟨p, a, b, hp, (Process.of_due? hdue).2, hdenied, rfl⟩

end World

end JobShell
