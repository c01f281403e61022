import JobShell.Proofs.Isolation.Contents

/-!
# What moves an open file

* `Doing.moves?`: the descriptor that a process reads, writes or seeks through.
* `World.file?_step`: a step leaves every other open file that there is as it was.
* `World.OnFile.step_seek`: a process that seeks moves the open file, and nothing else changes.
* `Machine.Meets.file?`: an open file that the interpreter does not write to changes only when a
  process reads, writes or seeks through it.
-/

namespace JobShell

/-- The descriptor that a call goes through. -/
def Call.through? : Call → Option Nat
  | read fd _ | write fd _ | seek fd _ _ => some fd
  | _ => none

/-- The descriptor that a process has read, written or sought through. -/
def Doing.moves? : Doing → Option Nat
  | called (.read fd _) (.ok _) => some fd
  | called (.write fd _) (.ok _) => some fd
  | called (.seek fd _ _) (.ok _) => some fd
  | interrupted _ (.ok _) => some 1
  | _ => none

namespace World

variable {w w' : World} {p : Process} {pid : Pid} {c : Call} {id fd : Nat}

/-! ## Calls -/

theorem exists_of_openFile? {g : OpenFile} {k : Nat} (h : w.openFile? p fd = some (k, g)) :
    Table.get? p.descriptors fd = some k := by
  obtain ⟨k', hk, hfile⟩ := Option.bind_eq_some_iff.1 h
  obtain ⟨g', -, heq⟩ := Option.bind_eq_some_iff.1 hfile
  obtain ⟨rfl, -⟩ := Prod.mk.inj (Option.some.inj heq)
  exact hk

/-- A call leaves every open file that there is as it was, but for the one that it goes through. -/
theorem Effect.file?_eq (h : w.Effect p c w') (hid : id < w.nextFile)
    (hfd : ∀ fd, c.through? = some fd → Table.get? p.descriptors fd ≠ some id) :
    w'.file? id = w.file? id := by
  have hset {fd k offset : Nat} {g : OpenFile} {tree : FileTree} (hc : c.through? = some fd)
      (hopen : w.openFile? p fd = some (k, g)) :
      World.file? ({ w with tree }.setFile k { g with offset }) id = w.file? id := by
    refine file?_setFile_of_ne _ _ ?_
    rintro rfl
    exact hfd fd hc (exists_of_openFile? hopen)
  cases h with
  | reads hopen | seeks hopen | writes hopen => exact hset rfl hopen
  | breaks => exact congrArg (·.file? id) (rest_modifyProcess w p.pid _)
  | sends _ signal pids => exact congrArg (·.file? id) (rest_foldl_raise pids signal w)
  | opens =>
    unfold install
    split
    · rfl
    · exact (lasting_addFile _ _).files id hid
  | joins => exact (Effect.lasting (.joins _) rfl).files id hid
  | _ => rfl

theorem read_error {count : Nat} {e : Errno} (h : w.read p fd count = .done w' (.error e)) :
    w' = w := by
  unfold read at h
  split at h
  · cases h
    rfl
  split at h
  · cases h
    rfl
  dsimp only at h
  split at h
  · cases h
  · cases h
    rfl
  · split at h
    · split at h <;> cases h
    · cases h
  · split at h <;> cases h
    rfl

theorem write_error {text : Bytes} {e : Errno} (h : w.write p fd text = .done w' (.error e)) :
    w'.rest = w.rest := by
  unfold write at h
  split at h
  · cases h
    rfl
  split at h
  · cases h
    rfl
  split at h
  · cases h
    rfl
  · cases h
    rfl
  · split at h
    · cases h
      exact rest_modifyProcess w p.pid _
    · dsimp only at h
      split at h <;> cases h
  · split at h
    · split at h
      · rw [(Outcome.done.inj h).1]
      · cases h
      · cases h
      · cases h
        rfl
    · cases h
      rfl

theorem seek_error {offset : Int} {whence : Whence} {e : Errno}
    (h : w.seek p fd offset whence = (w', .error e)) : w' = w := by
  rcases w.seek_cases p fd offset whence with ⟨e', heq⟩ | ⟨k, g, n, -, heq⟩
  · exact (Prod.mk.inj (heq.symm.trans h)).1.symm
  · cases heq.symm.trans h

/-- A call that has been refused leaves the one that it goes through as well. -/
theorem file?_perform {reply : c.Reply} (h : w.perform p c = .done w' reply)
    (hid : id < w.nextFile)
    (hmoves : ∀ fd, (Doing.called c reply).moves? = some fd →
      Table.get? p.descriptors fd ≠ some id) : w'.file? id = w.file? id := by
  have heffect := w.effect_perform p c
  rw [h] at heffect
  have hgoes := Effect.file?_eq heffect hid
  cases c with
  | read fd count =>
    cases reply with
    | error e => rw [read_error h]
    | ok text => exact hgoes hmoves
  | write fd text =>
    cases reply with
    | error e => exact congrArg (·.file? id) (write_error h)
    | ok n => exact hgoes hmoves
  | seek fd offset whence =>
    cases reply with
    | error e =>
      have hseek : w.seek p fd offset whence = (w', .error e) :=
        Prod.ext (Outcome.done.inj h).1 (Outcome.done.inj h).2
      rw [seek_error hseek]
    | ok n => exact hgoes hmoves
  | _ => exact hgoes nofun

/-! ## Steps -/

theorem file?_modifyProcess (w : World) (pid : Pid) (f : Process → Process) (id : Nat) :
    (w.modifyProcess pid f).file? id = w.file? id :=
  congrArg (·.file? id) (rest_modifyProcess w pid f)

theorem Advances.file?_eq {d : Option Doing} (h : w.Advances p d w') (hid : id < w.nextFile)
    (hmoves : ∀ e fd, d = some e → e.moves? = some fd → Table.get? p.descriptors fd ≠ some id) :
    w'.file? id = w.file? id := by
  cases h with
  | idles | lingers => rfl
  | @quits text reply _ _ hwrite =>
    have hends {w₁ : World} : (w₁.finish p.pid (.exited 0)).file? id = w₁.file? id :=
      congrArg (·.file? id) (rest_finish w₁ p.pid _)
    rw [hends]
    refine file?_perform hwrite hid fun fd hfd => hmoves _ fd rfl ?_
    cases reply <;> exact hfd
  | exits => exact congrArg (·.file? id) (rest_finish w p.pid _)
  | forks =>
    rw [file?_modifyProcess]
    exact (lasting_fork w p _).files id hid
  | calls _ hperform =>
    rw [file?_modifyProcess]
    exact file?_perform hperform hid fun fd => hmoves _ fd rfl
  | waits _ _ hw => exact congrArg (·.file? id) (rest_of_wait hw)
  | breaks _ _ hw =>
    rw [file?_modifyProcess]
    exact congrArg (·.file? id) (rest_of_wait hw)
  | executes _ hperform =>
    exact congrArg (·.file? id) ((effect_of_become hperform).rest_eq rfl)

/-- A step leaves every open file that there is as it was, but for the one that it goes through. -/
theorem file?_step (hk : w.Keyed) (hid : id < w.nextFile)
    (hmoves : ∀ d fd, w.doing? pid = some d → d.moves? = some fd →
      w.descriptor? pid fd ≠ some id) : (w.step pid).1.file? id = w.file? id := by
  have hrest := rest_takeSignals signalCount w pid
  have hsame : (w.takeSignals signalCount pid).file? id = w.file? id :=
    congrArg (·.file? id) hrest
  have hnext : (w.takeSignals signalCount pid).nextFile = w.nextFile :=
    congrArg (·.nextFile) hrest
  rcases w.doing?_cases pid with ⟨hstep, -⟩ | ⟨p, hp, hstep, hd⟩
  · rw [hstep, hsame]
  · rw [hstep, ← hsame]
    refine (World.advances _ p).file?_eq (hnext ▸ hid) fun d fd hdoes hfd => ?_
    rw [descriptor?_takeSignals hk hp fd]
    exact hmoves d fd (hd.trans hdoes) hfd

/-- A process has sought through the open file. -/
theorem OnFile.step_seek {f : Entry} {way : OpenMode} {r : Regular} {offset n : Nat} {by_ : Int}
    {whence : Whence} (hk : w.Keyed) (h : w.OnFile f way id r offset)
    (hfd : w.descriptor? pid fd = some id)
    (hd : w.doing? pid = some (.called (.seek fd by_ whence) (.ok n))) :
    (w.step pid).1.OnFile f way id r n ∧ w.Confines (w.step pid).1 f id := by
  obtain ⟨p, next, w', hp, -, hperform, hstep⟩ := performed_of_doing? hd nofun
  have hget := (descriptor?_takeSignals hk hp fd).trans hfd
  have hrest := rest_takeSignals signalCount w pid
  have hseek : (w.takeSignals signalCount pid).seek p fd by_ whence = (w', .ok n) :=
    Prod.ext (Outcome.done.inj hperform).1 (Outcome.done.inj hperform).2
  obtain ⟨i, inode, hi, hinode, hnode, hmode, hopen⟩ := (h.of_rest hrest).openFile? hget
  rcases seek_cases _ p fd by_ whence with ⟨e, heq⟩ | ⟨k, g, n', hopen', heq⟩
  · cases heq.symm.trans hseek
  · obtain ⟨rfl, rfl⟩ := Prod.mk.inj (Option.some.inj (hopen'.symm.trans hopen))
    cases heq.symm.trans hseek
    rw [hstep]
    refine ⟨.of_rest ?_ (rest_modifyProcess _ _ _),
      .of_rest ?_ hrest (rest_modifyProcess _ _ _)⟩
    · exact ⟨i, inode, hi, hinode, Prod.ext hnode hmode, file?_setFile_self _ _ _⟩
    · exact ⟨rfl, fun k hk => file?_setFile_of_ne _ _ hk, fun j _ => rfl⟩

end World

/-! ## Incidents -/

namespace Machine

variable {m m' : Machine} {i : Incident} {id : Nat}

/-- What the interpreter writes goes through its standard output. -/
theorem file?_step_of_isWriting (hid : id < m.world.nextFile)
    (hfree : m.world.descriptor? m.pid 1 ≠ some id) (hwriting : m.isWriting) :
    m.step.1.world.file? id = m.world.file? id := by
  unfold isWriting at hwriting
  unfold step
  cases hp : m.process? with
  | none => rfl
  | some p =>
    rw [hp] at hwriting
    dsimp only at hwriting ⊢
    split
    · rfl
    split
    · rename_i hsignal
      rcases takeSignal?_cases hsignal with ⟨s, -, rfl⟩ | ⟨n, -, rfl⟩
      · exact World.file?_modifyProcess _ _ _ _
      · exact congrArg (·.file? id) (World.rest_takeSignal _ _ _)
    · have hacts := m.acts p
      generalize (m.act p).1 = m' at hacts
      cases hacts with
      | @writes text _ _ _ _ h =>
        refine (World.effect_of_done (c := .write 1 text) h).file?_eq hid fun fd heq => ?_
        obtain rfl := Option.some.inj heq
        rwa [World.descriptor?, show m.world.process? m.pid = some p from hp] at hfree
      | stands => rfl
      | moves hneed | forks hneed | groups hneed | sends hneed | changes hneed | leaves hneed =>
        simp [hneed] at hwriting

/-- An open file that the interpreter does not write to changes only when a process reads, writes or
seeks through it. -/
theorem Meets.file? (hm : m.Meets i m') (hs : m.world.Sound) (hid : id < m.world.nextFile)
    (hfree : m.world.descriptor? m.pid 1 ≠ some id)
    (hmoves : ∀ pid d fd, i = .happens (.turn pid) → m.world.doing? pid = some d →
      d.moves? = some fd → m.world.descriptor? pid fd ≠ some id) :
    m'.world.file? id = m.world.file? id := by
  by_cases hwrites : m.mayWrite i = true
  · cases hm with
    | happens hm =>
      cases hm with
      | turn => exact World.file?_step hs.keyed hid fun d fd => hmoves _ d fd rfl
      | works => exact file?_step_of_isWriting hid hfree hwrites
      | _ => cases hwrites
    | denied => cases hwrites
  · exact ((hm.upholds hs).lasting (Bool.eq_false_iff.2 hwrites)).files id hid

end Machine

end JobShell
