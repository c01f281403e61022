import JobShell.Proofs.Wiring.Tied

/-!
# The descriptors of the stages

What a stage holds when it has executed its program, and who holds the pipes when all have.

* `Plumbing.wanted`: the bindings a stage executes its program with.
* `Tied.source_of_executed`: what a stage that has executed its program holds, and where.
* `connected_of_run`: each stage is connected as it should be, and with all of them the job is
  closed.
-/

namespace JobShell

/-- What stage `k` executes its program with. -/
def Plumbing.wanted (m : Plumbing) (t₀ : Bindings) (pl : Pipeline) (k : Nat) : Bindings :=
  if k + 1 = pl.stages.length then m.ending (m.redirected pl.redirect t₀) k else m.goal t₀ pl k

namespace Plumbing

variable {m : Plumbing} {t₀ : Bindings} {pl : Pipeline} {k fd : Nat}

theorem wanted_zero : m.wanted t₀ pl k 0 = m.stdin (m.redirected pl.redirect t₀) k := by
  unfold wanted
  split
  · rfl
  · rfl

theorem wanted_one : m.wanted t₀ pl k 1 = if k + 1 = pl.stages.length then
    m.redirected pl.redirect t₀ 1 else m.pipes[k]?.map PipeEnds.writer := by
  unfold wanted
  split
  · rfl
  · rfl

/-- The redirection is of standard input or standard output. -/
theorem redirected_of_le (h : 2 ≤ fd) (r : Option Redirect) : m.redirected r t₀ fd = t₀ fd := by
  unfold redirected
  cases r with
  | none => rfl
  | some r =>
    cases m.opened with
    | none => rfl
    | some o =>
      refine Bindings.set_of_ne ?_
      cases r.kind <;> simp only [Redirect.Kind.descriptor] <;> omega

theorem wanted_of_le (h : 2 ≤ fd) : m.wanted t₀ pl k fd = t₀ fd := by
  have h0 : 0 ≠ fd := by omega
  have h1 : 1 ≠ fd := by omega
  unfold wanted
  split
  · exact (Bindings.set_of_ne h0).trans (redirected_of_le h _)
  · exact (Bindings.set_of_ne h1).trans ((Bindings.set_of_ne h0).trans (redirected_of_le h _))

end Plumbing

theorem Process.passes_eq (p : Process) (fd : Nat) :
    p.passes fd = (p.bindings.kept fd).map Binding.file := by
  unfold Process.passes Process.bindings Bindings.kept
  dsimp only
  cases Table.get? p.descriptors fd <;> by_cases h : fd ∈ p.closing <;> simp [h, Option.filter]

theorem Process.passes_lt {w : World} {p : Process} {fd id : Nat} (hs : w.Sound)
    (hp : w.process? p.pid = some p) (h : p.passes fd = some id) : id < w.nextFile := by
  rw [Process.passes_eq] at h
  obtain ⟨b, hb, rfl⟩ := Option.map_eq_some_iff.1 h
  exact (World.below_bindings hs hp).kept fd b hb

namespace Wiring

namespace Tied

variable {j : Wiring} {w : World} {p : Process} {pl : Pipeline} {pid : Pid} {k : Nat}

/-- A stage that has executed its program. -/
theorem wanted_of_executed (h : j.Tied w p.bindings pl) (hk : j.stage? pl k = some pid)
    (hex : pid ∈ j.executed) :
    j.made.Opens pl.redirect ∧ k ≤ j.made.pipes.length ∧ k < pl.stages.length ∧
    (k + 1 < pl.stages.length ↔ k < j.made.pipes.length) ∧
    ∀ fd, j.world.descriptor? pid fd =
      ((j.made.wanted p.bindings pl k).kept fd).map Binding.file := by
  unfold stage? at hk
  unfold Plumbing.wanted
  split at hk
  · rename_i hlast
    cases hk
    obtain ⟨a, t, hgrip, hopens, hpipes, hlen, ht⟩ := h.leader.done hex
    obtain rfl : k = j.made.started.length := by omega
    refine ⟨hopens, Nat.le_of_eq hpipes.symm, by omega, by omega, fun fd => ?_⟩
    rw [if_pos hlast, World.descriptor?_eq, hgrip, ht]
    rfl
  · rename_i hlast
    obtain ⟨hopens, hpipes, hlen, hengaged⟩ := h.stages k pid hk
    obtain ⟨a, t, hgrip, ht⟩ := hengaged.done hex
    refine ⟨hopens, Nat.le_of_lt hpipes, by omega, ⟨fun _ => hpipes, fun _ => hlen⟩, fun fd => ?_⟩
    rw [if_neg hlast, World.descriptor?_eq, hgrip, ht]
    rfl

theorem input_of_executed (h : j.Tied w p.bindings pl) (hk : j.stage? pl k = some pid)
    (hex : pid ∈ j.executed) : j.world.descriptor? pid 0 = j.input pl p k := by
  obtain ⟨hopens, -, -, -, hfd⟩ := h.wanted_of_executed hk hex
  rw [hfd, Bindings.kept, Plumbing.wanted_zero]
  cases k with
  | zero =>
    unfold input Plumbing.stdin Plumbing.redirected
    cases hr : pl.redirect with
    | none => exact (p.passes_eq 0).symm
    | some r =>
      rw [hr] at hopens
      obtain ⟨file, hfile⟩ := hopens
      obtain ⟨kind, target⟩ := r
      rw [hfile]
      cases kind with
      | input => rfl
      | truncate => exact (p.passes_eq 0).symm
      | append => exact (p.passes_eq 0).symm
  | succ k =>
    unfold input Plumbing.stdin
    dsimp only
    cases j.made.pipes[k]? <;> rfl

theorem output_of_executed (h : j.Tied w p.bindings pl) (hk : j.stage? pl k = some pid)
    (hex : pid ∈ j.executed) : j.world.descriptor? pid 1 = j.output pl p k := by
  obtain ⟨hopens, -, -, -, hfd⟩ := h.wanted_of_executed hk hex
  rw [hfd, Bindings.kept, Plumbing.wanted_one]
  unfold output
  split
  · unfold Plumbing.redirected
    cases hr : pl.redirect with
    | none => exact (p.passes_eq 1).symm
    | some r =>
      rw [hr] at hopens
      obtain ⟨file, hfile⟩ := hopens
      obtain ⟨kind, target⟩ := r
      rw [hfile]
      cases kind with
      | input => exact (p.passes_eq 1).symm
      | truncate => rfl
      | append => rfl
  · cases j.made.pipes[k]? <;> rfl

theorem others_of_executed (h : j.Tied w p.bindings pl) (hk : j.stage? pl k = some pid)
    (hex : pid ∈ j.executed) {fd : Nat} (hle : 2 ≤ fd) :
    j.world.descriptor? pid fd = p.passes fd := by
  obtain ⟨-, -, -, -, hfd⟩ := h.wanted_of_executed hk hex
  rw [hfd, Bindings.kept, Plumbing.wanted_of_le hle]
  exact (p.passes_eq fd).symm

/-- What a stage that has executed its program holds, and where: a file that has been there before
the job, the file of the redirection, or an end of a pipe of its own. -/
theorem source_of_executed (h : j.Tied w p.bindings pl) (hs : w.Sound)
    (hp : w.process? p.pid = some p) (hk : j.stage? pl k = some pid) (hex : pid ∈ j.executed)
    {fd id : Nat} (hfd : j.world.descriptor? pid fd = some id) :
    id < w.nextFile ∨
    (∃ r o, pl.redirect = some r ∧ j.made.opened = some o ∧ id = o.file ∧ fd = r.kind.descriptor ∧
      if r.kind = .input then k = 0 else k + 1 = pl.stages.length) ∨
    (∃ i e, j.made.pipes[i]? = some e ∧ id = e.read ∧ fd = 0 ∧ k = i + 1) ∨
    ∃ e, j.made.pipes[k]? = some e ∧ id = e.write ∧ fd = 1 := by
  have hpasses {fd : Nat} (hfd : p.passes fd = some id) : id < w.nextFile :=
    p.passes_lt hs hp hfd
  match fd with
  | 0 =>
    rw [h.input_of_executed hk hex] at hfd
    unfold input at hfd
    split at hfd
    · split at hfd
      · rename_i target hr
        obtain ⟨o, ho, rfl⟩ := Option.map_eq_some_iff.1 hfd
        exact .inr (.inl ⟨_, o, hr, ho, rfl, rfl, rfl⟩)
      · exact .inl (hpasses hfd)
    · obtain ⟨e, he, rfl⟩ := Option.map_eq_some_iff.1 hfd
      exact .inr (.inr (.inl ⟨_, e, he, rfl, rfl, rfl⟩))
  | 1 =>
    rw [h.output_of_executed hk hex] at hfd
    unfold output at hfd
    split at hfd
    · rename_i hlast
      cases hr : pl.redirect with
      | none =>
        rw [hr] at hfd
        exact .inl (hpasses hfd)
      | some r =>
        obtain ⟨kind, target⟩ := r
        rw [hr] at hfd
        cases kind with
        | input => exact .inl (hpasses hfd)
        | truncate =>
          obtain ⟨o, ho, rfl⟩ := Option.map_eq_some_iff.1 hfd
          exact .inr (.inl ⟨_, o, rfl, ho, rfl, rfl, hlast⟩)
        | append =>
          obtain ⟨o, ho, rfl⟩ := Option.map_eq_some_iff.1 hfd
          exact .inr (.inl ⟨_, o, rfl, ho, rfl, rfl, hlast⟩)
    · obtain ⟨e, he, rfl⟩ := Option.map_eq_some_iff.1 hfd
      exact .inr (.inr (.inr ⟨e, he, rfl, rfl⟩))
  | fd + 2 =>
    rw [h.others_of_executed hk hex (Nat.le_add_left 2 fd)] at hfd
    exact .inl (hpasses hfd)

/-- The end for reading of pipe `i` is the standard input of stage `i + 1`, and nowhere else. -/
theorem reads_of_executed (h : j.Tied w p.bindings pl) (hs : w.Sound)
    (hp : w.process? p.pid = some p) (hk : j.stage? pl k = some pid) (hex : pid ∈ j.executed)
    {i : Nat} {e : PipeEnds} (hi : j.made.pipes[i]? = some e) (fd : Nat) :
    j.world.Holds pid fd (.readEnd e.number) ↔ fd = 0 ∧ k = i + 1 := by
  constructor
  · rintro ⟨id, hid, hobject⟩
    obtain rfl := h.laid.eq_read hi hobject
    rcases h.source_of_executed hs hp hk hex hid with
      hold | ⟨r, o, -, ho, hfile, -⟩ | ⟨i', e', hi', hread, hfd, hk'⟩ | ⟨e', hi', hwrite, -⟩
    · exact absurd hold (Nat.not_lt.2 (h.laid.fresh i e hi).2.1)
    · exact absurd hfile.symm (h.laid.file_ne hi ho).1
    · rw [h.laid.read_inj hi hi' hread]
      exact ⟨hfd, hk'⟩
    · exact absurd hwrite (h.laid.read_ne_write hi hi')
  · rintro ⟨rfl, rfl⟩
    refine ⟨e.read, ?_, (h.laid.ends i e hi).1⟩
    rw [h.input_of_executed hk hex, Wiring.input, hi]
    rfl

/-- The end for writing of pipe `i` is the standard output of stage `i`, and nowhere else. -/
theorem writes_of_executed (h : j.Tied w p.bindings pl) (hs : w.Sound)
    (hp : w.process? p.pid = some p) (hk : j.stage? pl k = some pid) (hex : pid ∈ j.executed)
    {i : Nat} {e : PipeEnds} (hi : j.made.pipes[i]? = some e) (fd : Nat) :
    j.world.Holds pid fd (.writeEnd e.number) ↔ fd = 1 ∧ k = i := by
  constructor
  · rintro ⟨id, hid, hobject⟩
    obtain rfl := h.laid.eq_write hi hobject
    rcases h.source_of_executed hs hp hk hex hid with
      hold | ⟨r, o, -, ho, hfile, -⟩ | ⟨i', e', hi', hread, -⟩ | ⟨e', hi', hwrite, hfd⟩
    · exact absurd hold (Nat.not_lt.2 (h.laid.fresh i e hi).2.2)
    · exact absurd hfile.symm (h.laid.file_ne hi ho).2
    · exact absurd hread.symm (h.laid.read_ne_write hi' hi)
    · exact ⟨hfd, h.laid.write_inj hi' hi hwrite.symm⟩
  · rintro ⟨rfl, rfl⟩
    obtain ⟨-, -, -, hafter, -⟩ := h.wanted_of_executed hk hex
    have hlt := hafter.2 (List.getElem?_eq_some_iff.1 hi).1
    refine ⟨e.write, ?_, (h.laid.ends k e hi).2⟩
    rw [h.output_of_executed hk hex, Wiring.output, if_neg (Nat.ne_of_lt hlt), hi]
    rfl

/-- The file of the redirection is the standard input of the first stage or the standard output of the
last one, and nowhere else. -/
theorem redirect_of_executed (h : j.Tied w p.bindings pl) (hs : w.Sound)
    (hp : w.process? p.pid = some p) (hk : j.stage? pl k = some pid) (hex : pid ∈ j.executed)
    {r : Redirect} {file : Opened} (hr : pl.redirect = some r) (hfile : j.made.opened = some file)
    (fd : Nat) : j.world.descriptor? pid fd = some file.file ↔ fd = r.kind.descriptor ∧
      if r.kind = .input then k = 0 else k + 1 = pl.stages.length := by
  constructor
  · intro hid
    rcases h.source_of_executed hs hp hk hex hid with
      hold | ⟨r', o, hr', ho, -, hfd⟩ | ⟨i, e, hi, hread, -⟩ | ⟨e, hi, hwrite, -⟩
    · exact absurd hold (Nat.not_lt.2 (h.laid.opened _ hfile).1)
    · cases hr.symm.trans hr'
      exact hfd
    · exact absurd hread (h.laid.file_ne hi hfile).1
    · exact absurd hwrite (h.laid.file_ne hi hfile).2
  · rintro ⟨rfl, hstage⟩
    have hinput := h.input_of_executed hk hex
    have houtput := h.output_of_executed hk hex
    obtain ⟨kind, target⟩ := r
    cases kind with
    | input =>
      obtain rfl : k = 0 := hstage
      rw [Redirect.Kind.descriptor, hinput, Wiring.input, hr, hfile]
      rfl
    | truncate =>
      have hlast : k + 1 = pl.stages.length := hstage
      rw [Redirect.Kind.descriptor, houtput, Wiring.output, if_pos hlast, hr, hfile]
      rfl
    | append =>
      have hlast : k + 1 = pl.stages.length := hstage
      rw [Redirect.Kind.descriptor, houtput, Wiring.output, if_pos hlast, hr, hfile]
      rfl

theorem connected_of_executed (h : j.Tied w p.bindings pl) (hs : w.Sound)
    (hp : w.process? p.pid = some p) (hk : j.stage? pl k = some pid) (hex : pid ∈ j.executed) :
    j.Connected w p pl k pid := by
  obtain ⟨hopens, hle, hlt, hafter, -⟩ := h.wanted_of_executed hk hex
  exact {
    input := h.input_of_executed hk hex
    output := h.output_of_executed hk hex
    others := fun fd hle => h.others_of_executed hk hex hle
    before := fun i hi => by omega
    after := hafter.1
    reads := fun i e hi fd => h.reads_of_executed hs hp hk hex hi fd
    writes := fun i e hi fd => h.writes_of_executed hs hp hk hex hi fd
    redirect := fun r hr => by
      rw [hr] at hopens
      obtain ⟨file, hfile⟩ := hopens
      exact ⟨file, hfile, h.redirect_of_executed hs hp hk hex hr hfile⟩ }

/-! ## The whole job -/

/-- A process that holds a file made for the job is one of its stages. -/
theorem stage_of_holds (h : j.Tied w p.bindings pl) (hn : pl.stages ≠ []) {fd id : Nat}
    (hfd : j.world.descriptor? pid fd = some id) (hid : w.nextFile ≤ id) :
    ∃ k < pl.stages.length, j.stage? pl k = some pid := by
  have hpos : 0 < pl.stages.length := List.length_pos_iff.2 hn
  by_cases hmem : pid ∈ j.members
  · rcases List.mem_cons.1 hmem with rfl | hstarted
    · exact ⟨pl.stages.length - 1, by omega, if_pos (by omega)⟩
    · obtain ⟨k, hk⟩ := List.getElem?_of_mem hstarted
      obtain ⟨-, -, hlen, -⟩ := h.stages k pid hk
      exact ⟨k, by omega, (if_neg (by omega)).trans hk⟩
  · rw [World.descriptor?_eq] at hfd
    cases hg : j.world.grip? pid with
    | none =>
      rw [hg] at hfd
      cases hfd
    | some g =>
      rw [hg] at hfd
      obtain ⟨b, hb, rfl⟩ := Option.map_eq_some_iff.1 hfd
      exact absurd (h.outsiders pid g hmem hg fd b hb) (Nat.not_lt.2 hid)

section

variable (h : j.Tied w p.bindings pl) (hs : w.Sound) (hp : w.process? p.pid = some p)
  (hn : pl.stages ≠ [])
  (hall : ∀ k < pl.stages.length, ∃ pid ∈ j.executed, j.stage? pl k = some pid)

include h hn hall

theorem pipes_of_all_executed : j.made.pipes.length + 1 = pl.stages.length := by
  have hpos : 0 < pl.stages.length := List.length_pos_iff.2 hn
  obtain ⟨q, hq, hkq⟩ := hall (pl.stages.length - 1) (by omega)
  rw [stage?, if_pos (by omega)] at hkq
  cases hkq
  obtain ⟨a, t, -, -, hpipes, hlen, -⟩ := h.leader.done hq
  omega

include hs hp

/-- Nobody but stage `i` holds the end for writing of pipe `i`. -/
theorem writer_of_all_executed (i : Nat) (e : PipeEnds) (hi : j.made.pipes[i]? = some e) (pid : Pid)
    (fd : Nat) :
    j.world.Holds pid fd (.writeEnd e.number) ↔ j.stage? pl i = some pid ∧ fd = 1 := by
  have hlength := h.pipes_of_all_executed hn hall
  have hlt := (List.getElem?_eq_some_iff.1 hi).1
  constructor
  · rintro ⟨id, hid, hobject⟩
    obtain rfl := h.laid.eq_write hi hobject
    obtain ⟨k, hk, hstage⟩ := h.stage_of_holds hn hid (h.laid.fresh i e hi).2.2
    obtain ⟨q, hq, hstage'⟩ := hall k hk
    cases hstage.symm.trans hstage'
    obtain ⟨hfd, rfl⟩ := (h.writes_of_executed hs hp hstage hq hi fd).1 ⟨_, hid, hobject⟩
    exact ⟨hstage, hfd⟩
  · rintro ⟨hstage, rfl⟩
    obtain ⟨q, hq, hstage'⟩ := hall i (by omega)
    cases hstage.symm.trans hstage'
    exact (h.writes_of_executed hs hp hstage hq hi 1).2 ⟨rfl, rfl⟩

/-- Nobody but stage `i + 1` holds the end for reading of pipe `i`. -/
theorem reader_of_all_executed (i : Nat) (e : PipeEnds) (hi : j.made.pipes[i]? = some e) (pid : Pid)
    (fd : Nat) :
    j.world.Holds pid fd (.readEnd e.number) ↔ j.stage? pl (i + 1) = some pid ∧ fd = 0 := by
  have hlength := h.pipes_of_all_executed hn hall
  have hlt := (List.getElem?_eq_some_iff.1 hi).1
  constructor
  · rintro ⟨id, hid, hobject⟩
    obtain rfl := h.laid.eq_read hi hobject
    obtain ⟨k, hk, hstage⟩ := h.stage_of_holds hn hid (h.laid.fresh i e hi).2.1
    obtain ⟨q, hq, hstage'⟩ := hall k hk
    cases hstage.symm.trans hstage'
    obtain ⟨hfd, rfl⟩ := (h.reads_of_executed hs hp hstage hq hi fd).1 ⟨_, hid, hobject⟩
    exact ⟨hstage, hfd⟩
  · rintro ⟨hstage, rfl⟩
    obtain ⟨q, hq, hstage'⟩ := hall (i + 1) (by omega)
    cases hstage.symm.trans hstage'
    exact (h.reads_of_executed hs hp hstage hq hi 0).2 ⟨rfl, rfl⟩

theorem closed_of_executed : j.Closed w pl where
  length := h.pipes_of_all_executed hn hall
  distinct := h.laid.distinct
  fresh e he := by
    obtain ⟨i, hi⟩ := List.getElem?_of_mem he
    exact (h.laid.fresh i e hi).1
  writer := h.writer_of_all_executed hs hp hn hall
  reader := h.reader_of_all_executed hs hp hn hall
  ends i e hi pid hpid r := by
    have hwriter := h.writer_of_all_executed hs hp hn hall i e hi
    refine ⟨(World.hasWriter_iff h.sound _).2 ⟨pid, 1, (hwriter pid 1).2 ⟨hpid, rfl⟩⟩, ?_⟩
    rw [← Bool.not_eq_true, World.hasWriter_iff (h.sound.finish pid r)]
    exact World.not_holds_finish h.sound fun q fd hholds =>
      Option.some.inj (((hwriter q fd).1 hholds).1.symm.trans hpid)
  breaks i e hi pid hpid r := by
    have hreader := h.reader_of_all_executed hs hp hn hall i e hi
    refine ⟨(World.hasReader_iff h.sound _).2 ⟨pid, 0, (hreader pid 0).2 ⟨hpid, rfl⟩⟩, ?_⟩
    rw [← Bool.not_eq_true, World.hasReader_iff (h.sound.finish pid r)]
    exact World.not_holds_finish h.sound fun q fd hholds =>
      Option.some.inj (((hreader q fd).1 hholds).1.symm.trans hpid)

end

end Tied

/-- Whatever the order in which the processes of a job take turns: a stage that executes its program
does so with the right descriptors, and once all stages have been executed each pipe has one writer
and one reader. -/
theorem connected_of_run {w : World} {p : Process} {env : List Bytes} {pl : Pipeline} (hs : w.Sound)
    (hp : w.process? p.pid = some p) (hprogram : p.program = some (Launch.leader env pl).run)
    (h0 : (Table.get? p.descriptors 0).isSome) (h1 : (Table.get? p.descriptors 1).isSome)
    (hn : pl.stages ≠ []) (schedule : List Pid) :
    let j := (start w p.pid).run schedule
    (∀ k pid, j.stage? pl k = some pid → pid ∈ j.executed → j.Connected w p pl k pid) ∧
    ((∀ k < pl.stages.length, ∃ pid ∈ j.executed, j.stage? pl k = some pid) → j.Closed w pl) := by
  rw [← Process.isSome_bindings] at h0 h1
  have h : ((start w p.pid).run schedule).Tied w p.bindings pl :=
    (Tied.start hs hp hprogram h0 h1).run schedule
  exact ⟨fun k pid hk hex => h.connected_of_executed hs hp hk hex,
    fun hall => h.closed_of_executed hs hp hn hall⟩

/-! ## Three stages -/

/-- The output of the last is redirected. -/
def threeStages : Pipeline where
  stages := [["/a"], ["/a"], ["/a"]]
  redirect := some { kind := .truncate, target := "/o" }

/-- The leader of `threeStages`, with three standard streams. -/
def threeStagesLeader : Process where
  pid := 10
  parent := 5
  group := 5
  program := some (Launch.leader [] threeStages).run
  descriptors := [(0, 1), (1, 2), (2, 3)]
  directory := .inode FileTree.root

/-- A system with a program `/a`, in which that leader has just been forked. Its standard error is
the file `/e`. -/
def threeStagesWorld : World :=
  let program : Inode := { node := .file (Format.mark ++ [0x61]), mode := 0o755, owner := 0 }
  let errors : Inode := { node := .file [], mode := 0o644, owner := 0 }
  let tree := (FileTree.empty.create FileTree.root [0x61] program 0).2
  let null : OpenFile := { object := .text [], readable := true }
  let standardError : OpenFile := { object := .inode 3, writable := true, append := true }
  World.setProcess
    { tree := (tree.create FileTree.root [0x65] errors 0).2
      files := ((∅ : Std.TreeMap Nat OpenFile).insert 1 null |>.insert 2 null).insert 3 standardError
      nextFile := 4
      nextPid := 11
      user := 0
      programs := fun _ => some { image := fun _ _ => .exit 0 } }
    threeStagesLeader

theorem sound_threeStagesWorld : threeStagesWorld.Sound := by
  have hobject (id : Nat) (o : Object) (h : threeStagesWorld.object? id = some o) :
      id < 4 ∧ o.pipe? = none := by
    simp only [threeStagesWorld, World.object?, World.file?, World.setProcess,
      Std.TreeMap.getElem?_insert, Std.TreeMap.getElem?_emptyc] at h
    grind [Object.pipe?]
  have hgrip (pid : Pid) (g : Grip) (h : threeStagesWorld.grip? pid = some g) :
      pid = 10 ∧ g = threeStagesLeader.grip := by
    rw [threeStagesWorld, World.grip?_setProcess] at h
    split at h
    · rename_i hpid
      exact ⟨hpid.symm, (Option.some.inj h).symm⟩
    · simp [World.grip?, World.process?] at h
  exact {
    keyed := fun pid g h => by
      obtain ⟨rfl, rfl⟩ := hgrip pid g h
      rfl
    pids := fun pid g h => by
      obtain ⟨rfl, rfl⟩ := hgrip pid g h
      decide
    held := fun pid g h fd b hb => by
      obtain ⟨rfl, rfl⟩ := hgrip pid g h
      simp only [Process.grip, Process.bindings, threeStagesLeader, Table.get?] at hb
      show b.file < 4
      grind
    tidy := fun pid g h => by
      obtain ⟨rfl, rfl⟩ := hgrip pid g h
      decide
    files := fun id o h => (hobject id o h).1
    pipes := fun id o n h hn => by
      cases (hobject id o h).2.symm.trans hn }

/-- The stages are started and executed, two of them while the leader goes on. -/
def threeStagesRun : Wiring :=
  (start threeStagesWorld threeStagesLeader.pid).run
    (List.replicate 13 10 ++ [11, 11, 10, 11, 10, 10, 10, 11, 12, 10, 12, 10, 12, 12])

theorem closed_threeStagesRun :
    (∀ k < 3, ∃ pid, threeStagesRun.stage? threeStages k = some pid ∧
      threeStagesRun.Connected threeStagesWorld threeStagesLeader threeStages k pid) ∧
    threeStagesRun.Closed threeStagesWorld threeStages := by
  obtain ⟨hconnected, hclosed⟩ := connected_of_run sound_threeStagesWorld (p := threeStagesLeader)
    rfl rfl rfl rfl (by decide) _
  have hall : ∀ k < 3, ∃ pid ∈ threeStagesRun.executed,
      threeStagesRun.stage? threeStages k = some pid := by decide +kernel
  refine ⟨fun k hk => ?_, hclosed hall⟩
  obtain ⟨pid, hex, hstage⟩ := hall k hk
  exact ⟨pid, hstage, hconnected k pid hstage hex⟩

end Wiring

end JobShell
