import JobShell.Proofs.Isolation.Errand

/-!
# The file of a script

Foreground jobs one after another, each with a redirection to the same file.

* `Machine.Completes`: the interpreter carries out the jobs, and nobody else changes the file.
* `Errand.Leaves`: what there is in the file after them: the output since the last job that empties
  it, or what there was and all output.
* `Machine.gathers_outputs`: so it is, whatever else happens.
-/

namespace JobShell

variable {mask : Nat} {seen left : Option Regular} {text : Bytes} {kind : Redirect.Kind}

theorem Regular.modeOf_rewrites :
    Regular.modeOf mask (kind.rewrites mask text seen) = Regular.modeOf mask seen := by
  cases kind <;> rfl

/-- A file is known by its content and its mode. -/
theorem Regular.eq_some_of_isSome (mask : Nat) (h : seen.isSome) :
    seen = some { content := Regular.contentOf seen, mode := Regular.modeOf mask seen } := by
  obtain ⟨r, rfl⟩ := Option.isSome_iff_exists.1 h
  rfl

namespace Errand

variable {e : Errand} {es before later : List Errand}

/-- What the jobs that write have written, in the order of their lines. -/
def outputs (es : List Errand) : Bytes :=
  (es.filter (·.redirect.kind ≠ .input)).flatMap Errand.text

/-- What there is in a file after some jobs, when this was seen before them. -/
structure Leaves (mask : Nat) (seen : Option Regular) (es : List Errand) (left : Option Regular) :
    Prop where
  /-- All output since the last job that empties the file. -/
  since : ∀ before e later, es = before ++ e :: later → e.redirect.kind = .truncate →
    (∀ l ∈ later, l.redirect.kind ≠ .truncate) →
    left = some { content := outputs (e :: later), mode := Regular.modeOf mask seen }
  /-- What there was and all output, where none empties it. -/
  added : (∀ e ∈ es, e.redirect.kind ≠ .truncate) → (∃ e ∈ es, e.redirect.kind ≠ .input) →
    left = some
      { content := Regular.contentOf seen ++ outputs es, mode := Regular.modeOf mask seen }
  kept : (∀ e ∈ es, e.redirect.kind = .input) → left = seen

/-- The file after one job after another. -/
def rewritten (mask : Nat) (seen : Option Regular) (es : List Errand) : Option Regular :=
  es.foldl (fun seen e => e.redirect.kind.rewrites mask e.text seen) seen

theorem rewritten_append : rewritten mask seen (before ++ later) =
    rewritten mask (rewritten mask seen before) later := List.foldl_append

theorem rewritten_cons : rewritten mask seen (e :: es) =
    rewritten mask (e.redirect.kind.rewrites mask e.text seen) es := rfl

theorem modeOf_rewritten :
    Regular.modeOf mask (rewritten mask seen es) = Regular.modeOf mask seen := by
  induction es generalizing seen with
  | nil => rfl
  | cons e rest ih => rw [rewritten_cons, ih, Regular.modeOf_rewrites]

/-- What jobs add to a content that none of them empties. -/
theorem contentOf_rewritten (h : ∀ e ∈ es, e.redirect.kind ≠ .truncate) :
    Regular.contentOf (rewritten mask seen es) = Regular.contentOf seen ++ outputs es := by
  induction es generalizing seen with
  | nil => exact (List.append_nil _).symm
  | cons e rest ih =>
    have hfirst : Regular.contentOf (e.redirect.kind.rewrites mask e.text seen) ++ outputs rest =
        Regular.contentOf seen ++ outputs (e :: rest) := by
      cases hkind : e.redirect.kind with
      | truncate => exact absurd hkind (h e List.mem_cons_self)
      | input =>
        rw [outputs, outputs, List.filter_cons_of_neg (by simp [hkind])]
        rfl
      | append =>
        rw [outputs, outputs, List.filter_cons_of_pos (by simp [hkind]), List.flatMap_cons,
          ← List.append_assoc]
        rfl
    rw [rewritten_cons, ih fun l hl => h l (List.mem_cons_of_mem e hl), hfirst]

theorem isSome_rewritten_of_isSome (h : seen.isSome) : (rewritten mask seen es).isSome := by
  induction es generalizing seen with
  | nil => exact h
  | cons e rest ih =>
    rw [rewritten_cons]
    refine ih ?_
    cases e.redirect.kind with
    | input => exact h
    | truncate | append => rfl

/-- A job that writes makes the file. -/
theorem isSome_rewritten (h : ∃ e ∈ es, e.redirect.kind ≠ .input) :
    (rewritten mask seen es).isSome := by
  obtain ⟨e, hmem, hkind⟩ := h
  obtain ⟨before, later, rfl⟩ := List.append_of_mem hmem
  rw [rewritten_append, rewritten_cons]
  refine isSome_rewritten_of_isSome ?_
  cases hsame : e.redirect.kind with
  | input => exact absurd hsame hkind
  | truncate | append => rfl

theorem rewritten_of_input (h : ∀ e ∈ es, e.redirect.kind = .input) :
    rewritten mask seen es = seen := by
  induction es with
  | nil => rfl
  | cons e rest ih =>
    rw [rewritten_cons, h e List.mem_cons_self]
    exact ih fun l hl => h l (List.mem_cons_of_mem e hl)

theorem leaves_rewritten : Leaves mask seen es (rewritten mask seen es) where
  since := by
    rintro before e later rfl hkind hlater
    have hsome : (rewritten mask seen (before ++ e :: later)).isSome :=
      isSome_rewritten ⟨e, List.mem_append_right _ List.mem_cons_self, by rw [hkind]; nofun⟩
    have hcontent : Regular.contentOf (rewritten mask seen (before ++ e :: later)) =
        outputs (e :: later) := by
      rw [rewritten_append, rewritten_cons, contentOf_rewritten hlater, hkind, outputs, outputs,
        List.filter_cons_of_pos (by simp [hkind]), List.flatMap_cons]
      rfl
    rw [Regular.eq_some_of_isSome mask hsome, hcontent, modeOf_rewritten]
  added h hwrites := by
    rw [Regular.eq_some_of_isSome mask (isSome_rewritten hwrites), contentOf_rewritten h,
      modeOf_rewritten]
  kept := rewritten_of_input

/-- What comes of the file depends on nothing but the mask and the descriptors of the interpreter. -/
theorem Fulfils.of_own {m' : Machine} {p p₁ : Process} {f : Entry} (h : e.Fulfils p₁ f seen m')
    (hown : p₁.own = p.own) : e.Fulfils p f seen m' := by
  have hmask : p₁.umask = p.umask := congrArg (·.umask) hown
  have hdescriptors : p₁.descriptors = p.descriptors := congrArg (·.descriptors) hown
  obtain ⟨hshows, hopened, hbound, hapart, hreads⟩ := h
  rw [hmask] at hshows
  rw [hdescriptors] at hbound
  exact ⟨hshows, hopened, hbound, hapart, hreads⟩

end Errand

namespace Machine

/-- The interpreter carries out jobs one after another, with a file that nobody else changes. -/
inductive Completes (f : Entry) : Machine → List Errand → Machine → Prop where
  | nil (m : Machine) : Completes f m [] m
  | cons {m m₁ m' : Machine} {e : Errand} {es : List Errand} (hu : m.Undertakes e m₁)
      (ho : e.Owns m f) (h : Completes f m₁ es m') : Completes f m (e :: es) m'

variable {m m' : Machine} {p : Process} {e : Errand} {es before later : List Errand} {f : Entry}

theorem Completes.split (h : Completes f m (before ++ e :: later) m') : ∃ m₁ m₂,
    Completes f m before m₁ ∧ m₁.Undertakes e m₂ ∧ e.Owns m₁ f ∧ Completes f m₂ later m' := by
  induction before generalizing m with
  | nil =>
    cases h with
    | cons hu ho h => exact ⟨m, _, .nil m, hu, ho, h⟩
  | cons first rest ih =>
    cases h with
    | cons hu ho h =>
      obtain ⟨m₁, m₂, hbefore, hlater⟩ := ih h
      exact ⟨m₁, m₂, .cons hu ho hbefore, hlater⟩

/-- After each of the jobs the interpreter is ready for the next, and the file is as that job has
left it. -/
theorem Completes.shows (h : Completes f m es m') (hm : m.Settled p) (hs : m.world.Sound)
    (hf : m.world.tree.Shows f seen) : ∃ p', m'.Settled p' ∧ p'.own = p.own ∧ m'.world.Sound ∧
      m'.world.tree.Shows f (Errand.rewritten p.umask seen es) := by
  induction h generalizing p seen with
  | nil m => exact ⟨p, hm, rfl, hs, hf⟩
  | cons hu ho _ ih =>
    obtain ⟨p₁, hm₁, hown₁, -⟩ := hu.settled hm hs
    obtain ⟨p', hm', hown', hs', hf'⟩ := ih hm₁ (hu.sound hm hs) (hu.shows hm hs hf ho)
    have hmask : p₁.umask = p.umask := congrArg (·.umask) hown₁
    rw [hmask] at hf'
    exact ⟨p', hm', hown'.trans hown₁, hs', hf'⟩

/-- Between lines, with SIGCHLD let through and no foreground job, the interpreter is given the lines
of foreground jobs, each with a redirection that leads to the same file; nobody else changes the
file, no leader is refused it, and none is cut short before it has opened it. Then there is in the file
the output since the last job that empties it, or what there was and all output, and each job finds
what the jobs before it have left. -/
theorem gathers_outputs (hm : m.Settled p) (hs : m.world.Sound) (hf : m.world.tree.Shows f seen)
    (h : Completes f m es m') :
    (∃ left, m'.world.tree.Shows f left ∧ Errand.Leaves p.umask seen es left) ∧
      ∀ before e later, es = before ++ e :: later → ∃ m₁ m₂ left,
        Completes f m before m₁ ∧ m₁.Undertakes e m₂ ∧ Completes f m₂ later m' ∧
          m₁.world.tree.Shows f left ∧ Errand.Leaves p.umask seen before left ∧
          e.Fulfils p f left m₂ := by
  constructor
  · obtain ⟨-, -, -, -, hshows⟩ := h.shows hm hs hf
    exact ⟨_, hshows, Errand.leaves_rewritten⟩
  · rintro before e later rfl
    obtain ⟨m₁, m₂, hbefore, hu, ho, hlater⟩ := h.split
    obtain ⟨p₁, hm₁, hown, hs₁, hf₁⟩ := hbefore.shows hm hs hf
    exact ⟨m₁, m₂, _, hbefore, hu, hlater, hf₁, Errand.leaves_rewritten,
      (hu.fulfils hm₁ hs₁ hf₁ ho).of_own hown⟩

/-! ## Three jobs -/

/-- It reads its standard input to the end and writes one letter. -/
def letterProgram : Act :=
  .call (.read 0 8) fun _ => .call (.read 0 8) fun _ => .call (.write 1 [0x78]) fun _ => .exit 0

/-- An interpreter with such a program `/a`. -/
def letterMachine : Machine :=
  { spareMachine with
    world := { spareMachine.world with
      programs := fun _ => some { image := fun _ _ => letterProgram } } }

theorem sound_letterMachine : letterMachine.world.Sound := by
  obtain ⟨hkeyed, hpids, hheld, htidy, hfiles, hpipes⟩ := sound_spareMachine
  exact ⟨hkeyed, hpids, hheld, htidy, hfiles, hpipes⟩

theorem settled_letterMachine : ∃ p, letterMachine.Settled p ∧ p.umask = 0o022 := by
  obtain ⟨p, hm⟩ := settled_spareMachine
  have hk := hm.kindred
  refine ⟨p, ⟨⟨⟨hk.keyed, hk.known⟩, hk.positive, hk.given, hk.registered⟩, hm.process, hm.resting,
    hm.unheld, hm.free, hm.handled, hm.heeds⟩, ?_⟩
  have hp : spareMachine.process? = some _ := World.process?_setProcess _ _ 10
  obtain rfl := Option.some.inj (hp.symm.trans hm.process)
  rfl

/-- The line of a foreground job whose leader is forked at once, and what happens then. -/
def errand (m : Machine) (line : Bytes) (stages : List Stage) (redirect : Redirect)
    (after : List Incident) : Errand where
  line
  job := { pipeline := ⟨stages, some redirect⟩, background := false }
  redirect
  before := [.happens .works]
  start := (m.begin line).step.1
  after

end Machine

/-- The machine when the line is over. -/
def Errand.finish (e : Errand) : Machine := (e.launched.meets? e.after).getD e.launched

theorem Errand.meets_finish {e : Errand} (h : (e.launched.meets? e.after).isSome) :
    e.launched.meets? e.after = some e.finish := by
  obtain ⟨m, hm⟩ := Option.isSome_iff_exists.1 h
  rw [Errand.finish, hm, Option.getD_some]

namespace Machine

/-- Turns of a process, then steps of the interpreter. -/
def turnsOf (pid : Pid) : List Incident :=
  List.replicate 13 (.happens (.turn pid)) ++ List.replicate 10 (.happens .works)

/-- `/a | /a > /f`; the second stage goes on when the first is over. -/
def firstErrand : Errand :=
  letterMachine.errand (Bytes.ofString "/a | /a > /f") [["/a"], ["/a"]] ⟨.truncate, "/f"⟩
    (List.replicate 14 (.happens (.turn 11)) ++ List.replicate 8 (.happens (.turn 12)) ++
      turnsOf 11)

def secondErrand : Errand :=
  firstErrand.finish.errand (Bytes.ofString "/a < /f") [["/a"]] ⟨.input, "/f"⟩ (turnsOf 13)

def thirdErrand : Errand :=
  secondErrand.finish.errand (Bytes.ofString "/a >> /f") [["/a"]] ⟨.append, "/f"⟩ (turnsOf 14)

def letterEntry : Entry := ⟨FileTree.root, [0x66]⟩

/-- The three jobs leave the letters of the first and of the third, in a file that the first makes,
and the second reads what the first has left. -/
theorem gathers_outputs_threeErrands : ∃ m₁ m₂ m' : Machine,
    Completes letterEntry letterMachine [firstErrand, secondErrand, thirdErrand] m' ∧
    m'.world.tree.Shows letterEntry (some { content := [0x78, 0x78], mode := 0o644 }) ∧
    m₁.Undertakes secondErrand m₂ ∧ secondErrand.Reads [0x78] ∧ secondErrand.text = [0x78] := by
  obtain ⟨p, hm, hmask⟩ := settled_letterMachine
  have hfirst : letterMachine.Undertakes firstErrand firstErrand.finish :=
    ⟨by decide +kernel, rfl, rfl, by decide, rfl, by decide +kernel,
      Errand.meets_finish (by decide +kernel), by decide +kernel⟩
  have hsecond : firstErrand.finish.Undertakes secondErrand secondErrand.finish :=
    ⟨by decide +kernel, rfl, rfl, by decide, rfl, by decide +kernel,
      Errand.meets_finish (by decide +kernel), by decide +kernel⟩
  have hthird : secondErrand.finish.Undertakes thirdErrand thirdErrand.finish :=
    ⟨by decide +kernel, rfl, rfl, by decide, rfl, by decide +kernel,
      Errand.meets_finish (by decide +kernel), by decide +kernel⟩
  have hcompletes : Completes letterEntry letterMachine
      [firstErrand, secondErrand, thirdErrand] thirdErrand.finish :=
    .cons hfirst (by decide +kernel) (.cons hsecond (by decide +kernel)
      (.cons hthird (by decide +kernel) (.nil _)))
  have hmissing : letterMachine.world.tree.Shows letterEntry none := by
    show letterMachine.world.tree.at? letterEntry = none
    decide +kernel
  obtain ⟨⟨left, hshows, hleaves⟩, heach⟩ :=
    gathers_outputs hm sound_letterMachine hmissing hcompletes
  obtain ⟨m₁, m₂, left₁, -, hu, -, -, hleaves₁, hfulfils⟩ :=
    heach [firstErrand] secondErrand [thirdErrand] rfl
  have hread : secondErrand.Reads (Regular.contentOf left₁) := hfulfils.reads rfl
  have hall := hleaves.since [] firstErrand [secondErrand, thirdErrand] rfl rfl (by decide)
  have hone := hleaves₁.since [] firstErrand [] rfl rfl (by decide)
  have houtputs : Errand.outputs [firstErrand, secondErrand, thirdErrand] = [0x78, 0x78] := by
    decide +kernel
  have houtput : Errand.outputs [firstErrand] = [0x78] := by decide +kernel
  rw [houtputs, hmask] at hall
  rw [houtput] at hone
  rw [hall] at hshows
  rw [hone] at hread
  exact ⟨m₁, m₂, _, hcompletes, hshows, hu, hread, by decide +kernel⟩

end Machine

end JobShell
