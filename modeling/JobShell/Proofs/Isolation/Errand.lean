import JobShell.Proofs.Isolation.Carrying
import JobShell.Proofs.Isolation.Failure

/-!
# The file of a job

A foreground job whose line ends in a redirection.

* `Machine.Reserves`: the path leads to a file that nobody changes but through what the leader of the
  job opens. `Machine.Handles`: what there is in the file in the course of the job.
* `Machine.Undertakes`: the interpreter carries out the line of such a job. `Errand.Owns`: the file
  is the job's.
* `Machine.Undertakes.fulfils`: what comes of the file when the line is over, `Errand.Fulfils`.
-/

namespace JobShell.Machine

variable {m m' m₀ m₁ m₂ : Machine} {f : Entry} {r : Redirect} {leader : Pid} {i : Incident}
  {is post : List Incident} {mask : Nat} {seen : Option Regular} {pipeline : Pipeline}

/-- The leader opens its file, or somebody reads, writes or seeks through what it has opened. -/
def uses (m : Machine) (leader : Pid) (opened? : Option Nat) (i : Incident) : Bool :=
  match opened? with
  | none => (m.opens? leader i).isSome
  | some id => (m.carries? id i).isSome || m.shifts id i

/-- The path of the redirection leads to this file, which nobody changes but through what the leader
opens; what is emptied is written from its beginning to its end. -/
structure Reserves (m : Machine) (f : Entry) (r : Redirect) (leader : Pid) (is : List Incident) :
    Prop where
  leads : m.Along (fun pre m₁ i _ => m.opened? leader pre = none → (m₁.opens? leader i).isSome →
    m₁.world.Finds leader (Bytes.ofString r.target) (Launch.openMode r.kind) f) is
  spares : m.Along (fun pre m₁ i m₂ => m₁.mayWrite i →
    m₁.uses leader (m.opened? leader pre) i = false → m₁.world.tree.Alike m₂.world.tree f) is
  steady : r.kind = .truncate → ∀ id, m.opened? leader is = some id → m.Unshifted id is

instance : Decidable (m.Reserves f r leader is) :=
  decidable_of_iff
    (m.Along (fun pre m₁ i _ => m.opened? leader pre = none → (m₁.opens? leader i).isSome →
        m₁.world.Finds leader (Bytes.ofString r.target) (Launch.openMode r.kind) f) is ∧
      m.Along (fun pre m₁ i m₂ => m₁.mayWrite i →
        m₁.uses leader (m.opened? leader pre) i = false → m₁.world.tree.Alike m₂.world.tree f) is ∧
      (r.kind = .truncate → ∀ id ∈ m.opened? leader is, m.Unshifted id is))
    ⟨fun h => ⟨h.1, h.2.1, h.2.2⟩, fun h => ⟨h.leads, h.spares, h.steady⟩⟩

/-- What there is in the file before the leader opens it and after that. -/
structure Handles (m : Machine) (f : Entry) (r : Redirect) (mask : Nat) (seen : Option Regular)
    (leader : Pid) (is : List Incident) (m' : Machine) : Prop where
  before : m.opened? leader is = none → m'.world.tree.Shows f seen
  after : ∀ id, m.opened? leader is = some id → (seen = none → r.kind ≠ .input) ∧
    m.world.nextFile ≤ id ∧ id < m'.world.nextFile ∧
    m'.Filled f r.kind id (Regular.contentOf seen) (Regular.modeOf mask seen) (m.carried id is)
      (m.Unshifted id is)

theorem opened?_append (leader : Pid) (post : List Incident) (h : m.meets? is = some m₁) :
    m.opened? leader (is ++ post) = (m.opened? leader is).or (m₁.opened? leader post) := by
  induction is generalizing m with
  | nil =>
    obtain rfl := Option.some.inj h
    rfl
  | cons i rest ih =>
    obtain ⟨m₂, hfirst, hrest⟩ := Option.bind_eq_some_iff.1 h
    rw [List.cons_append, opened?, opened?, hfirst, Option.bind_some, Option.bind_some, ih hrest,
      Option.or_assoc]

/-- A process is not given an open file that there has been before. -/
theorem le_of_opened? {id : Nat} (hk : m.Kindred) (h : m.opened? leader is = some id) :
    m.world.nextFile ≤ id := by
  induction is generalizing m with
  | nil => cases h
  | cons i rest ih =>
    rw [opened?] at h
    cases hopens : m.opens? leader i with
    | some id' =>
      rw [hopens, Option.some_or] at h
      obtain rfl := Option.some.inj h
      unfold opens? at hopens
      split at hopens <;> cases hopens
      exact Nat.le_refl _
    | none =>
      rw [hopens, Option.none_or] at h
      obtain ⟨m₂, hfirst, hrest⟩ := Option.bind_eq_some_iff.1 h
      have hmeets := meets_of_meet? hk.keyed hfirst
      exact Nat.le_trans (hmeets.grows hk.toNumbered).nextFile (ih (hmeets.kindred hk) hrest)

theorem Reserves.init (h : m.Reserves f r leader (is ++ post)) (hpre : m.meets? is = some m₁) :
    m.Reserves f r leader is := by
  refine ⟨h.leads.init, h.spares.init, fun hkind id hid => (h.steady hkind id ?_).init⟩
  rw [opened?_append leader post hpre, hid, Option.some_or]

theorem grows_of_meets? (hk : m.Kindred) (h : m.meets? is = some m') :
    m.world.Grows m'.world := by
  refine (meets?_induction (P := fun _ m' => m'.Kindred ∧ m.world.Grows m'.world)
    ⟨hk, .refl m.world⟩ ?_ h).2
  intro is i m₁ m₂ _ hm₁ hm
  have hmeets := meets_of_meet? hm₁.1.keyed hm
  exact ⟨hmeets.kindred hm₁.1, hm₁.2.trans (hmeets.grows hm₁.1.toNumbered)⟩

/-- What the leader is about to open has not been used. -/
theorem carried_concat_eq_nil (hk : m.Kindred) (hs : m.world.Sound) (hpre : m.meets? is = some m₁)
    (hs₁ : m₁.world.Sound) (i : Incident) :
    m.carried m₁.world.nextFile (is ++ [i]) = [] := by
  rw [carried_concat _ i hpre, carried_eq_nil hk hs hpre (Nat.le_refl _)]
  cases hcarries : m₁.carries? m₁.world.nextFile i with
  | none => rfl
  | some text =>
    obtain ⟨pid, d, fd, -, -, -, hfd⟩ := of_carries? hcarries
    exact absurd (descriptor?_lt hs₁ hfd) (Nat.lt_irrefl _)

theorem known_of_onFile {way : OpenMode} {id offset : Nat} {c : Regular}
    (h : m.world.OnFile f way id c offset) (hs : m.world.Sound) : id < m.world.nextFile := by
  obtain ⟨i, inode, -, -, -, hfile⟩ := h
  refine hs.files id (.inode i) ?_
  rw [World.object?, hfile]
  rfl

section

variable (hl : Launched pipeline leader [] m) (hr : pipeline.redirect = some r)
  (hmask : ∀ q, m.world.process? leader = some q → q.umask = mask) (hs : m.world.Sound)
  (hpre : m.meets? is = some m₁) (hm : m₁.meet? i = some m₂)
include hl hr hmask hs hpre hm

/-- The leader opens the file. -/
theorem Handles.opens (h : m.Handles f r mask seen leader is m₁)
    (hreserves : m.Reserves f r leader (is ++ [i])) (hnone : m.opened? leader is = none)
    (hopens : m₁.opens? leader i = some m₁.world.nextFile) :
    m.Handles f r mask seen leader (is ++ [i]) m₂ := by
  have hr₁ := hl.runs.course hpre
  have hk₁ := hr₁.kindred
  have hmeets := meets_of_meet? hk₁.keyed hm
  have hs₁ := sound_of_meets? hs hpre
  have hpends := (hl.directed hr hmask hpre).pends hnone
  have hopened : m.opened? leader (is ++ [i]) = some m₁.world.nextFile := by
    rw [opened?_concat leader i hpre, hnone, Option.none_or, hopens]
  refine ⟨fun hnone => (nomatch hopened.symm.trans hnone), fun id hid => ?_⟩
  obtain rfl := Option.some.inj (hopened.symm.trans hid)
  rcases hmeets.pends hk₁.toNumbered hr₁.other hr₁.known hpends with ⟨⟨⟨fd, hd⟩, -⟩, -⟩ | ⟨-, hno⟩
  swap
  · cases hno.symm.trans hopens
  rcases of_doing? hd with ⟨rfl, hturn⟩ | ⟨e, -, hdenied⟩
  swap
  · cases hdenied
  have hleads := hreserves.leads.last hpre hm hnone (by rw [hopens]; rfl)
  obtain ⟨p, hp, hcreate, hon⟩ := World.onFile_step hleads (h.before hnone) hturn
  obtain ⟨q, hq, humask⟩ := World.masks_takeSignals hk₁.keyed _ _ p hp
  rw [humask, hpends.mask q hq] at hon
  have hworld : m₂.world = (m₁.world.step leader).1 := by
    cases hmeets with
    | happens hm => cases hm with | turn => rfl
  rw [← hworld] at hon
  refine ⟨fun hseen hkind => ?_, (grows_of_meets? hl.kindred hpre).nextFile,
    known_of_onFile hon (hmeets.upholds hs₁).sound, ?_⟩
  · rw [hkind] at hcreate
    cases hcreate hseen
  · rw [carried_concat_eq_nil hl.kindred hs hpre hs₁]
    exact filled_of_opened hon _

theorem Handles.meets (h : m.Handles f r mask seen leader is m₁)
    (hreserves : m.Reserves f r leader (is ++ [i]))
    (hfree : ∀ id, m.world.nextFile ≤ id → m₁.world.descriptor? m₁.pid 1 ≠ some id) :
    m.Handles f r mask seen leader (is ++ [i]) m₂ := by
  have hr₁ := hl.runs.course hpre
  have hk₁ := hr₁.kindred
  have hmeets := meets_of_meet? hk₁.keyed hm
  have hs₁ := sound_of_meets? hs hpre
  have hopened := opened?_concat leader i hpre
  have hspares := hreserves.spares.last hpre hm
  cases hbefore : m.opened? leader is with
  | none =>
    have hpends := (hl.directed hr hmask hpre).pends hbefore
    rcases hmeets.pends hk₁.toNumbered hr₁.other hr₁.known hpends with ⟨-, hid⟩ | ⟨-, hid⟩
    · exact h.opens hl hr hmask hs hpre hm hreserves hbefore hid
    · rw [hbefore, Option.none_or, hid] at hopened
      refine ⟨fun _ => ?_, fun id hid => (nomatch hopened.symm.trans hid)⟩
      refine hmeets.shows hs₁ (h.before hbefore) fun hwrites => hspares hwrites ?_
      rw [hbefore]
      show (m₁.opens? leader i).isSome = false
      rw [hid]
      rfl
  | some id =>
    rw [hbefore, Option.some_or] at hopened
    refine ⟨fun hnone => (nomatch hopened.symm.trans hnone), fun id' hid' => ?_⟩
    obtain rfl := Option.some.inj (hopened.symm.trans hid')
    obtain ⟨hseen, hnew, hknown, hfilled⟩ := h.after id hbefore
    have hsteady (hkind : r.kind = .truncate) : m.Unshifted id (is ++ [i]) :=
      hreserves.steady hkind id hopened
    refine ⟨hseen, hnew,
      Nat.lt_of_lt_of_le hknown (hmeets.grows hk₁.toNumbered).nextFile, ?_⟩
    rw [carried_concat id i hpre]
    refine (hmeets.fills hs₁ hfilled hknown (hfree id hnew) (fun hkind => (hsteady hkind).init)
      fun hwrites hcarries hshifts => hspares hwrites ?_).imp fun hall =>
        ⟨hall.init, hall.last hpre hm⟩
    rw [hbefore]
    show ((m₁.carries? id i).isSome || m₁.shifts id i) = false
    rw [hcarries, hshifts]
    rfl

end

end JobShell.Machine

/-! ## A job of a script -/

namespace JobShell

/-- A job of a script. -/
structure Errand where
  line : Bytes
  job : Job
  redirect : Redirect
  /-- What happens before its leader is forked. -/
  before : List Incident
  /-- The interpreter is about to fork it. -/
  start : Machine
  /-- What happens then, until the next line. -/
  after : List Incident

namespace Errand

variable (e : Errand)

def leader : Pid := e.start.world.nextPid

def launched : Machine := e.start.step.1

/-- What the leader opens. -/
def opened? : Option Nat := e.launched.opened? e.leader e.after

/-- What is written or read through what the leader opens. -/
def text : Bytes := e.opened?.elim [] (e.launched.carried · e.after)

variable {e}

theorem text_eq {id : Nat} (hid : e.opened? = some id) :
    e.text = e.launched.carried id e.after := by
  rw [text, hid]
  rfl

end Errand

/-- What there is in the file of a redirection of this kind when this has gone through it. -/
def Redirect.Kind.rewrites (mask : Nat) (text : Bytes) (seen : Option Regular) :
    Redirect.Kind → Option Regular
  | input => seen
  | kind => some
    { content := kind.leaves (Regular.contentOf seen) text, mode := Regular.modeOf mask seen }

/-- The interpreter carries out the line of a foreground job, up to the next line. -/
structure Machine.Undertakes (m : Machine) (e : Errand) (m' : Machine) : Prop where
  line : Request.ofLine e.line = .ok (.launch e.job)
  foreground : e.job.background = false
  redirect : e.job.pipeline.redirect = some e.redirect
  quiet : ∀ i ∈ e.before ++ e.after, i.isLine = false
  starts : (m.begin e.line).meets? e.before = some e.start
  forks : e.launched.world.nextPid ≠ e.start.world.nextPid
  course : e.launched.meets? e.after = some m'
  rests : m'.isResting

/-- The file of the job is the leader's to open, and nobody else changes it. -/
structure Errand.Owns (e : Errand) (m : Machine) (f : Entry) : Prop where
  still : (m.begin e.line).Throughout
    (fun m₁ i m₂ => m₁.mayWrite i → m₁.world.tree.Alike m₂.world.tree f) e.before
  reserves : e.launched.Reserves f e.redirect e.leader e.after
  /-- It is let write to the file. -/
  granted : e.redirect.kind ≠ .input →
    ¬(e.launched.doings e.leader e.after).Unopened (Bytes.ofString e.redirect.target)
  /-- No signal ends it before, or has it take its leave. -/
  lives : e.redirect.kind ≠ .input →
    (e.launched.doings e.leader e.after).any Doing.isCutShort → e.opened?.isSome

theorem Errand.Owns.reserves_of_append {e : Errand} {m m₁ : Machine} {f : Entry}
    {pre post : List Incident} (ho : e.Owns m f) (his : e.after = pre ++ post)
    (hpre : e.launched.meets? pre = some m₁) :
    e.launched.Reserves f e.redirect e.leader pre := by
  have hreserves := ho.reserves
  rw [his] at hreserves
  exact hreserves.init hpre

theorem Doings.unopened_iff {ds : Doings} {path : Bytes} :
    ds.Unopened path ↔ 0 ∈ path ∨ ds.opens.any fun (_, _, _, answer) => !answer.isOk := by
  refine or_congr_right ?_
  rw [List.any_eq_true]
  constructor
  · rintro ⟨path, way, bits, e, h⟩
    exact ⟨_, h, rfl⟩
  · rintro ⟨⟨path, way, bits, answer⟩, h, hfailed⟩
    cases answer with
    | error e => exact ⟨path, way, bits, e, h⟩
    | ok fd => cases hfailed

instance {e : Errand} {m : Machine} {f : Entry} : Decidable (e.Owns m f) :=
  decidable_of_iff
    ((m.begin e.line).Along (fun _ m₁ i m₂ => m₁.mayWrite i →
        m₁.world.tree.Alike m₂.world.tree f) e.before ∧
      e.launched.Reserves f e.redirect e.leader e.after ∧
      (e.redirect.kind ≠ .input →
        ¬(0 ∈ Bytes.ofString e.redirect.target ∨
          (e.launched.doings e.leader e.after).opens.any fun (_, _, _, answer) => !answer.isOk)) ∧
      (e.redirect.kind ≠ .input → (e.launched.doings e.leader e.after).any Doing.isCutShort →
        e.opened?.isSome)) <| by
    rw [← Doings.unopened_iff]
    exact ⟨fun h => ⟨h.1, h.2.1, h.2.2.1, h.2.2.2⟩, fun h => ⟨h.still, h.reserves, h.granted, h.lives⟩⟩

/-- Whoever reads the file of a job is given what there is in it: piece by piece, or from its
beginning to its end. -/
structure Errand.Reads (e : Errand) (content : Bytes) : Prop where
  pieces : e.launched.Along (fun pre m₁ i _ => ∀ id pid fd count new,
    e.launched.opened? e.leader pre = some id → i = .happens (.turn pid) →
    m₁.world.descriptor? pid fd = some id →
    m₁.world.doing? pid = some (.called (.read fd count) (.ok new)) →
    ∃ g, m₁.world.file? id = some g ∧ new = (content.drop g.offset).take count) e.after
  inOrder : ∀ id, e.opened? = some id → e.launched.Unshifted id e.after → e.text <+: content
  /-- Whoever is told that there is nothing more. -/
  toEnd : ∀ id, e.opened? = some id → e.launched.Unshifted id e.after →
    e.launched.Along (fun _ m₁ i _ => ∀ pid fd count, i = .happens (.turn pid) →
      m₁.world.descriptor? pid fd = some id → 0 < count →
      m₁.world.doing? pid = some (.called (.read fd count) (.ok [])) → e.text = content) e.after

/-- What comes of the file of a job. -/
structure Errand.Fulfils (e : Errand) (p : Process) (f : Entry) (seen : Option Regular)
    (m' : Machine) : Prop where
  shows : m'.world.tree.Shows f (e.redirect.kind.rewrites p.umask e.text seen)
  opened : e.redirect.kind ≠ .input → e.opened?.isSome
  /-- The stage that the redirection is for executes its program with the file at its stream. -/
  bound : (Table.get? p.descriptors 0).isSome → (Table.get? p.descriptors 1).isSome →
    e.launched.Along (fun pre m₁ i m₂ => ∀ q path args env,
      e.redirect.stage? e.job.pipeline e.leader (e.launched.doings e.leader pre) = some q →
      (e.launched.doings q pre).any Doing.isLast = false →
      m₁.doing? q i = some (.executed path args env) → ∃ id, e.opened? = some id ∧
        m₂.world.descriptor? q e.redirect.kind.descriptor = some id) e.after
  /-- What goes through the file reaches nothing else, and the interpreter does not have it open. -/
  apart : e.launched.Along (fun pre m₁ i m₂ => ∀ id,
    e.launched.opened? e.leader pre = some id → (m₁.carries? id i).isSome →
    m₁.world.Confines m₂.world f id ∧ ∀ fd, m₁.world.descriptor? m₁.pid fd ≠ some id) e.after
  reads : e.redirect.kind = .input → e.Reads (Regular.contentOf seen)

namespace Machine

variable {m m' m₁ m₂ : Machine} {p p₁ : Process} {e : Errand} {f : Entry} {job : Job}
  {is pre : List Incident} {i : Incident} {seen : Option Regular}

/-- What the interpreter has open it has had open before the line. -/
theorem Undisturbed.descriptor?_lt (hu : m.Undisturbed p job m₁) (hp : m.process? = some p)
    (hs : m.world.Sound) {fd id : Nat} (hfd : m₁.world.descriptor? m₁.pid fd = some id) :
    id < m.world.nextFile := by
  obtain ⟨p₁, hp₁, hfd⟩ := Option.bind_eq_some_iff.1 hfd
  have hsame : p₁.descriptors = p.descriptors := congrArg (·.descriptors) (hu.own p₁ hp₁)
  rw [hsame] at hfd
  have hold : m.world.descriptor? m.pid fd = some id := by
    rw [World.descriptor?, show m.world.process? m.pid = some p from hp]
    exact hfd
  exact Machine.descriptor?_lt hs hold

/-- The leader of the job has just been forked. -/
structure Launches (m : Machine) (p : Process) (e : Errand) : Prop where
  attended : m.Attended p e.job e.leader [] e.launched
  redirect : e.job.pipeline.redirect = some e.redirect
  sound : e.launched.world.Sound
  mask : ∀ q, e.launched.world.process? e.leader = some q → q.umask = p.umask
  grip : e.launched.world.grip? e.leader = some
    { pid := e.leader, program := some (Launch.leader e.launched.env e.job.pipeline).run,
      bindings := p.bindings }

theorem Undertakes.quiet_of_append {post : List Incident} (hu : m.Undertakes e m')
    (his : e.after = is ++ post) : ∀ i ∈ is, i.isLine = false := by
  refine fun i hi => hu.quiet i (List.mem_append_right _ ?_)
  rw [his]
  exact List.mem_append_left _ hi

theorem Undertakes.launches (hu : m.Undertakes e m') (hm : m.Settled p) (hs : m.world.Sound) :
    m.Launches p e ∧ e.start.world.Lasting e.launched.world := by
  have hserved := (hm.served hu.line).course hm.heeds
    (fun i hi => hu.quiet i (List.mem_append_left _ hi)) hu.starts
  have hk := hserved.kindred.keyed
  have hstart : e.start.world.Sound := sound_of_meets? (m := m.begin e.line) hs hu.starts
  have hworks : e.start.Happens .works e.launched := .works (works_step hk)
  obtain ⟨p₁, hp₁, hfork, -⟩ := hserved.forks (works_step hk) hu.forks
  have hown := World.own?_fork hk p₁ (Launch.leader e.start.env e.job.pipeline).run
    e.start.world.nextPid
  rw [if_pos rfl, ← hfork] at hown
  have hsame := hserved.undisturbed.own p₁ hp₁
  have hlasting := World.lasting_fork e.start.world p₁
    (Launch.leader e.start.env e.job.pipeline).run
  rw [← hfork] at hlasting
  refine ⟨⟨hserved.attended hworks hm.heeds hu.forks, hu.redirect, (upholds_step hstart).sound,
    fun q hq => ?_, ?_⟩, hlasting⟩
  · have hq : e.launched.world.own? e.start.world.nextPid = some q.own := by
      rw [World.own?, show e.launched.world.process? e.start.world.nextPid = some q from hq]
      rfl
    have hown := Option.some.inj (hq.symm.trans hown)
    calc q.umask = q.own.umask := rfl
      _ = p₁.unguarded.umask := by rw [hown]; rfl
      _ = p.umask := by rw [hsame]; rfl
  · have henv : e.launched.env = e.start.env := (works_step hk).env_eq
    have hbindings : p₁.bindings = p.bindings :=
      show p₁.unguarded.bindings = p.unguarded.bindings from congrArg Process.bindings hsame
    rw [World.grip?_eq_own?, henv]
    show (e.launched.world.own? e.start.world.nextPid).map _ = _
    rw [show e.launched.world.own? e.start.world.nextPid = _ from hown, ← hbindings]
    have htidy : p₁.tidy := hstart.tidy _ _ (grip?_process hp₁)
    exact congrArg some (congrArg (Grip.mk e.leader _ p₁.bindings) htidy)

section

variable (hl : m.Launches p e) (hm : m.Settled p) (hs : m.world.Sound)
include hl hm hs

/-- The interpreter has nothing open that is opened for the job. -/
theorem Launches.descriptor?_ne (his : ∀ i ∈ is, i.isLine = false)
    (h : e.launched.meets? is = some m₁) {id : Nat} (hid : e.launched.world.nextFile ≤ id)
    (fd : Nat) : m₁.world.descriptor? m₁.pid fd ≠ some id := by
  intro hfd
  have hundisturbed := (hl.attended.course hm.heeds his h).1.undisturbed
  have hold := hundisturbed.descriptor?_lt hm.process hs hfd
  exact Nat.lt_irrefl _
    (Nat.lt_of_lt_of_le hold (Nat.le_trans hl.attended.undisturbed.grows.nextFile hid))

theorem Launches.handles (his : ∀ i ∈ is, i.isLine = false)
    (h : e.launched.meets? is = some m₁) (hf : e.launched.world.tree.Shows f seen)
    (hreserves : e.launched.Reserves f e.redirect e.leader is) :
    e.launched.Handles f e.redirect p.umask seen e.leader is m₁ := by
  have hstart : e.launched.Handles f e.redirect p.umask seen e.leader [] e.launched :=
    ⟨fun _ => hf, nofun⟩
  refine meets?_induction (P := fun is m₁ => (∀ i ∈ is, i.isLine = false) →
    e.launched.Reserves f e.redirect e.leader is →
    e.launched.Handles f e.redirect p.umask seen e.leader is m₁) (fun _ _ => hstart) ?_ h his
    hreserves
  intro is i m₁ m₂ hpre hhandles hmeet his hreserves
  have his := (List.forall_mem_append.1 his).1
  exact (hhandles his (hreserves.init hpre)).meets hl.attended.toLaunched hl.redirect hl.mask
    hl.sound hpre hmeet hreserves fun id hid => hl.descriptor?_ne hm hs his hpre hid 1

end

/-- The line of an errand is over. -/
theorem Undertakes.settled (hu : m.Undertakes e m') (hm : m.Settled p) (hs : m.world.Sound) :
    ∃ p', m'.Settled p' ∧ p'.own = p.own ∧ m'.world.process? e.leader = none := by
  obtain ⟨hl, -⟩ := hu.launches hm hs
  have hserved := (hm.served hu.line).course hm.heeds
    (fun i hi => hu.quiet i (List.mem_append_left _ hi)) hu.starts
  obtain ⟨p₁, -, -, hphase, -⟩ := hserved.forks (works_step hserved.kindred.keyed) hu.forks
  have hresumed := hl.attended.resumed hm (by
    rw [show e.launched.shell.phase = _ from hphase]
    rfl) (fun i hi => hu.quiet i (List.mem_append_right _ hi)) hu.course
  obtain ⟨p', r, hp', hrest⟩ := exists_of_isResting hu.rests
  obtain ⟨hsettled, hown, -⟩ := hresumed.next p' r hp' hrest
  exact ⟨p', hsettled, hown, (hresumed.status hu.foreground p' r hp' hrest).1⟩

theorem Undertakes.sound (hu : m.Undertakes e m') (hm : m.Settled p) (hs : m.world.Sound) :
    m'.world.Sound :=
  sound_of_meets? (hu.launches hm hs).1.sound hu.course

section

variable (hu : m.Undertakes e m') (hm : m.Settled p) (hs : m.world.Sound)
include hu hm hs

/-- A leader that may open its file and is not cut short has opened it when it is gone. -/
theorem Undertakes.opened (ho : e.Owns m f) (hkind : e.redirect.kind ≠ .input) :
    e.opened?.isSome := by
  obtain ⟨hl, -⟩ := hu.launches hm hs
  obtain ⟨-, -, -, hgone⟩ := hu.settled hm hs
  cases hopened : e.opened? with
  | some id => rfl
  | none =>
    exfalso
    have hpends := (hl.attended.toLaunched.directed hl.redirect hl.mask hu.course).pends hopened
    cases hpends.pending with
    | waits h | fails h =>
      rw [World.program?, hgone] at h
      cases h
    | gone _ hwhy =>
      rcases hwhy with hunopened | hcut
      · exact ho.granted hkind hunopened
      · have hsome := ho.lives hkind hcut
        rw [hopened] at hsome
        cases hsome

variable (hf : m.world.tree.Shows f seen) (ho : e.Owns m f)
include hf ho

/-- What there is in the file of the job when its leader has just been forked. -/
theorem Undertakes.shows_launched : e.launched.world.tree.Shows f seen := by
  have hstart : e.start.world.tree.Shows f seen := by
    refine (meets?_induction (m := m.begin e.line) (P := fun is m₁ =>
      (m.begin e.line).Throughout (fun m₁ i m₂ => m₁.mayWrite i →
        m₁.world.tree.Alike m₂.world.tree f) is → m₁.world.Sound ∧ m₁.world.tree.Shows f seen)
      (fun _ => ⟨hs, hf⟩) ?_ hu.starts ho.still).2
    intro is i m₁ m₂ hpre hm₁ hmeet hstill
    obtain ⟨hs₁, hf₁⟩ := hm₁ fun pre j post m₁ m₂ his =>
      hstill pre j (post ++ [i]) m₁ m₂ (by rw [his, List.append_assoc]; rfl)
    have hmeets := meets_of_meet? hs₁.keyed hmeet
    exact ⟨(hmeets.upholds hs₁).sound,
      hmeets.shows hs₁ hf₁ (hstill is i [] m₁ m₂ rfl hpre hmeet)⟩
  exact hstart.of_alike (.of_eq (hu.launches hm hs).2.tree)

theorem Undertakes.handles {post : List Incident} (hpre : e.after = pre ++ post)
    (h : e.launched.meets? pre = some m₁) :
    e.launched.Handles f e.redirect p.umask seen e.leader pre m₁ := by
  exact (hu.launches hm hs).1.handles hm hs (hu.quiet_of_append hpre) h
    (hu.shows_launched hm hs hf ho) (ho.reserves_of_append hpre h)

theorem Undertakes.shows :
    m'.world.tree.Shows f (e.redirect.kind.rewrites p.umask e.text seen) := by
  have hhandles := hu.handles hm hs hf ho (List.append_nil _).symm hu.course
  cases hopened : e.opened? with
  | none =>
    have hkind : e.redirect.kind = .input := by
      by_contra hkind
      have hsome := hu.opened hm hs ho hkind
      rw [hopened] at hsome
      cases hsome
    rw [hkind]
    exact hhandles.before hopened
  | some id =>
    obtain ⟨hseen, -, -, hfilled⟩ := hhandles.after id hopened
    have hshows := hfilled.shows
    rw [← Errand.text_eq hopened] at hshows
    cases hkind : e.redirect.kind with
    | truncate | append =>
      rw [hkind] at hshows
      exact hshows
    | input =>
      rw [hkind] at hshows
      cases seen with
      | none => exact absurd hkind (hseen rfl)
      | some c => exact hshows

/-- What goes through the file of the job goes into it or comes from it, and nowhere else. -/
theorem Undertakes.apart : e.launched.Along (fun pre m₁ i m₂ => ∀ id,
    e.launched.opened? e.leader pre = some id → (m₁.carries? id i).isSome →
    m₁.world.Confines m₂.world f id ∧ ∀ fd, m₁.world.descriptor? m₁.pid fd ≠ some id) e.after := by
  intro pre i post m₁ m₂ his hpre hmeet id hid hcarries
  obtain ⟨hl, -⟩ := hu.launches hm hs
  have hs₁ := sound_of_meets? hl.sound hpre
  obtain ⟨-, hnew, -, hfilled⟩ := (hu.handles hm hs hf ho his hpre).after id hid
  obtain ⟨new, hnew'⟩ := Option.isSome_iff_exists.1 hcarries
  have hsteady (hkind : e.redirect.kind = .truncate) : e.launched.Unshifted id pre :=
    (ho.reserves_of_append his hpre).steady hkind id hid
  exact ⟨((meets_of_meet? hs₁.keyed hmeet).carries hs₁.keyed hfilled hsteady hnew').2,
    hl.descriptor?_ne hm hs (hu.quiet_of_append his) hpre hnew⟩

omit hf ho in
theorem Undertakes.bound (h0 : (Table.get? p.descriptors 0).isSome)
    (h1 : (Table.get? p.descriptors 1).isSome) :
    e.launched.Along (fun pre m₁ i m₂ => ∀ q path args env,
      e.redirect.stage? e.job.pipeline e.leader (e.launched.doings e.leader pre) = some q →
      (e.launched.doings q pre).any Doing.isLast = false →
      m₁.doing? q i = some (.executed path args env) → ∃ id, e.opened? = some id ∧
        m₂.world.descriptor? q e.redirect.kind.descriptor = some id) e.after := by
  intro pre i post m₁ m₂ his hpre hmeet q path args env hq hlast hd
  obtain ⟨hl, -⟩ := hu.launches hm hs
  have hs₁ := sound_of_meets? hl.sound hpre
  have hbinding {fd : Nat} (h : (Table.get? p.descriptors fd).isSome) : (p.bindings fd).isSome := by
    rw [Process.bindings, Option.isSome_map]
    exact h
  have hwired := hl.attended.toLaunched.wired hl.sound hl.redirect hl.mask hl.grip (hbinding h0)
    (hbinding h1) hpre
  obtain ⟨id, hid, hfd⟩ := hwired.binds hl.attended.toLaunched.runs hl.sound hl.redirect hpre
    (meets_of_meet? hs₁.keyed hmeet) hq hlast hd
  refine ⟨id, ?_, hfd⟩
  rw [Errand.opened?, his, opened?_append _ _ hpre, hid, Option.some_or]

/-- What is read from the beginning on is what there is. -/
theorem Undertakes.prefix_of_unshifted {id : Nat} (hkind : e.redirect.kind = .input)
    (hid : e.opened? = some id) (hsteady : e.launched.Unshifted id e.after) :
    e.text <+: Regular.contentOf seen := by
  obtain ⟨-, -, -, hfilled⟩ :=
    (hu.handles hm hs hf ho (List.append_nil _).symm hu.course).after id hid
  rw [Errand.text_eq hid]
  exact hfilled.read hsteady hkind

omit hf ho in
/-- Whoever has open what the leader opens has it open after that. -/
theorem Undertakes.opened?_of_descriptor? {post : List Incident} {pid : Pid} {fd id : Nat}
    (his : e.after = pre ++ post) (hpre : e.launched.meets? pre = some m₁)
    (hid : e.opened? = some id) (hfd : m₁.world.descriptor? pid fd = some id) :
    e.launched.opened? e.leader pre = some id := by
  obtain ⟨hl, -⟩ := hu.launches hm hs
  have hopened : (e.launched.opened? e.leader pre).or (m₁.opened? e.leader post) = some id := by
    rw [← opened?_append e.leader post hpre, ← his]
    exact hid
  cases hbefore : e.launched.opened? e.leader pre with
  | some id' =>
    rw [hbefore, Option.some_or] at hopened
    exact hopened
  | none =>
    rw [hbefore, Option.none_or] at hopened
    have hk₁ := (hl.attended.course hm.heeds (hu.quiet_of_append his) hpre).1.kindred
    exact absurd (descriptor?_lt (sound_of_meets? hl.sound hpre) hfd)
      (Nat.not_lt.2 (le_of_opened? hk₁ hopened))

theorem Undertakes.reads (hkind : e.redirect.kind = .input) :
    e.Reads (Regular.contentOf seen) := by
  obtain ⟨hl, -⟩ := hu.launches hm hs
  have hfilled {pre post : List Incident} {m₁ : Machine} {id : Nat} (his : e.after = pre ++ post)
      (hpre : e.launched.meets? pre = some m₁) (hid : e.launched.opened? e.leader pre = some id) :
      m₁.Filled f .input id (Regular.contentOf seen) (Regular.modeOf p.umask seen)
        (e.launched.carried id pre) (e.launched.Unshifted id pre) := by
    rw [← hkind]
    obtain ⟨-, -, -, hfilled⟩ := (hu.handles hm hs hf ho his hpre).after id hid
    exact hfilled
  refine ⟨fun pre i post m₁ m₂ his hpre _ id pid fd count new hid _ hfd hd => ?_,
    fun id hid => hu.prefix_of_unshifted hm hs hf ho hkind hid,
    fun id hid hsteady pre i post m₁ m₂ his hpre _ pid fd count _ hfd hcount hd => ?_⟩
  · exact (hfilled his hpre hid).reads (sound_of_meets? hl.sound hpre).keyed hfd hd
  · have hbefore := hu.opened?_of_descriptor? hm hs his hpre hid hfd
    have hsteady₁ : e.launched.Unshifted id pre := by
      rw [his] at hsteady
      exact hsteady.init
    have hread := (hfilled his hpre hbefore).read_all (sound_of_meets? hl.sound hpre).keyed hfd hd
      hsteady₁ hcount rfl
    have hprefix : Regular.contentOf seen <+: e.text := by
      rw [Errand.text_eq hid, his, carried_append id _ hpre, ← hread]
      exact List.prefix_append _ _
    exact (hu.prefix_of_unshifted hm hs hf ho hkind hid hsteady).eq_of_length_le hprefix.length_le

theorem Undertakes.fulfils : e.Fulfils p f seen m' :=
  ⟨hu.shows hm hs hf ho, hu.opened hm hs ho, hu.bound hm hs, hu.apart hm hs hf ho,
    hu.reads hm hs hf ho⟩

end

end Machine

end JobShell
