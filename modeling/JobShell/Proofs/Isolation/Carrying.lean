import JobShell.Proofs.Isolation.Bound
import JobShell.Proofs.Isolation.Offsets

/-!
# What goes through an open file

* `Machine.carried`: what is written or read through an open file in the course of some incidents.
  `Machine.Unshifted`: nobody has sought through it to another place.
* `Machine.Filled`: an open file of a redirection, and what has gone through it so far.
* `Machine.Meets.fills`: what is written goes into it, what is read comes from it, and otherwise it
  stays as it is, if nobody else changes the file.
-/

namespace JobShell

/-- A text that is written or read, and the descriptor that it goes through. -/
def Doing.carried? : Doing → Option (Nat × Bytes)
  | called (.write fd text) (.ok n) => some (fd, text.take n)
  | called (.read fd _) (.ok text) => some (fd, text)
  | interrupted text (.ok n) => some (1, text.take n)
  | _ => none

/-- What a redirection of this kind leaves of a content when this has gone through it. -/
def Redirect.Kind.leaves (content text : Bytes) : Redirect.Kind → Bytes
  | input => content
  | truncate => text
  | append => content ++ text

/-- The content of a file; one that is missing has none. -/
def Regular.contentOf (seen : Option Regular) : Bytes := (seen.map Regular.content).getD []

/-- The permission bits of a file; one that is missing is made with those of a new file that are not
masked. -/
def Regular.modeOf (mask : Nat) (seen : Option Regular) : Nat :=
  (seen.map Regular.mode).getD (Launch.newFileBits &&& (0o7777 ^^^ mask))

namespace Machine

/-- This holds at every incident in the course of these, after what has happened before it. -/
def Along (m : Machine) (R : List Incident → Machine → Incident → Machine → Prop)
    (is : List Incident) : Prop :=
  ∀ pre i post m₁ m₂, is = pre ++ i :: post → m.meets? pre = some m₁ → m₁.meet? i = some m₂ →
    R pre m₁ i m₂

theorem along_nil (m : Machine) (R : List Incident → Machine → Incident → Machine → Prop) :
    m.Along R [] := by
  intro pre i post m₁ m₂ his
  cases pre <;> cases his

theorem along_cons {m : Machine} {R : List Incident → Machine → Incident → Machine → Prop}
    {i : Incident} {is : List Incident} : m.Along R (i :: is) ↔
      ∀ m₁ ∈ m.meet? i, R [] m i m₁ ∧ m₁.Along (fun pre => R (i :: pre)) is := by
  constructor
  · intro h m₁ hm
    refine ⟨h [] i is m m₁ rfl rfl hm, fun pre j post m₂ m₃ his hpre hm' => ?_⟩
    refine h (i :: pre) j post m₂ m₃ (congrArg (i :: ·) his) ?_ hm'
    rw [meets?, show m.meet? i = some m₁ from hm]
    exact hpre
  · intro h pre j post m₂ m₃ his hpre hm'
    cases pre with
    | nil =>
      obtain ⟨rfl, rfl⟩ := List.cons.inj his
      obtain rfl := Option.some.inj hpre
      exact (h m₃ hm').1
    | cons first pre =>
      obtain ⟨rfl, rfl⟩ := List.cons.inj his
      obtain ⟨m₁, hm, hpre⟩ := Option.bind_eq_some_iff.1 hpre
      exact (h m₁ hm).2 pre j post m₂ m₃ rfl hpre hm'

/-- A course can be gone through incident by incident. -/
def decidableAlong (m : Machine) (is : List Incident)
    (R : List Incident → Machine → Incident → Machine → Prop)
    (hR : ∀ pre m₁ i m₂, Decidable (R pre m₁ i m₂)) : Decidable (m.Along R is) :=
  match is with
  | [] => isTrue (along_nil m R)
  | i :: rest =>
    have (m₁ : Machine) : Decidable (m₁.Along (fun pre => R (i :: pre)) rest) :=
      decidableAlong m₁ rest _ fun pre => hR (i :: pre)
    decidable_of_iff _ along_cons.symm

instance {R : List Incident → Machine → Incident → Machine → Prop}
    [hR : ∀ pre m₁ i m₂, Decidable (R pre m₁ i m₂)] {m : Machine} {is : List Incident} :
    Decidable (m.Along R is) := decidableAlong m is R hR

/-- What is written or read through an open file at an incident. -/
def carries? (m : Machine) (id : Nat) : Incident → Option Bytes
  | .happens (.turn pid) =>
    ((m.world.doing? pid).bind Doing.carried?).bind fun (fd, text) =>
      if m.world.descriptor? pid fd = some id then some text else none
  | _ => none

/-- What is written or read through an open file in the course of some incidents. -/
def carried (m : Machine) (id : Nat) : List Incident → Bytes
  | [] => []
  | i :: rest => (m.carries? id i).getD [] ++ (m.meet? i).elim [] (carried · id rest)

/-- An open file is sought through at an incident. -/
def shifts (m : Machine) (id : Nat) : Incident → Bool
  | .happens (.turn pid) =>
    match m.world.doing? pid with
    | some (.called (.seek fd _ _) (.ok _)) => m.world.descriptor? pid fd = some id
    | _ => false
  | _ => false

/-- Whoever has sought through an open file has left it where it was. -/
def Unshifted (m : Machine) (id : Nat) (is : List Incident) : Prop :=
  m.Along (fun _ m₁ i m₂ => m₁.shifts id i → m₂.world.file? id = m₁.world.file? id) is

variable {m m' m₁ m₂ : Machine} {i : Incident} {is pre post : List Incident} {id : Nat}
  {text : Bytes} {pid : Pid} {R : List Incident → Machine → Incident → Machine → Prop}

deriving instance DecidableEq for Object, OpenFile

instance : Decidable (m.Unshifted id is) := inferInstanceAs (Decidable (m.Along _ is))

theorem Along.init (h : m.Along R (is ++ post)) : m.Along R is := by
  intro pre i rest m₁ m₂ his hpre hm
  exact h pre i (rest ++ post) m₁ m₂ (by rw [his, List.append_assoc]; rfl) hpre hm

theorem Along.last (h : m.Along R (is ++ [i])) (hpre : m.meets? is = some m₁)
    (hm : m₁.meet? i = some m₂) : R is m₁ i m₂ :=
  h is i [] m₁ m₂ rfl hpre hm

theorem carried_append (id : Nat) (post : List Incident) (h : m.meets? pre = some m₁) :
    m.carried id (pre ++ post) = m.carried id pre ++ m₁.carried id post := by
  induction pre generalizing m with
  | nil =>
    obtain rfl := Option.some.inj h
    rfl
  | cons i rest ih =>
    obtain ⟨m₂, hfirst, hrest⟩ := Option.bind_eq_some_iff.1 h
    rw [List.cons_append, carried, carried, hfirst, List.append_assoc]
    exact congrArg _ (ih hrest)

theorem carried_concat (id : Nat) (i : Incident) (h : m.meets? is = some m₁) :
    m.carried id (is ++ [i]) = m.carried id is ++ (m₁.carries? id i).getD [] := by
  have hlast : m₁.carried id [i] = (m₁.carries? id i).getD [] := by
    have hlater : (m₁.meet? i).elim [] (carried · id []) = ([] : Bytes) := by
      cases m₁.meet? i <;> rfl
    rw [carried, hlater, List.append_nil]
  rw [carried_append id [i] h, hlast]

/-- What goes through an open file goes through a descriptor of it. -/
theorem of_carries? (h : m.carries? id i = some text) :
    ∃ pid d fd, i = .happens (.turn pid) ∧ m.world.doing? pid = some d ∧
      d.carried? = some (fd, text) ∧ m.world.descriptor? pid fd = some id := by
  unfold carries? at h
  split at h
  · rename_i pid
    obtain ⟨⟨fd, text'⟩, hcarried, hfd⟩ := Option.bind_eq_some_iff.1 h
    obtain ⟨d, hd, hcarried⟩ := Option.bind_eq_some_iff.1 hcarried
    dsimp only at hfd
    split at hfd
    · obtain rfl := Option.some.inj hfd
      exact ⟨pid, d, fd, rfl, hd, hcarried, ‹_›⟩
    · cases hfd
  · cases h

theorem of_shifts (h : m.shifts id i) : ∃ pid fd by_ whence n, i = .happens (.turn pid) ∧
    m.world.doing? pid = some (.called (.seek fd by_ whence) (.ok n)) ∧
    m.world.descriptor? pid fd = some id := by
  unfold shifts at h
  split at h
  · split at h
    · exact ⟨_, _, _, _, _, rfl, ‹_›, of_decide_eq_true h⟩
    · cases h
  · cases h

/-- Whoever moves an open file reads or writes through it, or seeks. -/
theorem carries_or_shifts {d : Doing} {fd : Nat} (hd : m.world.doing? pid = some d)
    (hmoves : d.moves? = some fd) (hfd : m.world.descriptor? pid fd = some id) :
    (m.carries? id (.happens (.turn pid))).isSome ∨ m.shifts id (.happens (.turn pid)) := by
  unfold carries? shifts
  dsimp only
  rw [hd]
  unfold Doing.moves? at hmoves
  split at hmoves
  · obtain rfl := Option.some.inj hmoves
    left
    show (if m.world.descriptor? pid _ = some id then _ else _ : Option Bytes).isSome
    rw [if_pos hfd]
    rfl
  · obtain rfl := Option.some.inj hmoves
    left
    show (if m.world.descriptor? pid _ = some id then _ else _ : Option Bytes).isSome
    rw [if_pos hfd]
    rfl
  · obtain rfl := Option.some.inj hmoves
    exact .inr (decide_eq_true hfd)
  · obtain rfl := Option.some.inj hmoves
    left
    show (if m.world.descriptor? pid _ = some id then _ else _ : Option Bytes).isSome
    rw [if_pos hfd]
    rfl
  · cases hmoves

theorem descriptor?_lt {fd : Nat} (hs : m.world.Sound) (h : m.world.descriptor? pid fd = some id) :
    id < m.world.nextFile := by
  rw [World.descriptor?_eq] at h
  obtain ⟨g, hg, hfd⟩ := Option.bind_eq_some_iff.1 h
  obtain ⟨b, hb, rfl⟩ := Option.map_eq_some_iff.1 hfd
  exact hs.held pid g hg fd b hb

/-- Nothing has gone through an open file that has not been opened. -/
theorem carried_eq_nil (hk : m.Kindred) (hs : m.world.Sound) (h : m.meets? is = some m')
    (hid : m'.world.nextFile ≤ id) : m.carried id is = [] := by
  have hall := meets?_induction
    (P := fun is m' => m'.Kindred ∧ m'.world.Sound ∧
      (m'.world.nextFile ≤ id → m.carried id is = [])) ⟨hk, hs, fun _ => rfl⟩ ?_ h
  · exact hall.2.2 hid
  · intro is i m₁ m₂ hpre hall₁ hm
    obtain ⟨hk₁, hs₁, hnil⟩ := hall₁
    have hmeets := meets_of_meet? hk₁.keyed hm
    refine ⟨hmeets.kindred hk₁, (hmeets.upholds hs₁).sound, fun hid => ?_⟩
    have hbefore := Nat.le_trans (hmeets.grows hk₁.toNumbered).nextFile hid
    rw [carried_concat id i hpre, hnil hbefore]
    cases hcarries : m₁.carries? id i with
    | none => rfl
    | some text =>
      obtain ⟨pid, d, fd, -, -, -, hfd⟩ := of_carries? hcarries
      exact absurd (descriptor?_lt hs₁ hfd) (Nat.not_lt.2 hbefore)

/-! ## The file of a redirection -/

variable {f : Entry} {kind : Redirect.Kind} {content new : Bytes} {mode mask : Nat}
  {steady steady' : Prop}

/-- Open file `id` has been opened for a redirection when there was this content, and this text has
gone through it so far; while it is `steady` nobody has moved it otherwise. -/
structure Filled (m : Machine) (f : Entry) (kind : Redirect.Kind) (id : Nat) (content : Bytes)
    (mode : Nat) (text : Bytes) (steady : Prop) : Prop where
  file : ∃ offset, m.world.OnFile f (Launch.openMode kind) id
    { content := kind.leaves content text, mode } offset ∧
      (steady → kind ≠ .append → offset = text.length)
  /-- What is read is what there is. -/
  read : steady → kind = .input → text <+: content

theorem Filled.imp (h : m.Filled f kind id content mode text steady) (hsteady : steady' → steady) :
    m.Filled f kind id content mode text steady' := by
  obtain ⟨⟨offset, hon, hoffset⟩, hread⟩ := h
  exact ⟨⟨offset, hon, fun h => hoffset (hsteady h)⟩, fun h => hread (hsteady h)⟩

theorem Filled.shows (h : m.Filled f kind id content mode text steady) :
    m.world.tree.Shows f (some { content := kind.leaves content text, mode }) := by
  obtain ⟨offset, hon, -⟩ := h.file
  exact hon.shows

/-- A file that has just been opened. -/
theorem filled_of_opened {seen : Option Regular}
    (h : m.world.OnFile f (Launch.openMode kind) id (Regular.opened (Launch.openMode kind)
      (Launch.newFileBits &&& (0o7777 ^^^ mask)) seen) 0) (steady : Prop) :
    m.Filled f kind id (Regular.contentOf seen) (Regular.modeOf mask seen) [] steady := by
  have hopened : Regular.opened (Launch.openMode kind)
      (Launch.newFileBits &&& (0o7777 ^^^ mask)) seen =
      { content := kind.leaves (Regular.contentOf seen) [], mode := Regular.modeOf mask seen } := by
    cases seen with
    | none => cases kind <;> rfl
    | some r =>
      cases kind with
      | input | truncate => rfl
      | append =>
        show r = { content := r.content ++ [], mode := r.mode }
        rw [List.append_nil]
  rw [hopened] at h
  exact ⟨⟨0, h, fun _ _ => rfl⟩, fun _ _ => List.nil_prefix⟩

/-- What is written through the open file of a redirection goes into it, and nothing else changes. -/
theorem Filled.writes {d : Doing} {fd n : Nat} (h : m.Filled f kind id content mode text steady)
    (hk : m.world.Keyed) (hsteady : kind = .truncate → steady)
    (hfd : m.world.descriptor? pid fd = some id) (hd : m.world.doing? pid = some d)
    (hwrites : d = .called (.write fd new) (.ok n) ∨ fd = 1 ∧ d = .interrupted new (.ok n))
    (hworld : m'.world = (m.world.step pid).1) :
    m'.Filled f kind id content mode (text ++ new.take n) steady ∧
      m.world.Confines m'.world f id := by
  obtain ⟨⟨offset, hon, hoffset⟩, -⟩ := h
  have hend (hway : (Launch.openMode kind).write) : (Launch.openMode kind).append ∨
      offset = (kind.leaves content text).length := by
    cases kind with
    | input => cases hway
    | truncate => exact .inr (hoffset (hsteady rfl) nofun)
    | append => exact .inl rfl
  obtain ⟨hway, rfl, hon', hconfines⟩ := hon.step_write hk hfd hd hwrites hend
  rw [List.take_length]
  rw [← hworld] at hon' hconfines
  cases kind with
  | input => cases hway
  | truncate => exact ⟨⟨⟨_, hon', fun _ _ => List.length_append.symm⟩, nofun⟩, hconfines⟩
  | append =>
    have happend : Redirect.Kind.append.leaves content text ++ new =
        Redirect.Kind.append.leaves content (text ++ new) := List.append_assoc _ _ _
    rw [happend] at hon'
    exact ⟨⟨⟨_, hon', fun _ hne => absurd rfl hne⟩, nofun⟩, hconfines⟩

/-- What is written through the open file of a redirection goes into it, what is read comes from it,
and nothing else changes. -/
theorem Meets.carries (hm : m.Meets i m') (hk : m.world.Keyed)
    (h : m.Filled f kind id content mode text steady) (hsteady : kind = .truncate → steady)
    (hc : m.carries? id i = some new) :
    m'.Filled f kind id content mode (text ++ new) steady ∧ m.world.Confines m'.world f id := by
  obtain ⟨pid, d, fd, rfl, hd, hcarried, hfd⟩ := of_carries? hc
  have hworld : m'.world = (m.world.step pid).1 := by
    cases hm with
    | happens hm => cases hm with | turn => rfl
  unfold Doing.carried? at hcarried
  split at hcarried
  · obtain ⟨rfl, rfl⟩ := Prod.mk.inj (Option.some.inj hcarried)
    exact h.writes hk hsteady hfd hd (.inl rfl) hworld
  · obtain ⟨⟨offset, hon, hoffset⟩, hread⟩ := h
    obtain ⟨rfl, rfl⟩ := Prod.mk.inj (Option.some.inj hcarried)
    obtain ⟨hway, htext, hon', hconfines⟩ := hon.step_read hk hfd hd
    rw [← hworld] at hon' hconfines
    cases kind with
    | input =>
      refine ⟨⟨⟨_, hon', fun hs hne => ?_⟩, fun hs _ => ?_⟩, hconfines⟩
      · rw [hoffset hs hne]
        exact List.length_append.symm
      · obtain rfl := hoffset hs nofun
        obtain ⟨rest, rfl⟩ := hread hs rfl
        have hrest : Redirect.Kind.input.leaves (text ++ rest) text = text ++ rest := rfl
        rw [hrest, List.drop_left] at htext
        rw [htext]
        exact (List.prefix_append_right_inj text).2 (List.take_prefix _ rest)
    | truncate | append => cases hway
  · obtain ⟨rfl, rfl⟩ := Prod.mk.inj (Option.some.inj hcarried)
    exact h.writes hk hsteady hfd hd (.inr ⟨rfl, rfl⟩) hworld
  · cases hcarried

/-- Whoever seeks through the open file moves it, and nothing else changes. -/
theorem Meets.seeks (hm : m.Meets i m') (hk : m.world.Keyed)
    (h : m.Filled f kind id content mode text steady) (hshifts : m.shifts id i) :
    m'.Filled f kind id content mode text
      (steady ∧ m'.world.file? id = m.world.file? id) := by
  obtain ⟨pid, fd, by_, whence, n, rfl, hd, hfd⟩ := of_shifts hshifts
  obtain ⟨⟨offset, hon, hoffset⟩, hread⟩ := h
  have hworld : m'.world = (m.world.step pid).1 := by
    cases hm with
    | happens hm => cases hm with | turn => rfl
  obtain ⟨hon', -⟩ := hon.step_seek hk hfd hd
  rw [← hworld] at hon'
  refine ⟨⟨n, hon', fun hs hne => ?_⟩, fun hs => hread hs.1⟩
  obtain ⟨hs, hsame⟩ := hs
  obtain ⟨i, -, -, -, -, hfile⟩ := hon
  obtain ⟨i', -, -, -, -, hfile'⟩ := hon'
  have heq := Option.some.inj (hfile'.symm.trans (hsame.trans hfile))
  rw [← hoffset hs hne]
  exact congrArg OpenFile.offset heq

/-- What goes through the open file of a redirection goes into it or comes from it, and otherwise it
stays as it is, if nobody else changes the file. -/
theorem Meets.fills (hm : m.Meets i m') (hs : m.world.Sound)
    (h : m.Filled f kind id content mode text steady) (hid : id < m.world.nextFile)
    (hfree : m.world.descriptor? m.pid 1 ≠ some id) (hsteady : kind = .truncate → steady)
    (hsame : m.mayWrite i → m.carries? id i = none → m.shifts id i = false →
      m.world.tree.Alike m'.world.tree f) :
    m'.Filled f kind id content mode (text ++ (m.carries? id i).getD [])
      (steady ∧ (m.shifts id i → m'.world.file? id = m.world.file? id)) := by
  cases hc : m.carries? id i with
  | some new => exact (hm.carries hs.keyed h hsteady hc).1.imp And.left
  | none =>
    rw [Option.getD_none, List.append_nil]
    by_cases hshifts : m.shifts id i = true
    · exact (hm.seeks hs.keyed h hshifts).imp fun h => ⟨h.1, h.2 hshifts⟩
    have hfile : m'.world.file? id = m.world.file? id := by
      refine hm.file? hs hid hfree fun pid d fd hi hd hmoves hfd => ?_
      subst hi
      rcases carries_or_shifts hd hmoves hfd with hsome | hsome
      · rw [hc] at hsome
        cases hsome
      · exact hshifts hsome
    obtain ⟨⟨offset, hon, hoffset⟩, hread⟩ := h
    refine ⟨⟨offset, hon.of_alike ?_ hfile, fun h => hoffset h.1⟩, fun h => hread h.1⟩
    by_cases hwrites : m.mayWrite i = true
    · exact hsame hwrites hc (Bool.eq_false_iff.2 hshifts)
    · exact .of_eq ((hm.upholds hs).lasting (Bool.eq_false_iff.2 hwrites)).tree

/-- Where nobody changes a file it is as it was. -/
theorem Meets.shows {seen : Option Regular} (hm : m.Meets i m') (hs : m.world.Sound)
    (h : m.world.tree.Shows f seen)
    (hsame : m.mayWrite i → m.world.tree.Alike m'.world.tree f) : m'.world.tree.Shows f seen := by
  by_cases hwrites : m.mayWrite i = true
  · exact h.of_alike (hsame hwrites)
  · exact h.of_alike (.of_eq ((hm.upholds hs).lasting (Bool.eq_false_iff.2 hwrites)).tree)

/-! ## Reading -/

section

variable {fd count : Nat}
variable (h : m.Filled f .input id content mode text steady) (hk : m.world.Keyed)
  (hfd : m.world.descriptor? pid fd = some id)
  (hd : m.world.doing? pid = some (.called (.read fd count) (.ok new)))
include h hk hfd hd

/-- Whoever reads is given what comes next in the file. -/
theorem Filled.reads : ∃ g, m.world.file? id = some g ∧
    new = (content.drop g.offset).take count := by
  obtain ⟨⟨offset, hon, -⟩, -⟩ := h
  obtain ⟨-, htext, -⟩ := hon.step_read hk hfd hd
  obtain ⟨i, inode, -, -, -, hfile⟩ := hon
  exact ⟨_, hfile, htext⟩

/-- Whoever is told that there is nothing more to read has read everything. -/
theorem Filled.read_all (hsteady : steady) (hcount : 0 < count) (hnew : new = []) :
    text = content := by
  obtain ⟨⟨offset, hon, hoffset⟩, hread⟩ := h
  obtain rfl := hoffset hsteady nofun
  obtain ⟨-, htext, -⟩ := hon.step_read hk hfd hd
  obtain ⟨rest, rfl⟩ := hread hsteady rfl
  have hrest : Redirect.Kind.input.leaves (text ++ rest) text = text ++ rest := rfl
  rw [hrest, List.drop_left, hnew] at htext
  cases rest with
  | nil => rw [List.append_nil]
  | cons b rest =>
    obtain ⟨n, rfl⟩ := Nat.exists_eq_succ_of_ne_zero (Nat.ne_of_gt hcount)
    cases htext

end

end Machine

end JobShell
