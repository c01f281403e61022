import Mathlib.Data.List.Nodup
import Mathlib.Data.List.Perm.Subperm
import JobShell.System.World

/-!
# Descriptor tables as functions

* `Bindings`: what each descriptor refers to, with what is closed on execution.
* `Descriptors.get?_free`: the number a new descriptor gets is free.
* `Process.bindings`: the descriptors of a process, and what they are after they have changed.
* `Process.tidy`: no descriptor stands twice in the table of a process.
-/

namespace JobShell

/-- What a descriptor refers to. -/
structure Binding where
  file : Nat
  /-- It is closed when another program is executed. -/
  closing : Bool := false
  deriving DecidableEq, Repr

abbrev Bindings := Nat → Option Binding

/-- The bindings with one descriptor changed. -/
def Bindings.set (t : Bindings) (fd : Nat) (b : Option Binding) : Bindings :=
  fun n => if fd = n then b else t n

/-- The bindings once a program has been executed. -/
def Bindings.kept (t : Bindings) : Bindings := fun fd => (t fd).filter (!·.closing)

/-- All descriptors refer to open files with numbers below `n`. -/
def Bindings.Below (t : Bindings) (n : Nat) : Prop := ∀ fd b, t fd = some b → b.file < n

namespace Bindings

variable {t : Bindings} {fd n : Nat} {b : Option Binding}

@[simp] theorem set_self : t.set fd b fd = b := if_pos rfl

theorem set_of_ne (h : fd ≠ n) : t.set fd b n = t n := if_neg h

theorem set_set {b' : Option Binding} : (t.set fd b).set fd b' = t.set fd b' := by
  funext m
  unfold set
  split <;> rfl

theorem set_eq_self : t.set fd (t fd) = t := by
  funext m
  unfold set
  split
  · rename_i h
    rw [h]
  · rfl

theorem set_comm {b' : Option Binding} (h : fd ≠ n) :
    (t.set fd b).set n b' = (t.set n b').set fd b := by
  funext m
  unfold set
  grind

theorem Below.mono {m : Nat} (h : t.Below n) (hm : n ≤ m) : t.Below m := fun fd b hb =>
  Nat.lt_of_lt_of_le (h fd b hb) hm

theorem Below.set (h : t.Below n) (hb : ∀ c, b = some c → c.file < n) : (t.set fd b).Below n := by
  intro m c hc
  unfold Bindings.set at hc
  split at hc
  · exact hb c hc
  · exact h m c hc

theorem Below.kept (h : t.Below n) : t.kept.Below n := fun fd b hb =>
  h fd b (Option.filter_eq_some_iff.1 hb).1

end Bindings

/-! ## No key twice -/

namespace Table

variable {α β : Type} [DecidableEq α] {t : Table α β} {a : α} {v : β}

theorem mem_of_get? (h : get? t a = some v) : (a, v) ∈ t := by
  induction t with
  | nil => cases h
  | cons p rest ih =>
    obtain ⟨b, w⟩ := p
    simp only [get?] at h
    split at h
    · rename_i heq
      cases heq
      cases h
      exact List.mem_cons_self
    · exact List.mem_cons_of_mem _ (ih h)

theorem keys_set (t : Table α β) (a : α) (v : β) :
    keys (set t a v) = if a ∈ keys t then keys t else keys t ++ [a] := by
  induction t with
  | nil => rfl
  | cons p rest ih =>
    obtain ⟨b, w⟩ := p
    simp only [set, keys, List.map_cons] at ih ⊢
    grind

theorem nodup_keys_set (h : (keys t).Nodup) (a : α) (v : β) : (keys (set t a v)).Nodup := by
  rw [keys_set]
  split
  · exact h
  · rename_i ha
    refine List.nodup_append.2 ⟨h, List.nodup_singleton a, fun b hb b' hb' heq => ha ?_⟩
    rw [List.mem_singleton] at hb'
    exact hb' ▸ heq ▸ hb

omit [DecidableEq α] in
theorem nodup_keys_filter (h : (keys t).Nodup) (keep : α × β → Bool) :
    (keys (t.filter keep)).Nodup :=
  h.sublist (List.filter_sublist.map _)

theorem get?_of_mem (h : (keys t).Nodup) (hmem : (a, v) ∈ t) : get? t a = some v := by
  induction t with
  | nil => cases hmem
  | cons p rest ih =>
    obtain ⟨b, w⟩ := p
    obtain ⟨hnot, hrest⟩ := List.nodup_cons.1 h
    unfold get?
    rcases List.mem_cons.1 hmem with heq | hmem
    · cases heq
      exact if_pos rfl
    · rw [if_neg, ih hrest hmem]
      rintro rfl
      exact hnot (List.mem_map.2 ⟨_, hmem, rfl⟩)

end Table

/-! ## Free descriptors -/

namespace Descriptors

variable {d : Descriptors}

/-- The search goes past bound descriptors only, and it stops at one that is free unless it has gone
past as many as it may. -/
theorem freeFrom_spec (n least : Nat) : least ≤ d.freeFrom n least ∧
    (∀ fd, least ≤ fd → fd < d.freeFrom n least → fd ∈ Table.keys d) ∧
    (Table.get? d (d.freeFrom n least) = none ∨ d.freeFrom n least = least + n) := by
  induction n generalizing least with
  | zero => exact ⟨Nat.le_refl _, fun fd h1 h2 => absurd h1 (Nat.not_le.2 h2), .inr rfl⟩
  | succ n ih =>
    unfold freeFrom
    split
    · rename_i hbound
      obtain ⟨file, hfile⟩ := Option.isSome_iff_exists.1 hbound
      obtain ⟨hle, hkeys, hstop⟩ := ih (least + 1)
      refine ⟨by omega, fun fd h1 h2 => ?_, hstop.imp_right fun h => by omega⟩
      by_cases hfd : fd = least
      · subst hfd
        exact List.mem_map_of_mem (Table.mem_of_get? hfile)
      · exact hkeys fd (by omega) h2
    · rename_i hfree
      exact ⟨Nat.le_refl _, fun fd h1 h2 => absurd h1 (Nat.not_le.2 h2),
        .inl (by simpa using hfree)⟩

/-- There are more numbers up to the one found than descriptors that could be bound. -/
theorem get?_free (d : Descriptors) : Table.get? d d.free = none := by
  obtain ⟨-, hkeys, hstop⟩ := freeFrom_spec (d := d) d.length 0
  rcases hstop with hfree | hend
  · exact hfree
  · cases hget : Table.get? d d.free with
    | none => rfl
    | some file =>
      have hsub : List.range (d.length + 1) ⊆ Table.keys d := by
        intro fd hfd
        rw [List.mem_range] at hfd
        by_cases hlt : fd < d.free
        · exact hkeys fd (Nat.zero_le _) hlt
        · have hend : d.free = 0 + d.length := hend
          obtain rfl : fd = d.free := by omega
          exact List.mem_map_of_mem (Table.mem_of_get? hget)
      have hlen := (List.subperm_of_subset List.nodup_range hsub).length_le
      rw [List.length_range, Table.keys, List.length_map] at hlen
      omega

theorem get?_filter (d : Descriptors) (keep : Nat → Bool) (fd : Nat) :
    Table.get? (d.filter fun e => keep e.1) fd = if keep fd then Table.get? d fd else none := by
  induction d with
  | nil => simp
  | cons e rest ih =>
    rw [List.filter_cons]
    split <;> simp only [Table.get?, ih] <;> grind

end Descriptors

/-! ## The descriptors of a process -/

namespace Process

def bindings (p : Process) : Bindings := fun fd =>
  (Table.get? p.descriptors fd).map fun file => { file, closing := decide (fd ∈ p.closing) }

variable {p q : Process} {fd file : Nat}

theorem bindings_eq_none : p.bindings fd = none ↔ Table.get? p.descriptors fd = none :=
  Option.map_eq_none_iff

theorem isSome_bindings : (p.bindings fd).isSome = (Table.get? p.descriptors fd).isSome :=
  Option.isSome_map

theorem bindings_free (p : Process) : p.bindings p.descriptors.free = none :=
  bindings_eq_none.2 (Descriptors.get?_free p.descriptors)

theorem bindings_bind (p : Process) (fd file : Nat) :
    ({ p with descriptors := Table.set p.descriptors fd file } : Process).bindings =
      p.bindings.set fd (some { file, closing := decide (fd ∈ p.closing) }) := by
  funext n
  unfold bindings Bindings.set
  dsimp only
  rw [Table.get?_set]
  split
  · rename_i h
    rw [← h]
    rfl
  · rfl

theorem bindings_erase (p : Process) (fd : Nat) :
    ({ p with
      descriptors := Table.erase p.descriptors fd
      closing := p.closing.filter (· ≠ fd) } : Process).bindings = p.bindings.set fd none := by
  funext n
  unfold bindings Bindings.set
  dsimp only
  rw [Table.get?_erase]
  split
  · rfl
  · rename_i h
    simp [Ne.symm h]

theorem bindings_copy (p : Process) (fd file : Nat) :
    ({ p with
      descriptors := Table.set p.descriptors fd file
      closing := p.closing.filter (· ≠ fd) } : Process).bindings =
      p.bindings.set fd (some { file }) := by
  funext n
  unfold bindings Bindings.set
  dsimp only
  rw [Table.get?_set]
  split
  · rename_i h
    simp [h]
  · rename_i h
    simp [Ne.symm h]

theorem bindings_filter (hq : q.descriptors = p.descriptors.filter fun (fd, _) => fd ∉ p.closing)
    (hclosing : q.closing = []) : q.bindings = p.bindings.kept := by
  funext n
  unfold bindings Bindings.kept
  rw [hq, hclosing, Descriptors.get?_filter p.descriptors (fun fd => decide (fd ∉ p.closing))]
  dsimp only
  cases Table.get? p.descriptors n <;> by_cases h : n ∈ p.closing <;> simp [h, Option.filter]

/-- No descriptor stands twice in the table. -/
def tidy (p : Process) : Bool := decide (Table.keys p.descriptors).Nodup

theorem tidy_set {file : Nat} (h : p.tidy) (hq : q.descriptors = Table.set p.descriptors fd file) :
    q.tidy := by
  unfold tidy at h ⊢
  rw [hq]
  exact decide_eq_true (Table.nodup_keys_set (of_decide_eq_true h) fd file)

theorem tidy_filter {keep : Nat × Nat → Bool} (h : p.tidy)
    (hq : q.descriptors = p.descriptors.filter keep) : q.tidy := by
  unfold tidy at h ⊢
  rw [hq]
  exact decide_eq_true (Table.nodup_keys_filter (of_decide_eq_true h) keep)

theorem get?_of_tidy (h : p.tidy) {file : Nat} (hmem : (fd, file) ∈ p.descriptors) :
    Table.get? p.descriptors fd = some file :=
  Table.get?_of_mem (of_decide_eq_true h) hmem

end Process

end JobShell
