/-!
# Finite tables

A table maps finitely many keys to values; a later binding of a key replaces an earlier one. The
lemmas say what `get?` sees after `set` and `erase`.
-/

namespace JobShell

/-- Bindings of keys to values, at most one for each key that `set` has made. -/
abbrev Table (α β : Type) := List (α × β)

namespace Table

variable {α β : Type} [DecidableEq α]

/-- The value bound to a key. -/
def get? : Table α β → α → Option β
  | [], _ => none
  | (b, v) :: rest, a => if b = a then some v else get? rest a

/-- The table with `a` bound to `v`; a key that was bound keeps its place. -/
def set : Table α β → α → β → Table α β
  | [], a, v => [(a, v)]
  | (b, w) :: rest, a, v => if b = a then (b, v) :: rest else (b, w) :: set rest a v

/-- The table without `a`. -/
def erase (t : Table α β) (a : α) : Table α β := t.filter fun p => decide (p.1 ≠ a)

/-- The keys that are bound. -/
def keys (t : Table α β) : List α := t.map (·.1)

@[simp] theorem get?_nil (a : α) : get? ([] : Table α β) a = none := rfl

theorem get?_set (t : Table α β) (a b : α) (v : β) :
    get? (set t a v) b = if a = b then some v else get? t b := by
  induction t with
  | nil => simp [set, get?]
  | cons p t ih => obtain ⟨c, w⟩ := p; simp only [set]; split <;> simp_all [get?]; grind

@[simp] theorem get?_set_self (t : Table α β) (a : α) (v : β) : get? (set t a v) a = some v := by
  simp [get?_set]

theorem get?_erase (t : Table α β) (a b : α) :
    get? (erase t a) b = if a = b then none else get? t b := by
  induction t with
  | nil => simp [erase, get?]
  | cons p t ih => obtain ⟨c, w⟩ := p; simp only [erase, List.filter_cons] at *; grind [get?]

@[simp] theorem get?_erase_self (t : Table α β) (a : α) : get? (erase t a) a = none := by
  simp [get?_erase]

end Table

end JobShell
