import JobShell.Text.Bytes
import Mathlib.Data.List.TakeWhile

/-!
# The lines of a text

A line ends at its newline, which does not belong to it. What follows the last newline is a line of
its own unless it is empty; no other byte ends a line.

* `Bytes.lines`: the lines of a text.
* `Bytes.Lined`, `Bytes.lines_eq_iff`: how a text is put together from its lines.
* `Bytes.lines_append_newline`, `Bytes.lines_of_not_mem`: what the first line is.
-/

namespace JobShell.Bytes

/-- The lines of a text, each without its newline. -/
def lines : Bytes → List Bytes
  | [] => []
  | b :: rest =>
    if b = newline then [] :: lines rest
    else match lines rest with
      | [] => [[b]]
      | line :: ls => (b :: line) :: ls

/-- A text consists of these lines. -/
inductive Lined : Bytes → List Bytes → Prop where
  | nil : Lined [] []
  /-- A last line without a newline. -/
  | last {line : Bytes} (hne : line ≠ []) (hline : newline ∉ line) : Lined line [line]
  | line {line rest : Bytes} {ls : List Bytes} (hline : newline ∉ line) (h : Lined rest ls) :
      Lined (line ++ newline :: rest) (line :: ls)

theorem lines_append_newline {line : Bytes} (h : newline ∉ line) (rest : Bytes) :
    lines (line ++ newline :: rest) = line :: lines rest := by
  induction line with
  | nil => rfl
  | cons b line ih =>
    rw [List.mem_cons, not_or] at h
    rw [List.cons_append, lines, if_neg (Ne.symm h.1), ih h.2]

theorem lines_of_not_mem {line : Bytes} (h : newline ∉ line) (hne : line ≠ []) :
    lines line = [line] := by
  induction line with
  | nil => exact absurd rfl hne
  | cons b line ih =>
    rw [List.mem_cons, not_or] at h
    rw [lines, if_neg (Ne.symm h.1)]
    cases line with
    | nil => rfl
    | cons c line => rw [ih h.2 (List.cons_ne_nil _ _)]

theorem lined_lines (text : Bytes) : Lined text (lines text) := by
  induction text with
  | nil => exact .nil
  | cons b rest ih =>
    rw [lines]
    by_cases hb : b = newline
    · rw [if_pos hb, hb]
      exact .line List.not_mem_nil ih
    · have hcons {line : Bytes} (h : newline ∉ line) : newline ∉ b :: line := by
        rw [List.mem_cons, not_or]
        exact ⟨Ne.symm hb, h⟩
      rw [if_neg hb]
      generalize lines rest = ls at ih
      cases ih with
      | nil => exact .last (List.cons_ne_nil _ _) (hcons List.not_mem_nil)
      | last _ hline => exact .last (List.cons_ne_nil _ _) (hcons hline)
      | line hline h => exact .line (hcons hline) h

/-- A text consists of one list of lines only. -/
theorem lines_eq_iff {text : Bytes} {ls : List Bytes} : lines text = ls ↔ Lined text ls := by
  refine ⟨fun h => h ▸ lined_lines text, fun h => ?_⟩
  induction h with
  | nil => rfl
  | last hne hline => exact lines_of_not_mem hline hne
  | line hline _ ih => rw [lines_append_newline hline, ih]

/-! ## Cutting a text -/

theorem cut_eq_none {b : UInt8} {s text : Bytes} (h : cut b s = (text, none)) :
    text = s ∧ b ∉ s := by
  unfold cut at h
  split at h
  · rename_i hdrop
    refine ⟨(congrArg Prod.fst h).symm, fun hmem => ?_⟩
    have := List.dropWhile_eq_nil_iff.1 hdrop b hmem
    simp at this
  · cases h

theorem cut_eq_some {b : UInt8} {s text rest : Bytes} (h : cut b s = (text, some rest)) :
    s = text ++ b :: rest ∧ b ∉ text := by
  unfold cut at h
  split at h
  · cases h
  · rename_i c tail hdrop
    cases h
    have hsplit := List.takeWhile_append_dropWhile (p := (· != b)) (l := s)
    have hc : c = b := by
      have := List.head?_dropWhile_not (p := (· != b)) s
      rw [hdrop] at this
      simpa using this
    rw [hdrop, hc] at hsplit
    refine ⟨hsplit.symm, fun hmem => ?_⟩
    have := List.mem_takeWhile_imp hmem
    simp at this

end JobShell.Bytes
