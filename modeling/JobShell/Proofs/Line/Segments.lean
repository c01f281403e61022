import JobShell.Text.Blank
import JobShell.Proofs.Line.Encoding
import Mathlib.Data.List.TakeWhile

/-!
# The segments of a line

A text is cut at its blank characters. The cut is unique: a segment is not empty, has no blank
character in it, and ends where a blank character or the end of the text follows.

* `Spaced`, `words_eq_iff`: the words of a text.
* `Bytes.Segmented`, `Bytes.segmented_iff`: the same for the bytes of a text.
-/

namespace JobShell

/-- A text consists of these words and of blank characters around them. -/
inductive Spaced : List Char → List (List Char) → Prop where
  | blank {gap : List Char} (hgap : ∀ c ∈ gap, isBlank c = true) : Spaced gap []
  | word {gap word rest : List Char} {ws : List (List Char)} (hgap : ∀ c ∈ gap, isBlank c = true)
      (hne : word ≠ []) (hword : ∀ c ∈ word, isBlank c = false)
      (hrest : ∀ c ∈ rest.head?, isBlank c = true) (h : Spaced rest ws) :
      Spaced (gap ++ word ++ rest) (word :: ws)

variable {gap word rest cs : List Char} {ws : List (List Char)}

/-- A text begins with what satisfies `p` up to the first character that does not. -/
theorem dropWhile_run {p : Char → Bool} (hin : ∀ c ∈ gap, p c = true)
    (hout : ∀ c ∈ rest.head?, p c = false) :
    (gap ++ rest).dropWhile p = rest ∧ (gap ++ rest).takeWhile p = gap := by
  rw [List.dropWhile_append_of_pos hin, List.takeWhile_append_of_pos hin]
  cases rest with
  | nil => exact ⟨rfl, List.append_nil gap⟩
  | cons c rest => simp [hout c rfl]

theorem words_of_blank (hgap : ∀ c ∈ gap, isBlank c = true) : words gap = [] := by
  have hdrop : gap.dropWhile isBlank = [] := List.dropWhile_eq_nil_iff.2 hgap
  unfold words
  split
  · rfl
  · rename_i c rest h
    rw [hdrop] at h
    cases h

theorem words_append (hgap : ∀ c ∈ gap, isBlank c = true) (hne : word ≠ [])
    (hword : ∀ c ∈ word, isBlank c = false) (hrest : ∀ c ∈ rest.head?, isBlank c = true) :
    words (gap ++ word ++ rest) = word :: words rest := by
  obtain ⟨c, word, rfl⟩ := List.exists_cons_of_ne_nil hne
  have hdrop : (gap ++ (c :: word) ++ rest).dropWhile isBlank = c :: (word ++ rest) := by
    rw [List.append_assoc]
    refine (dropWhile_run hgap fun d hd => ?_).1
    obtain rfl := Option.some.inj hd
    exact hword c List.mem_cons_self
  have hin : ∀ d ∈ word, (!isBlank d) = true := fun d hd => by
    rw [hword d (List.mem_cons_of_mem c hd)]
    rfl
  have hout : ∀ d ∈ rest.head?, (!isBlank d) = false := fun d hd => by
    rw [hrest d hd]
    rfl
  have hrun := dropWhile_run (p := (!isBlank ·)) hin hout
  rw [words]
  split
  · rename_i h
    rw [hdrop] at h
    cases h
  · rename_i d tail h
    rw [hdrop] at h
    obtain ⟨rfl, rfl⟩ := List.cons.inj h
    dsimp only
    rw [hrun.1, hrun.2]

theorem spaced_words (cs : List Char) : Spaced cs (words cs) := by
  fun_induction words cs with
  | case1 cs h => exact .blank (List.dropWhile_eq_nil_iff.1 h)
  | case2 cs c rest h hlt ih =>
    have hsplit : cs = cs.takeWhile isBlank ++ (c :: rest.takeWhile (!isBlank ·)) ++
        rest.dropWhile (!isBlank ·) := by
      conv => lhs; rw [← List.takeWhile_append_dropWhile (p := isBlank) (l := cs), h]
      rw [List.append_assoc, List.cons_append, List.takeWhile_append_dropWhile]
    have hhead : isBlank c = false := by
      have hnot := List.head?_dropWhile_not isBlank cs
      rw [h] at hnot
      exact hnot
    have hend : ∀ d ∈ (rest.dropWhile (!isBlank ·)).head?, isBlank d = true := by
      intro d hd
      have hnot := List.head?_dropWhile_not (!isBlank ·) rest
      rw [Option.mem_def.1 hd] at hnot
      exact Bool.not_eq_false' .. |>.mp hnot
    have hgap : ∀ d ∈ cs.takeWhile isBlank, isBlank d = true := fun d hd =>
      List.mem_takeWhile_imp hd
    have hword : ∀ d ∈ c :: rest.takeWhile (!isBlank ·), isBlank d = false := by
      intro d hd
      rcases List.mem_cons.1 hd with rfl | hd
      · exact hhead
      · simpa using List.mem_takeWhile_imp hd
    have hspaced := Spaced.word hgap (List.cons_ne_nil _ _) hword hend ih
    rwa [← hsplit] at hspaced

/-- A text has one list of words only. -/
theorem words_eq_iff : words cs = ws ↔ Spaced cs ws := by
  refine ⟨fun h => h ▸ spaced_words cs, fun h => ?_⟩
  induction h with
  | blank hgap => exact words_of_blank hgap
  | word hgap hne hword hrest h ih => rw [words_append hgap hne hword hrest, ih]

theorem Spaced.subset (h : Spaced cs ws)
    (hword : word ∈ ws) : word ⊆ cs := by
  induction h with
  | blank => cases hword
  | word hgap hne hw hrest h ih =>
    rcases List.mem_cons.1 hword with rfl | hmem
    · exact List.Subset.trans (List.subset_append_right _ _) (List.subset_append_left _ _)
    · exact List.Subset.trans (ih hmem) (List.subset_append_right _ _)

theorem Spaced.ne_nil (h : Spaced cs ws)
    (hword : word ∈ ws) : word ≠ [] := by
  induction h with
  | blank => cases hword
  | word hgap hne hw hrest h ih =>
    rcases List.mem_cons.1 hword with rfl | hmem
    · exact hne
    · exact ih hmem

/-- A byte string is the encoding of a text with these words. -/
def Bytes.Segmented (b : Bytes) (segments : List Bytes) : Prop :=
  ∃ cs ws, Bytes.ofChars cs = b ∧ Spaced cs ws ∧ ws.map Bytes.ofChars = segments

/-- The bytes of a text have one list of segments only. -/
theorem Bytes.segmented_iff {segments : List Bytes} :
    Bytes.Segmented (Bytes.ofChars cs) segments ↔ (words cs).map Bytes.ofChars = segments := by
  constructor
  · rintro ⟨cs', ws, hcs, hws, rfl⟩
    rw [← Bytes.ofChars_inj.1 hcs, words_eq_iff.2 hws]
  · rintro rfl
    exact ⟨cs, words cs, rfl, spaced_words cs, rfl⟩

/-- The bytes of a segment are bytes of the line. -/
theorem Bytes.Segmented.subset {b segment : Bytes} {segments : List Bytes}
    (h : Bytes.Segmented b segments) (hmem : segment ∈ segments) : segment ⊆ b := by
  obtain ⟨cs, ws, rfl, hws, rfl⟩ := h
  obtain ⟨word, hword, rfl⟩ := List.mem_map.1 hmem
  intro byte hbyte
  obtain ⟨c, hc, hbyte⟩ := List.mem_flatMap.1 hbyte
  exact List.mem_flatMap.2 ⟨c, hws.subset hword hc, hbyte⟩

theorem Bytes.Segmented.ne_nil {b segment : Bytes} {segments : List Bytes}
    (h : Bytes.Segmented b segments) (hmem : segment ∈ segments) : segment ≠ [] := by
  obtain ⟨cs, ws, rfl, hws, rfl⟩ := h
  obtain ⟨word, hword, rfl⟩ := List.mem_map.1 hmem
  intro hnil
  exact hws.ne_nil hword (Bytes.ofChars_inj.1 hnil)

end JobShell
