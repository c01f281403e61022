import JobShell.Line.Command
import JobShell.Proofs.Line.Segments

/-!
# Joining tokens

A line is written by putting separators of blank characters around and between tokens. Reading it
gives the tokens back, and every line is written in this way.

* `words_append_of_head?`: a text is cut where a blank character or nothing follows.
* `joinTokens`, `Separated`: lines as tokens and separators.
* `tokenize_append_blank`, `tokenize_inverts_joining`: reading a line gives its tokens back.
-/

namespace JobShell

/-! ## Cutting a text in two -/

theorem Spaced.append_left {gap cs : List Char} {ws : List (List Char)}
    (hgap : ∀ c ∈ gap, isBlank c = true) (h : Spaced cs ws) : Spaced (gap ++ cs) ws := by
  have hboth : ∀ gap', (∀ c ∈ gap', isBlank c = true) →
      ∀ c ∈ gap ++ gap', isBlank c = true := by
    intro gap' hgap' c hc
    rcases List.mem_append.1 hc with hc | hc
    · exact hgap c hc
    · exact hgap' c hc
  cases h with
  | blank hgap' => exact .blank (hboth _ hgap')
  | word hgap' hne hword hrest h =>
    rw [List.append_assoc, ← List.append_assoc, ← List.append_assoc]
    exact .word (hboth _ hgap') hne hword hrest h

/-- By induction on the words of the first text: its last word ends with the text, since a blank
character or nothing follows. -/
theorem Spaced.append {before after : List Char} {ws vs : List (List Char)}
    (hbefore : Spaced before ws) (hafter : Spaced after vs)
    (hhead : ∀ c ∈ after.head?, isBlank c = true) : Spaced (before ++ after) (ws ++ vs) := by
  induction hbefore with
  | blank hgap => exact hafter.append_left hgap
  | @word gap word rest ws hgap hne hword hrest h ih =>
    have hnext : ∀ c ∈ (rest ++ after).head?, isBlank c = true := by
      intro c hc
      cases rest with
      | nil => exact hhead c hc
      | cons d rest => exact hrest c hc
    rw [List.append_assoc, List.cons_append]
    exact .word hgap hne hword hnext ih

theorem words_append_of_head? (before : List Char) {after : List Char}
    (hhead : ∀ c ∈ after.head?, isBlank c = true) :
    words (before ++ after) = words before ++ words after :=
  words_eq_iff.2 ((spaced_words before).append (spaced_words after) hhead)

theorem words_cons_blank {c : Char} (hc : isBlank c = true) (cs : List Char) :
    words (c :: cs) = words cs := by
  have hgap : ∀ d ∈ [c], isBlank d = true := by
    intro d hd
    rwa [List.mem_singleton.1 hd]
  exact words_eq_iff.2 (Spaced.append_left hgap (spaced_words cs))

/-! ## Tokens and separators -/

/-- A line of tokens, each behind its separator, and of the separator at the end. -/
def joinTokens : List (String × String) → String → String
  | [], last => last
  | (gap, token) :: pieces, last => gap ++ token ++ joinTokens pieces last

/-- Tokens are neither empty nor interrupted, separators are blank, and only the first and the last
separator may be empty. -/
structure Separated (pieces : List (String × String)) (last : String) : Prop where
  tokens : ∀ p ∈ pieces, p.2 ≠ "" ∧ ∀ c ∈ p.2.toList, isBlank c = false
  gaps : ∀ p ∈ pieces, ∀ c ∈ p.1.toList, isBlank c = true
  last : ∀ c ∈ last.toList, isBlank c = true
  inner : ∀ p ∈ pieces.tail, p.1 ≠ ""

variable {pieces : List (String × String)} {gap token last : String}

theorem Separated.tail (h : Separated ((gap, token) :: pieces) last) : Separated pieces last where
  tokens p hp := h.tokens p (List.mem_cons_of_mem _ hp)
  gaps p hp := h.gaps p (List.mem_cons_of_mem _ hp)
  last := h.last
  inner p hp := h.inner p (List.mem_of_mem_tail hp)

/-- A line begins with a blank character or is empty if its first separator is not empty either. -/
theorem Separated.head?_blank_iff (h : Separated pieces last) :
    (∀ c ∈ (joinTokens pieces last).toList.head?, isBlank c = true) ↔ ∀ p ∈ pieces, p.1 ≠ "" := by
  cases pieces with
  | nil =>
    constructor
    · intro _ p hp
      cases hp
    · intro _ c hc
      exact h.last c (List.mem_of_mem_head? hc)
  | cons p pieces =>
    obtain ⟨gap, token⟩ := p
    have hall : (∀ p ∈ (gap, token) :: pieces, p.1 ≠ "") ↔ gap ≠ "" := by
      rw [List.forall_mem_cons]
      exact and_iff_left h.inner
    rw [hall, joinTokens, String.toList_append, String.toList_append, List.append_assoc]
    by_cases hgap : gap = ""
    · -- The first character is the first one of the token.
      obtain ⟨hne, hsolid⟩ := h.tokens (gap, token) List.mem_cons_self
      obtain ⟨c, cs, htoken⟩ : ∃ c cs, token.toList = c :: cs :=
        List.exists_cons_of_ne_nil (by simpa using hne)
      have hc : isBlank c = false := hsolid c (by simp [htoken])
      simp [hgap, htoken, hc]
    · obtain ⟨c, cs, hcs⟩ : ∃ c cs, gap.toList = c :: cs :=
        List.exists_cons_of_ne_nil (by simpa using hgap)
      have hc : isBlank c = true :=
        h.gaps (gap, token) List.mem_cons_self c (by simp [hcs])
      simp [hgap, hcs, hc]

theorem Separated.spaced (h : Separated pieces last) :
    Spaced (joinTokens pieces last).toList (pieces.map (·.2.toList)) := by
  induction pieces with
  | nil => exact .blank h.last
  | cons p pieces ih =>
    obtain ⟨gap, token⟩ := p
    obtain ⟨hne, hsolid⟩ := h.tokens (gap, token) List.mem_cons_self
    rw [joinTokens, String.toList_append, String.toList_append]
    exact .word (h.gaps (gap, token) List.mem_cons_self) (by simpa using hne) hsolid
      (h.tail.head?_blank_iff.2 h.inner) (ih h.tail)

theorem Separated.tokenize_eq (h : Separated pieces last) :
    tokenize (joinTokens pieces last) = pieces.map Prod.snd := by
  rw [tokenize, words_eq_iff.2 h.spaced, List.map_map]
  exact List.map_congr_left fun p _ => String.ofList_toList

/-- Every line is written from its words and what stands between them. -/
theorem Spaced.exists_separated {cs : List Char} {ws : List (List Char)} (h : Spaced cs ws) :
    ∃ pieces last, Separated pieces last ∧ joinTokens pieces last = String.ofList cs ∧
      pieces.map Prod.snd = ws.map String.ofList := by
  induction h with
  | @blank gap hgap =>
    refine ⟨[], String.ofList gap, ⟨by simp, by simp, ?_, by simp⟩, rfl, rfl⟩
    rwa [String.toList_ofList]
  | @word gap word rest ws hgap hne hword hrest h ih =>
    obtain ⟨pieces, last, hsep, hjoin, hsnd⟩ := ih
    refine ⟨(String.ofList gap, String.ofList word) :: pieces, last, ⟨?_, ?_, hsep.last, ?_⟩, ?_, ?_⟩
    · refine List.forall_mem_cons.2 ⟨⟨?_, ?_⟩, hsep.tokens⟩
      · simpa using hne
      · rwa [String.toList_ofList]
    · refine List.forall_mem_cons.2 ⟨?_, hsep.gaps⟩
      rwa [String.toList_ofList]
    · rw [← String.toList_ofList (l := rest), ← hjoin] at hrest
      exact hsep.head?_blank_iff.1 hrest
    · rw [joinTokens, hjoin, String.ofList_append, String.ofList_append]
    · rw [List.map_cons, hsnd, List.map_cons]

theorem tokenize_append_blank (before after : String) {c : Char} (hc : isBlank c = true) :
    tokenize (before ++ String.singleton c ++ after) = tokenize before ++ tokenize after := by
  have hhead : ∀ d ∈ (c :: after.toList).head?, isBlank d = true := by
    intro d hd
    rwa [← Option.some.inj hd]
  have hlist : (before ++ String.singleton c ++ after).toList =
      before.toList ++ c :: after.toList := by simp
  rw [tokenize, hlist, words_append_of_head? _ hhead, words_cons_blank hc, List.map_append]
  rfl

/-- The tokens of a line are those it is written from: a line written from tokens and separators has
these tokens, and every line is written from its own ones. A token is never empty and has no blank
character, and a blank character separates the tokens before it from those behind it. -/
theorem tokenize_inverts_joining :
    (∀ pieces last, Separated pieces last →
      tokenize (joinTokens pieces last) = pieces.map Prod.snd) ∧
    (∀ line, ∃ pieces last, Separated pieces last ∧ joinTokens pieces last = line ∧
      pieces.map Prod.snd = tokenize line) ∧
    (∀ line, ∀ token ∈ tokenize line, token ≠ "" ∧ ∀ c ∈ token.toList, isBlank c = false) ∧
    ∀ (before after : String) (c : Char), isBlank c = true →
      tokenize (before ++ String.singleton c ++ after) = tokenize before ++ tokenize after := by
  have hwritten : ∀ line, ∃ pieces last, Separated pieces last ∧ joinTokens pieces last = line ∧
      pieces.map Prod.snd = tokenize line := by
    intro line
    obtain ⟨pieces, last, hsep, hjoin, htokens⟩ := (spaced_words line.toList).exists_separated
    exact ⟨pieces, last, hsep, hjoin.trans String.ofList_toList, htokens⟩
  refine ⟨fun _ _ h => h.tokenize_eq, hwritten, fun line token htoken => ?_,
    fun before after _ => tokenize_append_blank before after⟩
  obtain ⟨pieces, last, hsep, -, htokens⟩ := hwritten line
  rw [← htokens] at htoken
  obtain ⟨p, hp, rfl⟩ := List.mem_map.1 htoken
  exact hsep.tokens p hp

/-- A no-break space and a line separator are blank, a zero-width space is not. -/
example : tokenize "\u00a0ls\u2028 -a\u200b " = ["ls", "-a\u200b"] := by decide +kernel

end JobShell
