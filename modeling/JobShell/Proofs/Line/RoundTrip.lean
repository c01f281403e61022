import JobShell.Line.Job

/-!
# Reading and writing jobs

`Job.ofWords` takes words off the end of a line in a fixed order, a mark and then a redirection, and
cuts what is left into stages. Each of the three passes is characterised by what it puts back:

* `takeBackground_eq_iff`, `takeRedirect_eq_iff`: what is taken and what is left make up the words,
  and nothing is taken only where there is nothing to take.
* `Pipeline.ofWords_eq_ok_iff`: the stages read are those whose words are given.
* `Job.ofWords_eq_ok_iff`: a job is read from exactly its own words, unless these end in a word that
  reads as a mark or as a redirection the job does not have.
-/

namespace JobShell

/-! ## The mark of the background -/

/-- The words of a mark. -/
def markWords (background : Bool) : List String := if background then [backgroundWord] else []

theorem takeBackground_append_mark (words : List String) :
    takeBackground (words ++ [backgroundWord]) = (true, words) := by
  simp [takeBackground]

theorem takeBackground_of_unmarked {words : List String}
    (h : words.getLast? ≠ some backgroundWord) :
    takeBackground words = (false, words) :=
  if_neg h

theorem takeBackground_eq_iff {words rest : List String} {background : Bool} :
    takeBackground words = (background, rest) ↔
      words = rest ++ markWords background ∧
        (background ∨ words.getLast? ≠ some backgroundWord) := by
  constructor
  · intro h
    by_cases hlast : words.getLast? = some backgroundWord
    · obtain ⟨before, rfl⟩ := List.getLast?_eq_some_iff.1 hlast
      rw [takeBackground_append_mark] at h
      cases h
      exact ⟨rfl, .inl rfl⟩
    · rw [takeBackground_of_unmarked hlast] at h
      cases h
      exact ⟨(List.append_nil words).symm, .inr hlast⟩
  · rintro ⟨rfl, hlast⟩
    cases background with
    | true => exact takeBackground_append_mark rest
    | false =>
      simp only [markWords, Bool.false_eq_true, if_false, List.append_nil, false_or] at hlast ⊢
      exact takeBackground_of_unmarked hlast

/-! ## The redirection -/

/-- The words of a redirection that may be absent. -/
def redirectWords (redirect : Option Redirect) : List String :=
  (redirect.map Redirect.words).getD []

/-- The last word but one is an operator. -/
def EndsInRedirect (words : List String) : Prop :=
  ∃ (before : List String) (r : Redirect), words = before ++ r.words

theorem takeRedirect_append_words (words : List String) (r : Redirect) :
    takeRedirect (words ++ r.words) = (some r, words) := by
  simp [takeRedirect, Redirect.words, Redirect.Kind.ofOperator?_operator]

theorem takeRedirect_of_not_ends {words : List String} (h : ¬EndsInRedirect words) :
    takeRedirect words = (none, words) := by
  unfold takeRedirect
  split
  · rename_i op target hlast
    split
    · rename_i kind hkind
      refine absurd ⟨words.take (words.length - 2), { kind, target }, ?_⟩ h
      rw [Redirect.words, ← Redirect.Kind.eq_operator_of_ofOperator? hkind, ← hlast,
        List.take_append_drop]
    · rfl
  · rfl

theorem takeRedirect_eq_iff {words rest : List String} {redirect : Option Redirect} :
    takeRedirect words = (redirect, rest) ↔
      words = rest ++ redirectWords redirect ∧ (redirect.isSome ∨ ¬EndsInRedirect words) := by
  constructor
  · intro h
    by_cases hends : EndsInRedirect words
    · obtain ⟨before, r, rfl⟩ := hends
      rw [takeRedirect_append_words] at h
      cases h
      exact ⟨rfl, .inl rfl⟩
    · rw [takeRedirect_of_not_ends hends] at h
      cases h
      exact ⟨(List.append_nil words).symm, .inr hends⟩
  · rintro ⟨rfl, hends⟩
    cases redirect with
    | some r => exact takeRedirect_append_words rest r
    | none =>
      simp only [redirectWords, Option.map_none, Option.getD_none, List.append_nil,
        Option.isSome_none, Bool.false_eq_true, false_or] at hends ⊢
      exact takeRedirect_of_not_ends hends

/-- Words end in a redirection if there are two of them and the last but one is an operator. -/
theorem endsInRedirect_iff {words : List String} :
    EndsInRedirect words ↔
      2 ≤ words.length ∧ ∃ op ∈ ["<", ">", ">>"], words[words.length - 2]? = some op := by
  constructor
  · rintro ⟨before, r, rfl⟩
    refine ⟨by simp [Redirect.words], r.kind.operator, ?_, by simp [Redirect.words]⟩
    cases r.kind <;> decide
  · rintro ⟨hlen, op, hop, hget⟩
    obtain ⟨kind, rfl⟩ : ∃ kind : Redirect.Kind, op = kind.operator := by
      simp only [List.mem_cons, List.not_mem_nil, or_false] at hop
      rcases hop with rfl | rfl | rfl
      · exact ⟨.input, rfl⟩
      · exact ⟨.truncate, rfl⟩
      · exact ⟨.append, rfl⟩
    obtain ⟨hi, hget⟩ := List.getElem?_eq_some_iff.1 hget
    have hlast : words.length - 2 + 1 < words.length := by omega
    refine ⟨words.take (words.length - 2), { kind, target := words[words.length - 2 + 1] }, ?_⟩
    have hdrop : words.drop (words.length - 2) =
        [kind.operator, words[words.length - 2 + 1]] := by
      rw [List.drop_eq_getElem_cons hi, hget, List.drop_eq_getElem_cons hlast,
        List.drop_eq_nil_of_le (by omega)]
    rw [Redirect.words, ← hdrop, List.take_append_drop]

/-! ## The stages -/

theorem segments_eq_splitOn (words : List String) : segments words = words.splitOn pipeWord := by
  induction words with
  | nil => rfl
  | cons w rest ih =>
    rw [List.splitOn_cons_eq_if_modifyHead, segments, ih]
    by_cases hw : w = pipeWord
    · simp [hw]
    · rw [if_neg hw, if_neg (by simpa using hw)]
      cases hs : rest.splitOn pipeWord with
      | nil => exact absurd hs (List.splitOn_ne_nil _ _)
      | cons s ss => rfl

theorem pipeWord_not_mem_of_mem_segments {words : List String} {s : Stage}
    (h : s ∈ segments words) : pipeWord ∉ s := by
  induction words generalizing s with
  | nil =>
    rw [List.mem_singleton.1 h]
    exact List.not_mem_nil
  | cons w rest ih =>
    rw [segments] at h
    split at h
    · rcases List.mem_cons.1 h with rfl | h
      · exact List.not_mem_nil
      · exact ih h
    · rename_i hw
      split at h
      · rename_i first others hseg
        rw [hseg] at ih
        rcases List.mem_cons.1 h with rfl | h
        · exact fun hmem => (List.mem_cons.1 hmem).elim (hw ·.symm) (ih List.mem_cons_self)
        · exact ih (List.mem_cons_of_mem _ h)
      · rw [List.mem_singleton.1 h, List.mem_singleton]
        exact (hw ·.symm)

theorem Pipeline.WellFormed.segments_stageWords {p : Pipeline} (h : p.WellFormed) :
    segments p.stageWords = p.stages := by
  rw [segments_eq_splitOn, stageWords]
  exact List.splitOn_intercalate _ (fun s hs => (h.2 s hs).2) h.1

theorem Pipeline.WellFormed.stageWords_ne_nil {p : Pipeline} (h : p.WellFormed) :
    p.stageWords ≠ [] := by
  intro hnil
  have hs := h.segments_stageWords
  rw [hnil] at hs
  exact (h.2 [] (by simp [← hs, segments])).1 rfl

theorem Pipeline.ofWords_eq_ok_iff {words : List String} {redirect : Option Redirect}
    {p : Pipeline} :
    Pipeline.ofWords words redirect = .ok p ↔
      p.WellFormed ∧ p.stageWords = words ∧ p.redirect = redirect := by
  constructor
  · intro h
    unfold Pipeline.ofWords at h
    split at h
    · cases h
    · split at h
      · cases h
      · rename_i hfull
        cases h
        refine ⟨⟨?_, fun s hs => ⟨?_, pipeWord_not_mem_of_mem_segments hs⟩⟩, ?_, rfl⟩
        · rw [segments_eq_splitOn]
          exact List.splitOn_ne_nil _ _
        · rintro rfl
          exact hfull (List.any_eq_true.2 ⟨[], hs, rfl⟩)
        · rw [stageWords, segments_eq_splitOn]
          exact List.intercalate_splitOn _
  · rintro ⟨hp, rfl, rfl⟩
    have hwords : ¬p.stageWords.isEmpty := by simpa using hp.stageWords_ne_nil
    have hfull : ¬p.stages.any (·.isEmpty) := by
      rw [List.any_eq_true]
      rintro ⟨s, hs, hnil⟩
      exact (hp.2 s hs).1 (List.isEmpty_iff.1 hnil)
    rw [Pipeline.ofWords, if_neg hwords, hp.segments_stageWords, if_neg hfull]

/-! ## Jobs -/

theorem Job.words_eq (j : Job) :
    j.words = (j.pipeline.stageWords ++ redirectWords j.pipeline.redirect) ++
      markWords j.background := rfl

/-- Reading a job is the three passes one after another. -/
theorem Job.ofWords_eq_ok_iff_passes {words : List String} {job : Job} :
    Job.ofWords words = .ok job ↔
      ∃ unmarked, takeBackground words = (job.background, unmarked) ∧
        takeRedirect unmarked = (job.pipeline.redirect, job.pipeline.stageWords) ∧
        job.pipeline.WellFormed := by
  obtain ⟨pipeline, background⟩ := job
  constructor
  · intro h
    cases hb : takeBackground words with
    | mk b unmarked =>
      cases hr : takeRedirect unmarked with
      | mk r stages =>
        simp only [Job.ofWords, hb, hr] at h
        cases hp : Pipeline.ofWords stages r with
        | error e =>
          rw [hp] at h
          cases h
        | ok p =>
          rw [hp] at h
          cases h
          obtain ⟨hwf, rfl, rfl⟩ := Pipeline.ofWords_eq_ok_iff.1 hp
          exact ⟨unmarked, rfl, hr, hwf⟩
  · rintro ⟨unmarked, hb, hr, hwf⟩
    have hp := Pipeline.ofWords_eq_ok_iff.2 ⟨hwf, rfl, rfl⟩
    simp only [Job.ofWords, hb, hr, hp]
    rfl

/-- A job is read from its own words only, and from these unless they end in a word that reads as a
mark or as a redirection it does not have. -/
theorem Job.ofWords_eq_ok_iff {words : List String} {job : Job} :
    Job.ofWords words = .ok job ↔
      job.pipeline.WellFormed ∧ job.words = words ∧
        (job.background ∨ words.getLast? ≠ some backgroundWord) ∧
        (job.pipeline.redirect.isSome ∨ ¬EndsInRedirect job.pipeline.stageWords) := by
  rw [ofWords_eq_ok_iff_passes]
  constructor
  · rintro ⟨unmarked, hb, hr, hwf⟩
    obtain ⟨rfl, hmark⟩ := takeBackground_eq_iff.1 hb
    obtain ⟨rfl, hends⟩ := takeRedirect_eq_iff.1 hr
    refine ⟨hwf, rfl, hmark, ?_⟩
    cases hrd : job.pipeline.redirect with
    | some r => exact .inl rfl
    | none => simpa [hrd, redirectWords] using hends
  · rintro ⟨hwf, rfl, hmark, hends⟩
    refine ⟨_, takeBackground_eq_iff.2 ⟨job.words_eq, hmark⟩, takeRedirect_eq_iff.2 ⟨rfl, ?_⟩, hwf⟩
    cases hrd : job.pipeline.redirect with
    | some r => exact .inl rfl
    | none => simpa [hrd, redirectWords] using hends

/-- What is read as a job is a well-formed job with just these words. A well-formed job is read from
its words exactly if they do not end in a mark it does not have, nor its stages in an operator and
one more word where it has no redirection. -/
theorem Job.ofWords_recovers :
    (∀ (words : List String) (job : Job), Job.ofWords words = .ok job →
      job.pipeline.WellFormed ∧ job.words = words) ∧
    ∀ job : Job, job.pipeline.WellFormed →
      (Job.ofWords job.words = .ok job ↔
        (job.background ∨ job.words.getLast? ≠ some "&") ∧
        (job.pipeline.redirect.isSome ∨ job.pipeline.stageWords.length < 2 ∨
          ∀ op ∈ ["<", ">", ">>"],
            job.pipeline.stageWords[job.pipeline.stageWords.length - 2]? ≠ some op)) := by
  refine ⟨fun words job h => ?_, fun job hwf => ?_⟩
  · obtain ⟨hwf, hwords, -, -⟩ := ofWords_eq_ok_iff.1 h
    exact ⟨hwf, hwords⟩
  · rw [ofWords_eq_ok_iff, endsInRedirect_iff]
    simp only [hwf, true_and, not_and, not_exists, Nat.not_le.symm, backgroundWord,
      Decidable.imp_iff_not_or]

/-- A word `|` that is a target does not separate stages, and a first operator is an argument. -/
example : Job.ofWords ["cat", "<", "in", ">", "|", "&"] =
    .ok ⟨⟨[["cat", "<", "in"]], some ⟨.truncate, "|"⟩⟩, true⟩ := rfl

end JobShell
