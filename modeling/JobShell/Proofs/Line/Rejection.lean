import JobShell.Line.Command
import JobShell.Proofs.Line.RoundTrip

/-!
# Malformed jobs

The words of a job that are left for its stages, and which of them make no pipeline.

* `Job.body`: the words before a mark and a redirection, said of the words alone.
* `nil_mem_segments_iff`: a run between the words `|` is empty where such a word is first, last or
  beside another one.
* `Job.ofWords_rejects`: which words are refused, with which error, and how many stages are read
  from all others.
-/

namespace JobShell

/-! ## What is left for the stages -/

/-- The last word but one is an operator. -/
def HasOperator (words : List String) : Prop :=
  2 ≤ words.length ∧ ∃ op ∈ ["<", ">", ">>"], words[words.length - 2]? = some op

instance (words : List String) : Decidable (HasOperator words) :=
  inferInstanceAs (Decidable (_ ∧ _))

/-- The words but for a last `&`. -/
def unmarked (words : List String) : List String :=
  if words.getLast? = some "&" then words.dropLast else words

/-- The words but for an operator and its target at their end. -/
def unredirected (words : List String) : List String :=
  if HasOperator words then words.take (words.length - 2) else words

/-- The words of a job that are left for its stages. -/
def Job.body (words : List String) : List String := unredirected (unmarked words)

theorem takeBackground_snd (words : List String) : (takeBackground words).2 = unmarked words := by
  by_cases h : words.getLast? = some "&"
  · obtain ⟨before, rfl⟩ := List.getLast?_eq_some_iff.1 h
    rw [unmarked, if_pos h, List.dropLast_concat]
    exact congrArg Prod.snd (takeBackground_append_mark before)
  · rw [unmarked, if_neg h, takeBackground_of_unmarked h]

theorem takeRedirect_snd (words : List String) : (takeRedirect words).2 = unredirected words := by
  unfold unredirected
  by_cases h : HasOperator words
  · rw [if_pos h]
    obtain ⟨before, r, rfl⟩ := endsInRedirect_iff.2 h
    rw [takeRedirect_append_words]
    simp [Redirect.words]
  · rw [if_neg h, takeRedirect_of_not_ends (h ∘ endsInRedirect_iff.1)]

/-! ## Empty runs -/

/-- Two words `|` with nothing between them. -/
def HasAdjacentPipes (words : List String) : Prop :=
  ∃ i, words[i]? = some "|" ∧ words[i + 1]? = some "|"

theorem not_hasAdjacentPipes_nil : ¬HasAdjacentPipes [] := by
  rintro ⟨i, h, -⟩
  cases h

theorem hasAdjacentPipes_cons {w : String} {rest : List String} :
    HasAdjacentPipes (w :: rest) ↔
      (w = "|" ∧ rest.head? = some "|") ∨ HasAdjacentPipes rest := by
  constructor
  · rintro ⟨i, hi, hnext⟩
    cases i with
    | zero => exact .inl ⟨Option.some.inj hi, by rw [List.head?_eq_getElem?]; exact hnext⟩
    | succ i => exact .inr ⟨i, hi, hnext⟩
  · rintro (⟨rfl, hhead⟩ | ⟨i, hi, hnext⟩)
    · exact ⟨0, rfl, by rw [← hhead, List.head?_eq_getElem?]; rfl⟩
    · exact ⟨i + 1, hi, hnext⟩

theorem segments_ne_nil (words : List String) : segments words ≠ [] := by
  rw [segments_eq_splitOn]
  exact List.splitOn_ne_nil _ _

theorem segments_cons_of_ne {w : String} (rest : List String) (h : w ≠ "|") :
    ∃ first others, segments rest = first :: others ∧
      segments (w :: rest) = (w :: first) :: others := by
  obtain ⟨first, others, hseg⟩ := List.exists_cons_of_ne_nil (segments_ne_nil rest)
  refine ⟨first, others, hseg, ?_⟩
  have h : w ≠ pipeWord := h
  rw [segments, if_neg h, hseg]

theorem head?_segments_eq_nil_iff (words : List String) :
    (segments words).head? = some [] ↔ words = [] ∨ words.head? = some "|" := by
  cases words with
  | nil => simp [segments]
  | cons w rest =>
    by_cases hw : w = "|"
    · subst hw
      simp [segments, pipeWord]
    · obtain ⟨first, others, -, hseg⟩ := segments_cons_of_ne rest hw
      simp [hseg, hw]

/-- All runs but the first follow a word `|`: such a run is empty if the word is the last one or is
followed by another `|`. -/
theorem nil_mem_tail_segments_iff {words : List String} :
    [] ∈ (segments words).tail ↔ words.getLast? = some "|" ∨ HasAdjacentPipes words := by
  induction words with
  | nil => simp [segments, not_hasAdjacentPipes_nil]
  | cons w rest ih =>
    by_cases hw : w = "|"
    · subst hw
      -- The runs of `rest` all count, so its first run joins the hypothesis.
      have hall : [] ∈ segments rest ↔
          (rest = [] ∨ rest.head? = some "|") ∨
            rest.getLast? = some "|" ∨ HasAdjacentPipes rest := by
        rw [← head?_segments_eq_nil_iff, ← ih]
        obtain ⟨first, others, hseg⟩ := List.exists_cons_of_ne_nil (segments_ne_nil rest)
        simp [hseg, eq_comm]
      have hlast : ("|" :: rest).getLast? = some "|" ↔ rest = [] ∨ rest.getLast? = some "|" := by
        cases rest with
        | nil => simp
        | cons v others => simp [List.getLast?_cons_cons]
      have htail : (segments ("|" :: rest)).tail = segments rest := rfl
      rw [htail, hall, hlast, hasAdjacentPipes_cons]
      grind
    · obtain ⟨first, others, hseg, hseg'⟩ := segments_cons_of_ne rest hw
      have htail : (segments (w :: rest)).tail = (segments rest).tail := by rw [hseg, hseg']; rfl
      have hlast : (w :: rest).getLast? = some "|" ↔ rest.getLast? = some "|" := by
        cases rest with
        | nil => simp [hw]
        | cons v others => rw [List.getLast?_cons_cons]
      rw [htail, ih, hlast, hasAdjacentPipes_cons]
      simp [hw]

theorem nil_mem_segments_iff {words : List String} (h : words ≠ []) :
    [] ∈ segments words ↔
      words.head? = some "|" ∨ words.getLast? = some "|" ∨ HasAdjacentPipes words := by
  have hfirst := head?_segments_eq_nil_iff words
  rw [or_iff_right h] at hfirst
  rw [← hfirst, ← nil_mem_tail_segments_iff]
  obtain ⟨first, others, hseg⟩ := List.exists_cons_of_ne_nil (segments_ne_nil words)
  simp [hseg, eq_comm]

theorem length_segments (words : List String) :
    (segments words).length = words.count "|" + 1 := by
  induction words with
  | nil => rfl
  | cons w rest ih =>
    by_cases hw : w = "|"
    · subst hw
      rw [List.count_cons_self, ← ih]
      rfl
    · obtain ⟨first, others, hseg, hseg'⟩ := segments_cons_of_ne rest hw
      rw [List.count_cons_of_ne hw, ← ih, hseg, hseg']
      rfl

/-! ## Refused words -/

theorem Pipeline.ofWords_nil (redirect : Option Redirect) :
    Pipeline.ofWords [] redirect = .error .emptyCommand := rfl

theorem Pipeline.ofWords_of_mem {words : List String} {redirect : Option Redirect}
    (h : words ≠ []) (hnil : [] ∈ segments words) :
    Pipeline.ofWords words redirect = .error .emptyStage := by
  rw [Pipeline.ofWords, if_neg (by simpa using h), if_pos (List.any_eq_true.2 ⟨[], hnil, rfl⟩)]

theorem Pipeline.ofWords_of_not_mem {words : List String} {redirect : Option Redirect}
    (h : words ≠ []) (hfull : [] ∉ segments words) :
    Pipeline.ofWords words redirect = .ok { stages := segments words, redirect } := by
  have hany : ¬(segments words).any (·.isEmpty) := by
    rw [List.any_eq_true]
    rintro ⟨s, hs, hempty⟩
    exact hfull (List.isEmpty_iff.1 hempty ▸ hs)
  rw [Pipeline.ofWords, if_neg (by simpa using h), if_neg hany]

/-- What is done with the words of a job is decided by their body. -/
theorem Job.ofWords_eq (words : List String) :
    Job.ofWords words =
      (Pipeline.ofWords (Job.body words) (takeRedirect (unmarked words)).1).map
        fun pipeline => { pipeline, background := (takeBackground words).1 } := by
  rw [Job.body, ← takeRedirect_snd, ← takeBackground_snd]
  cases hb : takeBackground words with
  | mk background rest =>
    cases hr : takeRedirect rest with
    | mk redirect stages =>
      simp only [Job.ofWords, hb, hr]
      cases Pipeline.ofWords stages redirect with
      | error e => rfl
      | ok pipeline => rfl

/-- Words that have been decoded are not refused as ill-formed bytes. -/
theorem malformed_ne_notUtf8 (r : Except MalformedJob Job) :
    r.mapError LineError.malformed ≠ .error .notUtf8 := by
  cases r <;> rintro ⟨⟩

/-- Words are refused for want of a program exactly if their body is empty, and for an empty stage
exactly if it is not, but begins or ends with a `|` or has two of them side by side. They are never
refused as ill-formed bytes, and from all others a job is read that has one stage more than its body
has words `|`. -/
theorem Job.ofWords_rejects (words : List String) :
    (Job.ofWords words = .error .emptyCommand ↔ Job.body words = []) ∧
    (Job.ofWords words = .error .emptyStage ↔
      Job.body words ≠ [] ∧ ((Job.body words).head? = some "|" ∨
        (Job.body words).getLast? = some "|" ∨ HasAdjacentPipes (Job.body words))) ∧
    (Job.ofWords words).mapError LineError.malformed ≠ .error .notUtf8 ∧
    (Job.ofWords words ≠ .error .emptyCommand → Job.ofWords words ≠ .error .emptyStage →
      ∃ job, Job.ofWords words = .ok job ∧
        job.pipeline.stages.length = (Job.body words).count "|" + 1) := by
  have heq := Job.ofWords_eq words
  by_cases hbody : Job.body words = []
  · rw [hbody, Pipeline.ofWords_nil] at heq
    simp [heq, hbody, malformed_ne_notUtf8, Except.map]
  · by_cases hnil : [] ∈ segments (Job.body words)
    · rw [Pipeline.ofWords_of_mem hbody hnil] at heq
      simp [heq, hbody, (nil_mem_segments_iff hbody).1 hnil, malformed_ne_notUtf8, Except.map]
    · rw [Pipeline.ofWords_of_not_mem hbody hnil] at heq
      rw [nil_mem_segments_iff hbody] at hnil
      simp [heq, hbody, hnil, malformed_ne_notUtf8, Except.map, length_segments]

/-- The target of a redirection is no end of a stage, but the word before its operator is. -/
example : Job.ofWords ["|", ">", "|"] = .error .emptyStage ∧
    Job.ofWords ["ls", ">", "|"] = .ok ⟨⟨[["ls"]], some ⟨.truncate, "|"⟩⟩, false⟩ := ⟨rfl, rfl⟩

end JobShell
