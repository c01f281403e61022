import JobShell.Proofs.Line.Rejection

/-!
# Pipelines side by side

Words that read as a job may be put behind a word `|` and any other words. The mark and the
redirection are then found where they were before, and the stages are those of both sides.

* `takeBackground_append_pipe`, `takeRedirect_append_pipe`: a word `|` hides what is before it from
  the two passes at the end of the words.
* `segments_append_pipe`: a word `|` ends a run wherever it stands.
* `Job.ofWords_append_pipe`: what is read from both sides together.
-/

namespace JobShell

variable {before after rest : List String} {redirect : Option Redirect} {p q : Pipeline}

/-! ## The end of the words -/

theorem getLast?_append_pipe (before : List String) (h : after ≠ []) :
    (before ++ "|" :: after).getLast? = after.getLast? := by
  obtain ⟨last, hlast⟩ := List.getLast?_isSome.2 h |> Option.isSome_iff_exists.1
  obtain ⟨front, rfl⟩ := List.getLast?_eq_some_iff.1 hlast
  rw [hlast, List.getLast?_eq_some_iff]
  exact ⟨before ++ "|" :: front, by simp⟩

theorem takeBackground_append_pipe {background : Bool} (h : after ≠ [])
    (hread : takeBackground after = (background, rest)) :
    takeBackground (before ++ "|" :: after) = (background, before ++ "|" :: rest) := by
  obtain ⟨hwords, hmark⟩ := takeBackground_eq_iff.1 hread
  rw [takeBackground_eq_iff, getLast?_append_pipe before h]
  refine ⟨?_, hmark⟩
  rw [hwords, List.append_assoc, List.cons_append]

/-- The last word but one is the same, or it is now the word `|`, which is no operator. -/
theorem endsInRedirect_append_pipe (before : List String) (h : after ≠ []) :
    EndsInRedirect (before ++ "|" :: after) ↔ EndsInRedirect after := by
  have hpos : 0 < after.length := List.length_pos_iff.2 h
  have hlen : (before ++ "|" :: after).length = before.length + 1 + after.length := by
    simp only [List.length_append, List.length_cons]
    omega
  rw [endsInRedirect_iff, endsInRedirect_iff, hlen]
  by_cases hone : after.length = 1
  · have hseam : (before ++ "|" :: after)[before.length + 1 + after.length - 2]? = some "|" := by
      rw [show before.length + 1 + after.length - 2 = before.length by omega]
      simp
    rw [hseam]
    constructor
    · rintro ⟨-, op, hop, hpipe⟩
      obtain rfl := Option.some.inj hpipe
      exact absurd hop (by decide)
    · rintro ⟨htwo, -⟩
      omega
  · have hsame : (before ++ "|" :: after)[before.length + 1 + after.length - 2]? =
        after[after.length - 2]? := by
      rw [List.getElem?_append_right (by omega),
        show before.length + 1 + after.length - 2 - before.length = after.length - 2 + 1 by omega,
        List.getElem?_cons_succ]
    rw [hsame]
    exact and_congr_left fun _ => by omega

theorem takeRedirect_append_pipe (h : after ≠ []) (hread : takeRedirect after = (redirect, rest)) :
    takeRedirect (before ++ "|" :: after) = (redirect, before ++ "|" :: rest) := by
  obtain ⟨hwords, hends⟩ := takeRedirect_eq_iff.1 hread
  rw [takeRedirect_eq_iff, endsInRedirect_append_pipe before h]
  refine ⟨?_, hends⟩
  rw [hwords, List.append_assoc, List.cons_append]

/-! ## The stages -/

theorem segments_append_pipe (before after : List String) :
    segments (before ++ "|" :: after) = segments before ++ segments after := by
  induction before with
  | nil => rfl
  | cons w rest ih =>
    by_cases hw : w = "|"
    · subst hw
      have hjoin := congrArg ([] :: ·) ih
      exact hjoin
    · obtain ⟨first, others, hrest, hcons⟩ := segments_cons_of_ne rest hw
      obtain ⟨first', others', hrest', hcons'⟩ := segments_cons_of_ne (rest ++ "|" :: after) hw
      rw [ih, hrest] at hrest'
      obtain ⟨rfl, rfl⟩ := List.cons.inj hrest'
      rw [List.cons_append, hcons', hcons]
      rfl

/-- Words are a pipeline if no run of them is empty. -/
theorem Pipeline.ofWords_eq_ok_iff_full {words : List String} :
    Pipeline.ofWords words redirect = .ok p ↔
      [] ∉ segments words ∧ p = { stages := segments words, redirect } := by
  constructor
  · intro h
    obtain ⟨hwf, rfl, rfl⟩ := Pipeline.ofWords_eq_ok_iff.1 h
    rw [hwf.segments_stageWords]
    exact ⟨fun hnil => (hwf.2 [] hnil).1 rfl, rfl⟩
  · rintro ⟨hfull, rfl⟩
    refine Pipeline.ofWords_of_not_mem ?_ hfull
    rintro rfl
    exact hfull List.mem_cons_self

theorem nil_mem_segments_of_error {words : List String} {e : MalformedJob}
    (h : Pipeline.ofWords words redirect = .error e) : [] ∈ segments words := by
  by_cases hnil : [] ∈ segments words
  · exact hnil
  · rw [Pipeline.ofWords_eq_ok_iff_full.2 ⟨hnil, rfl⟩] at h
    cases h

theorem Pipeline.ofWords_joined (hp : Pipeline.ofWords before none = .ok p)
    (hq : Pipeline.ofWords after redirect = .ok q) :
    Pipeline.ofWords (before ++ "|" :: after) redirect = .ok ⟨p.stages ++ q.stages, redirect⟩ := by
  obtain ⟨hbefore, rfl⟩ := ofWords_eq_ok_iff_full.1 hp
  obtain ⟨hafter, rfl⟩ := ofWords_eq_ok_iff_full.1 hq
  rw [ofWords_eq_ok_iff_full, segments_append_pipe]
  refine ⟨fun hnil => ?_, rfl⟩
  rcases List.mem_append.1 hnil with hnil | hnil
  · exact hbefore hnil
  · exact hafter hnil

theorem Pipeline.ofWords_joined_of_error {e : MalformedJob}
    (h : Pipeline.ofWords before none = .error e) :
    Pipeline.ofWords (before ++ "|" :: after) redirect = .error .emptyStage := by
  refine ofWords_of_mem (by simp) ?_
  rw [segments_append_pipe]
  exact List.mem_append_left _ (nil_mem_segments_of_error h)

/-! ## Jobs -/

/-- The passes over words behind a word `|` are those over the words alone. -/
theorem Job.ofWords_of_passes_behind {unmarked : List String} {background : Bool}
    (hb : takeBackground after = (background, unmarked))
    (hr : takeRedirect unmarked = (redirect, rest)) (h : rest ≠ []) (before : List String) :
    Job.ofWords (before ++ "|" :: after) =
      (Pipeline.ofWords (before ++ "|" :: rest) redirect).map ({ pipeline := ·, background }) := by
  have hunmarked : unmarked ≠ [] := by
    rw [(takeRedirect_eq_iff.1 hr).1]
    exact List.append_ne_nil_of_left_ne_nil h _
  have hafter : after ≠ [] := by
    rw [(takeBackground_eq_iff.1 hb).1]
    exact List.append_ne_nil_of_left_ne_nil hunmarked _
  simp only [Job.ofWords, takeBackground_append_pipe hafter hb,
    takeRedirect_append_pipe hunmarked hr]
  cases Pipeline.ofWords (before ++ "|" :: rest) redirect with
  | error e => rfl
  | ok p => rfl

/-- Behind words that make a pipeline and a word `|`, the words of a job are read as that job with
the stages of the pipeline put before its own; the words before are then arguments or words `|`
between stages, whatever they look like. If the words before make no pipeline, a stage is empty.
Whatever stands before, the mark and the redirection read are those of the job. -/
theorem Job.ofWords_append_pipe {job : Job} (h : Job.ofWords after = .ok job)
    (before : List String) :
    (∀ p : Pipeline, Pipeline.ofWords before none = .ok p →
      Job.ofWords (before ++ "|" :: after) = .ok
        { pipeline :=
            { stages := p.stages ++ job.pipeline.stages, redirect := job.pipeline.redirect },
          background := job.background } ∧
      [pipeWord].intercalate p.stages = before ∧ ∀ s ∈ p.stages, pipeWord ∉ s) ∧
    (∀ e, Pipeline.ofWords before none = .error e →
      Job.ofWords (before ++ "|" :: after) = .error .emptyStage) ∧
    ∀ joined, Job.ofWords (before ++ "|" :: after) = .ok joined →
      joined.pipeline.redirect = job.pipeline.redirect ∧ joined.background = job.background := by
  obtain ⟨unmarked, hb, hr, hwf⟩ := ofWords_eq_ok_iff_passes.1 h
  have hjoined := ofWords_of_passes_behind hb hr hwf.stageWords_ne_nil before
  have hq : Pipeline.ofWords job.pipeline.stageWords job.pipeline.redirect = .ok job.pipeline :=
    Pipeline.ofWords_eq_ok_iff.2 ⟨hwf, rfl, rfl⟩
  have hok : ∀ p, Pipeline.ofWords before none = .ok p → Job.ofWords (before ++ "|" :: after) =
      .ok ⟨⟨p.stages ++ job.pipeline.stages, job.pipeline.redirect⟩, job.background⟩ := by
    intro p hp
    rw [hjoined, Pipeline.ofWords_joined hp hq]
    rfl
  have herror : ∀ e, Pipeline.ofWords before none = .error e →
      Job.ofWords (before ++ "|" :: after) = .error .emptyStage := by
    intro e he
    rw [hjoined, Pipeline.ofWords_joined_of_error he]
    rfl
  refine ⟨fun p hp => ⟨hok p hp, ?_⟩, herror, fun joined hread => ?_⟩
  · obtain ⟨hfirst, hwords, -⟩ := Pipeline.ofWords_eq_ok_iff.1 hp
    exact ⟨hwords, fun s hs => (hfirst.2 s hs).2⟩
  · cases hp : Pipeline.ofWords before none with
    | error e =>
      rw [herror e hp] at hread
      cases hread
    | ok p =>
      rw [hok p hp] at hread
      cases hread
      exact ⟨rfl, rfl⟩

/-- The words before the seam end in an operator and hold a mark; the ones behind it are a job of
one word, so that the last word but one is the seam itself. -/
theorem Job.ofWords_append_pipe_seam :
    Job.ofWords ["wc"] = .ok ⟨⟨[["wc"]], none⟩, false⟩ ∧
    Pipeline.ofWords ["echo", "&", "|", "cat", ">"] none =
      .ok ⟨[["echo", "&"], ["cat", ">"]], none⟩ ∧
    Job.ofWords (["echo", "&", "|", "cat", ">"] ++ "|" :: ["wc"]) =
      .ok ⟨⟨[["echo", "&"], ["cat", ">"], ["wc"]], none⟩, false⟩ ∧
    Job.ofWords ([] ++ "|" :: ["wc"]) = .error .emptyStage :=
  have hjob : Job.ofWords ["wc"] = .ok ⟨⟨[["wc"]], none⟩, false⟩ := rfl
  ⟨hjob, rfl, ((Job.ofWords_append_pipe hjob ["echo", "&", "|", "cat", ">"]).1 _ rfl).1,
    (Job.ofWords_append_pipe hjob []).2.1 _ rfl⟩

end JobShell
