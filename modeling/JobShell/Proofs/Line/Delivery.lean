import JobShell.Proofs.Line.RoundTrip
import JobShell.Proofs.Line.Segments
import JobShell.Proofs.Wiring.Handed

/-!
# The segments of a line and what they ask for

* `Bytes.segmented_ofString`: the segments of a text are its words.
* `Request.ofLine_eq_notUtf8_iff`, `Request.ofWords_of_launch`, `Request.ofText_eq_cd_iff`: when a line
  is refused as ill-formed, asks for a job or for another directory.
* `Delivery`: what a job hands to the system, with the marks between.
* `Delivery.hands_ofPipeline`: the processes of a job hand over its delivery.
-/

namespace JobShell

/-! ## Lines and their segments -/

/-- The segments of a text are its words. -/
theorem Bytes.segmented_ofString {text : String} {segments : List Bytes} :
    Bytes.Segmented (Bytes.ofString text) segments ↔
      (tokenize text).map Bytes.ofString = segments := by
  have hmap : (tokenize text).map Bytes.ofString = (words text.toList).map Bytes.ofChars := by
    rw [tokenize, List.map_map]
    refine List.map_congr_left fun word _ => ?_
    rw [Function.comp_apply, Bytes.ofString, String.toList_ofList]
  rw [hmap]
  exact Bytes.segmented_iff

theorem Request.ofLine_ofString (text : String) :
    Request.ofLine (Bytes.ofString text) = Request.ofText text := by
  rw [ofLine, decodeLine, Utf8.decodeString_eq_some_iff.2 rfl]
  rfl

theorem Request.ofText_ne_notUtf8 (text : String) :
    Request.ofText text ≠ .error .notUtf8 := by
  intro h
  unfold ofText at h
  split at h
  · cases h
  · cases h
  · split at h <;> cases h

/-- A line is refused as ill-formed just if it is. -/
theorem Request.ofLine_eq_notUtf8_iff {line : Bytes} :
    Request.ofLine line = .error .notUtf8 ↔ ¬Utf8.WellFormed line := by
  constructor
  · rintro h hwf
    obtain ⟨text, rfl⟩ := Utf8.wellFormed_iff.1 hwf
    exact ofText_ne_notUtf8 text (ofLine_ofString text ▸ h)
  · intro h
    rw [ofLine, decodeLine, Utf8.decodeString_eq_none_iff.2 h]
    rfl

theorem Request.ofWords_of_launch {text : String} {job : Job}
    (h : Request.ofText text = .ok (.launch job)) : Job.ofWords (tokenize text) = .ok job := by
  unfold ofText at h
  split at h
  · cases h
  · cases h
  · rename_i ws hws
    have htok : tokenize text = ws := by
      unfold Command.ofWords at hws
      split at hws
      · cases hws
      · split at hws
        · cases hws
        · split at hws
          · cases hws
          · rename_i htok _ _ _
            rw [htok]
            exact Command.execute.inj hws
    split at h
    · rename_i hjob
      cases h
      rw [htok, hjob]
    · cases h

/-- A line asks for another directory just if its first word is `cd`. -/
theorem Request.ofText_eq_cd_iff {text : String} {target : Option String} :
    Request.ofText text = .ok (.builtin (.cd target)) ↔
      ∃ rest, tokenize text = "cd" :: rest ∧ target = rest.head? := by
  constructor
  · intro h
    unfold ofText at h
    split at h
    · cases h
    · rename_i b hb
      cases h
      unfold Command.ofWords at hb
      split at hb
      · cases hb
      · rename_i w rest htok
        split at hb
        · cases hb
        · split at hb
          · rename_i b' hb'
            cases hb
            unfold Builtin.ofWords? at hb'
            split at hb' <;> cases hb'
            rename_i hcons
            cases hcons
            exact ⟨_, htok, rfl⟩
          · cases hb
    · split at h <;> cases h
  · rintro ⟨rest, htok, rfl⟩
    have hcomment : startsComment "cd" = false := by decide
    simp [ofText, htok, Command.ofWords, hcomment, Builtin.ofWords?]

/-! ## What a job hands over -/

/-- What a job hands to the system: the arguments of its stages, its redirection and its mark. -/
structure Delivery where
  argvs : List (List Bytes)
  redirect : Option (Redirect.Kind × Bytes)
  background : Bool

namespace Delivery

/-- The segments of a line with this delivery: `|` stands between the stages, the operator before the
target, and `&` at the end. -/
def segments (d : Delivery) : List Bytes :=
  [Bytes.ofString "|"].intercalate d.argvs ++
    ((d.redirect.map fun (kind, target) => [Bytes.ofString kind.operator, target]).getD [] ++
      if d.background then [Bytes.ofString "&"] else [])

/-- The file to be opened. -/
def target (d : Delivery) : Option Bytes := d.redirect.map Prod.snd

/-- The delivery of a pipeline, run in the background or not. -/
def ofPipeline (p : Pipeline) (background : Bool) : Delivery where
  argvs := p.stages.map Launch.arguments
  redirect := p.redirect.map fun r => (r.kind, Bytes.ofString r.target)
  background

theorem map_stageWords (stages : List Stage) :
    ([pipeWord].intercalate stages).map Bytes.ofString =
      [Bytes.ofString "|"].intercalate (stages.map Launch.arguments) := by
  induction stages with
  | nil => rfl
  | cons stage rest ih =>
    cases rest with
    | nil => simp [Launch.arguments]
    | cons next rest =>
      rw [List.intercalate_cons_cons, List.map_append, List.map_append, ih]
      simp [Launch.arguments, pipeWord]

/-- The segments of a delivery are the words of the job. -/
theorem segments_ofPipeline (job : Job) :
    (ofPipeline job.pipeline job.background).segments = job.words.map Bytes.ofString := by
  have hstages := map_stageWords job.pipeline.stages
  obtain ⟨⟨stages, redirect⟩, background⟩ := job
  simp only [segments, ofPipeline, Job.words, Pipeline.stageWords, List.map_append,
    ← hstages, List.append_assoc]
  congr 2
  · cases redirect <;> rfl
  · cases background <;> rfl

theorem mem_intercalate {α : Type} {sep part : List α} {parts : List (List α)} {a : α}
    (hpart : part ∈ parts) (ha : a ∈ part) : a ∈ sep.intercalate parts := by
  induction parts with
  | nil => cases hpart
  | cons first rest ih =>
    cases rest with
    | nil =>
      obtain rfl := List.mem_singleton.1 hpart
      simpa using ha
    | cons next rest =>
      rw [List.intercalate_cons_cons]
      rcases List.mem_cons.1 hpart with rfl | hpart
      · exact List.mem_append_left _ (List.mem_append_left _ ha)
      · exact List.mem_append_right _ (ih hpart)

theorem mem_segments_of_argv {d : Delivery} {argv : List Bytes} {a : Bytes}
    (hargv : argv ∈ d.argvs) (ha : a ∈ argv) : a ∈ d.segments :=
  List.mem_append_left _ (mem_intercalate hargv ha)

theorem mem_segments_of_target {d : Delivery} {target : Bytes} (h : d.target = some target) :
    target ∈ d.segments := by
  obtain ⟨⟨kind, target'⟩, hr, rfl⟩ := Option.map_eq_some_iff.1 h
  refine List.mem_append_right _ (List.mem_append_left _ ?_)
  simp [hr]

/-- Every program of the delivery is looked for somewhere. -/
def Reaches (d : Delivery) (path : Option Bytes) : Prop :=
  ∀ argv ∈ d.argvs, ∀ name ∈ argv.head?, Search.Reaches path name

/-- The processes of a job hand over its delivery, and nothing keeps them from it if there is no NUL
in the line. -/
theorem hands_ofPipeline {line : Bytes} {env : List Bytes} {p : Pipeline} {background : Bool}
    (hwf : p.WellFormed) (hline : Bytes.Segmented line (ofPipeline p background).segments) :
    ((Launch.leader env p).run).Hands
      (0 ∉ line ∧ (ofPipeline p background).Reaches (Environment.get? env "PATH"))
      (ofPipeline p background).target (ofPipeline p background).argvs := by
  have htarget : (ofPipeline p background).target = p.redirect.map (Bytes.ofString ·.target) :=
    Option.map_map ..
  rw [htarget]
  refine Launch.hands_leader (fun _ => hwf.1) ?_ ?_
  · rintro ⟨hclean, hreaches⟩ stage hstage
    have hargv : Launch.arguments stage ∈ (ofPipeline p background).argvs :=
      List.mem_map_of_mem hstage
    refine ⟨fun a ha hnul => ?_, ?_⟩
    · have hmem := mem_segments_of_argv hargv (List.mem_map_of_mem ha)
      exact hclean (hline.subset hmem hnul)
    · obtain ⟨name, rest, rfl⟩ := List.exists_cons_of_ne_nil (hwf.2 stage hstage).1
      have hmem := mem_segments_of_argv hargv (a := Bytes.ofString name) List.mem_cons_self
      exact ⟨_, _, rfl, hline.ne_nil hmem, hreaches _ hargv _ rfl⟩
  · rintro ⟨hclean, -⟩ r hr hnul
    have hmem : Bytes.ofString r.target ∈ (ofPipeline p background).segments :=
      mem_segments_of_target (by rw [htarget, Option.mem_def.1 hr]; rfl)
    exact hclean (hline.subset hmem hnul)

end Delivery

end JobShell
