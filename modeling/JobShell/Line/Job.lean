import JobShell.Line.Redirect

/-!
# Jobs

A job is a pipeline of one or more stages, at most one redirection of the whole pipeline, and a mark
for the background. `Job.ofWords` reads one from the words of a line: a last word `&` first, then a
redirection in the last two words left, then the stages between the words `|`. `Job.words` writes a
job back as words.
-/

namespace JobShell

inductive MalformedJob where
  /-- No word is left for a program. -/
  | emptyCommand
  /-- A stage of the pipeline has no word. -/
  | emptyStage
  deriving DecidableEq, Repr

/-- The arguments of one program, its name first. -/
abbrev Stage := List String

/-- Stages, each feeding the next, and the redirection of the whole. -/
structure Pipeline where
  stages : List Stage
  redirect : Option Redirect
  deriving DecidableEq, Repr

/-- A pipeline to be run, waited for or not. -/
structure Job where
  pipeline : Pipeline
  background : Bool
  deriving DecidableEq, Repr

/-- The word between two stages. -/
def pipeWord : String := "|"

/-- The last word of a background job. -/
def backgroundWord : String := "&"

/-- The words without a last `&`, and whether there was one. -/
def takeBackground (words : List String) : Bool × List String :=
  if words.getLast? = some backgroundWord then (true, words.dropLast) else (false, words)

/-- The redirection in the last two words, if they form one, and the words before it. -/
def takeRedirect (words : List String) : Option Redirect × List String :=
  match words.drop (words.length - 2) with
  | [op, target] =>
    match Redirect.Kind.ofOperator? op with
    | some kind => (some { kind, target }, words.take (words.length - 2))
    | none => (none, words)
  | _ => (none, words)

/-- The runs of words between the words `|`; one run more than such words. -/
def segments : List String → List (List String)
  | [] => [[]]
  | w :: rest =>
    if w = pipeWord then [] :: segments rest
    else match segments rest with
      | s :: ss => (w :: s) :: ss
      | [] => [[w]]

/-- The stages of a pipeline; none of them may be empty. -/
def Pipeline.ofWords (words : List String) (redirect : Option Redirect) :
    Except MalformedJob Pipeline :=
  if words.isEmpty then .error .emptyCommand
  else if (segments words).any (·.isEmpty) then .error .emptyStage
  else .ok { stages := segments words, redirect }

def Job.ofWords (words : List String) : Except MalformedJob Job := do
  let (background, words) := takeBackground words
  let (redirect, words) := takeRedirect words
  let pipeline ← Pipeline.ofWords words redirect
  return { pipeline, background }

def Redirect.words (r : Redirect) : List String := [r.kind.operator, r.target]

/-- The words of the stages, `|` between neighbours. -/
def Pipeline.stageWords (p : Pipeline) : List String := [pipeWord].intercalate p.stages

/-- The words that write a job: its stages, its redirection, its mark. -/
def Job.words (j : Job) : List String :=
  j.pipeline.stageWords ++ (j.pipeline.redirect.map Redirect.words).getD []
    ++ if j.background then [backgroundWord] else []

/-- At least one stage, and in each stage at least one word and no word `|`. -/
def Pipeline.WellFormed (p : Pipeline) : Prop :=
  p.stages ≠ [] ∧ ∀ s ∈ p.stages, s ≠ [] ∧ pipeWord ∉ s

end JobShell
