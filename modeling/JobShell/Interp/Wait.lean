import JobShell.System.Children

/-!
# Waiting for the foreground job

`WaitAnswer` is one answer of the system to the interpreter's wait. An interrupted wait and news of
a child that has not ended are asked again; the first other answer is the result. `await` runs this
rule over the answers the system gives one after another.
-/

namespace JobShell

inductive WaitAnswer where
  /-- The child has ended with this status. -/
  | ended (status : Status)
  /-- News of the child, which has not ended. -/
  | changed
  | failed (e : Errno)
  deriving DecidableEq, Repr

namespace WaitAnswer

/-- What the wait returns after this answer; `none` to ask again. -/
def verdict? : WaitAnswer → Option (Except Errno Status)
  | ended s => some (.ok s)
  | changed => none
  | failed e => if e = .EINTR then none else some (.error e)

/-- The answer for a child that was collected; one without a status is an error. -/
def ofEnding (e : Ending) : WaitAnswer :=
  match e.status with
  | .ok s => ended s
  | .error e => failed e

end WaitAnswer

/-- The result of a wait over the answers given in turn, and the answers not asked for. -/
def await : List WaitAnswer → Option (Except Errno Status × List WaitAnswer)
  | [] => none
  | a :: rest =>
    match a.verdict? with
    | some r => some (r, rest)
    | none => await rest

theorem WaitAnswer.verdict?_ofEnding (e : Ending) : (ofEnding e).verdict? = some e.status := by
  cases e with
  | exited code => rfl
  | killed n =>
    simp only [ofEnding, Ending.status]
    cases Signal.ofNumber? n <;> rfl

/-- Answers without a result are passed over, and what follows a result is not asked for. -/
theorem await_append {before rest : List WaitAnswer} {a : WaitAnswer} {r : Except Errno Status}
    (hbefore : ∀ b ∈ before, b.verdict? = none) (ha : a.verdict? = some r) :
    await (before ++ a :: rest) = some (r, rest) := by
  induction before with
  | nil => simp [await, ha]
  | cons b before ih =>
    rw [List.cons_append, await, hbefore b List.mem_cons_self]
    exact ih fun c hc => hbefore c (List.mem_cons_of_mem b hc)

end JobShell
