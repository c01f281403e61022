import JobShell.Proofs.Chronicle.Dialogue

/-!
# What standard output keeps

A text that could not be written comes out in front of the next one that can be.

* `Dialogue.unwritten`: what is left of the texts in a dialogue.
* `Dialogue.Flows`: what a line writes comes out behind what earlier texts have left.
* `Chronicle.flows_of_run`: so it is in every course.
-/

namespace JobShell

namespace Exchange

/-- What standard output keeps after this. -/
def leaves (kept : Bytes) : Exchange → Bytes
  | wrote _ text r | told text r => Output.left kept text r
  | _ => kept

/-- Something could not be written. -/
def isUnheard : Exchange → Bool
  | wrote _ _ (.error _) | told _ (.error _) => true
  | _ => false

theorem leaves_nil {said : Exchange} (h : said.isUnheard = false) : said.leaves [] = [] := by
  match said with
  | .wrote _ _ (.ok ()) | .told _ (.ok ()) => rfl
  | .given _ | .moved _ | .waited _ | .over _ => rfl

end Exchange

namespace Dialogue

/-- What standard output keeps when this has been said. -/
def unwritten (d : Dialogue) : Bytes := d.foldl Exchange.leaves []

@[simp] theorem unwritten_concat (d : Dialogue) (said : Exchange) :
    unwritten (d ++ [said]) = said.leaves d.unwritten := by
  simp [unwritten]

theorem unwritten_eq_nil {d : Dialogue} (h : ∀ said ∈ d, said.isUnheard = false) :
    d.unwritten = [] := by
  unfold unwritten
  induction d with
  | nil => rfl
  | cons said d ih =>
    rw [List.foldl_cons, Exchange.leaves_nil (h said List.mem_cons_self)]
    exact ih fun e he => h e (List.mem_cons_of_mem _ he)

/-- What a line writes comes out behind what earlier texts have left, which is nothing if all of them
could be written. -/
structure Flows (d : Dialogue) : Prop where
  behind : ∀ before ahead text r after, d = before ++ .wrote ahead text r :: after →
    ahead = unwritten before
  alone : ∀ before ahead text r after, d = before ++ .wrote ahead text r :: after →
    (∀ said ∈ before, said.isUnheard = false) → ahead = []

/-- The texts that have come out with the lines that wrote, what was kept in front of each. -/
def shown (d : Dialogue) : List Bytes :=
  d.filterMap fun | .wrote ahead text (.ok ()) => some (ahead ++ text) | _ => none

theorem Flows.of_behind {d : Dialogue} (h : ∀ before ahead text r after,
    d = before ++ .wrote ahead text r :: after → ahead = unwritten before) : d.Flows :=
  ⟨h, fun before ahead text r after hd hall =>
    (h before ahead text r after hd).trans (unwritten_eq_nil hall)⟩

/-- Something is said that is no text of a line, or comes out behind what is left. -/
theorem Flows.concat {d : Dialogue} (h : d.Flows) {said : Exchange}
    (hsaid : ∀ ahead text r, said = .wrote ahead text r → ahead = d.unwritten) :
    Flows (d ++ [said]) := by
  refine .of_behind fun before ahead text r after hd => ?_
  rcases List.eq_nil_or_concat after with rfl | ⟨init, last, rfl⟩
  · obtain ⟨rfl, hlast⟩ := List.append_inj' hd rfl
    exact hsaid ahead text r (List.cons.inj hlast).1
  · rw [List.concat_eq_append, ← List.cons_append, ← List.append_assoc] at hd
    exact h.behind _ _ _ _ init (List.append_inj' hd rfl).1

end Dialogue

namespace Shell

variable {s t : Shell} {said : Option Exchange} {phase : Phase} {last : Status} {kept : Bytes}

/-- What standard output keeps changes only with what is said. -/
theorem Turn.kept_eq (h : s.Turn said phase last kept) :
    kept = said.elim s.kept (·.leaves s.kept) := by
  cases h <;> rfl

theorem Turn.ahead_eq (h : s.Turn said phase last kept) {ahead text : Bytes}
    {r : Except Errno Unit} (hsaid : said = some (.wrote ahead text r)) : ahead = s.kept := by
  cases h <;> cases hsaid <;> rfl

end Shell

namespace Chronicle

variable {handlers : Bool} {home : Option Bytes} {evs : List Event} {c c' : Chronicle} {ev : Event}
  {d : Dialogue}

/-- The texts said so far have come out as they should, and the interpreter has the rest. -/
def Flowing (d : Dialogue) (c : Chronicle) : Prop := c.shell.kept = d.unwritten ∧ d.Flows

theorem Flowing.step (h : Flowing d c) (hb : Booked c) (hn : c.next? ev = some c') :
    Flowing (d ++ c.shell.saidAt ev c'.shell) c' := by
  obtain ⟨hkept, hflows⟩ := h
  have hturn := turn_of_next? hb hn
  have hkept' := hturn.kept_eq
  have hahead {ahead text : Bytes} {r : Except Errno Unit}
      (hsaid : c.shell.exchange? ev = some (.wrote ahead text r)) : ahead = c.shell.kept :=
    hturn.ahead_eq hsaid
  -- the end of a line is no text
  suffices Flowing (d ++ (c.shell.exchange? ev).toList) c' by
    rw [Shell.saidAt, ← List.append_assoc]
    cases c.shell.outcome? (c.shell.exchange? ev) c'.shell with
    | none => rwa [Option.map_none, Option.toList_none, List.append_nil]
    | some o =>
      rw [Option.map_some, Option.toList_some]
      refine ⟨?_, this.2.concat fun _ _ _ h => by cases h⟩
      rw [Dialogue.unwritten_concat]
      exact this.1
  cases hsaid : c.shell.exchange? ev with
  | none =>
    rw [hsaid] at hkept'
    rw [Option.toList_none, List.append_nil]
    exact ⟨hkept'.trans hkept, hflows⟩
  | some said =>
    rw [hsaid] at hkept'
    refine ⟨?_, hflows.concat fun ahead text r heq => ?_⟩
    · rw [Option.toList_some, Dialogue.unwritten_concat, ← hkept]
      exact hkept'
    · rw [← hkept]
      exact hahead (hsaid.trans (congrArg some heq))

/-- In every course, what a line writes comes out behind what earlier texts have left. -/
theorem flows_of_run (h : (start handlers home).run evs = some c) :
    ((start handlers home).dialogue evs).Flows := by
  refine (dialogue_induction (P := fun d c => Kept c ∧ Flowing d c) ?_
    ⟨.start handlers home, rfl, .of_behind fun before _ _ _ _ hd => ?_⟩ h).2.2
  · rintro d c c' ev ⟨hk, hd⟩ hn
    exact ⟨hk.step (step_of_next? hn), hd.step hk.booked hn⟩
  · cases before <;> cases hd

end Chronicle

end JobShell
