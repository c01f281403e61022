import JobShell.Proofs.Chronicle.Buffered
import JobShell.Proofs.Chronicle.LastStatus

/-!
# Scripts and background jobs

What a script does is decided by its lines and by a few answers: how its foreground jobs end, what
becomes of its changes of directory, and whether its writes succeed. Background jobs, signals and
their handlers are not among them.

* `Fate`: these answers; `Front`: how far a script has come with them.
* `Front.line`: what a line comes to; `Front.play`: what lines come to, one after another.
* `Phase.comes`: what a line comes to from any point of it; no turn changes this
  (`Shell.Turn.pending_eq`).
* `Foreseen`: the lines given come to the outcomes so far and to what is still to come.
* `outcomes_of_runs`: two courses of one script with the same answers have the same outcomes.
* `shown_of_unheardNumber`: what comes out at a `status` line need not be the same.
-/

namespace JobShell

/-! ## Answers one after another -/

section Answers

variable {α : Type} {f : Nat → α} {xs ys : List α} {x : α}

/-- The entries of a list are those of `f`. -/
def Follows (f : Nat → α) (xs : List α) : Prop := ∀ k x, xs[k]? = some x → f k = x

/-- Two lists have the same entries, as far as both go. -/
def Alike (xs ys : List α) : Prop := ∀ (k : Nat) x y, xs[k]? = some x → ys[k]? = some y → x = y

theorem getElem?_of_isPrefix (h : xs <+: ys) {k : Nat} (hk : xs[k]? = some x) : ys[k]? = some x := by
  obtain ⟨rest, rfl⟩ := h
  rw [List.getElem?_append_left (List.getElem?_eq_some_iff.1 hk).1, hk]

theorem Follows.of_isPrefix (h : Follows f ys) (hp : xs <+: ys) : Follows f xs :=
  fun k x hk => h k x (getElem?_of_isPrefix hp hk)

theorem Follows.last (h : Follows f (xs ++ [x])) : f xs.length = x := h _ _ (by simp)

theorem Alike.of_isPrefix {xs' ys' : List α} (h : Alike xs ys) (hx : xs' <+: xs) (hy : ys' <+: ys) :
    Alike xs' ys' :=
  fun k x y hkx hky => h k x y (getElem?_of_isPrefix hx hkx) (getElem?_of_isPrefix hy hky)

theorem Alike.refl (xs : List α) : Alike xs xs :=
  fun _ _ _ hx hy => Option.some.inj (hx.symm.trans hy)

theorem Alike.of_all_ok {rs rs' : List (Except Errno Unit)} (h : rs.all (·.isOk))
    (h' : rs'.all (·.isOk)) : Alike rs rs' := by
  have hok {rs : List (Except Errno Unit)} {k : Nat} {r : Except Errno Unit}
      (h : rs.all (·.isOk)) (hk : rs[k]? = some r) : r = .ok () := by
    have hr := List.all_eq_true.1 h r (List.mem_of_getElem? hk)
    cases r with
    | ok u => rfl
    | error e => cases hr
  exact fun k r r' hk hk' => (hok h hk).trans (hok h' hk').symm

/-- Such lists are parts of one sequence, which goes on with `rest`. -/
theorem Alike.exists_follows (h : Alike xs ys) (rest : α) :
    ∃ f : Nat → α, Follows f xs ∧ Follows f ys := by
  refine ⟨fun k => (xs[k]?.or ys[k]?).getD rest, fun k x hk => ?_, fun k y hk => ?_⟩
  · simp only [hk, Option.some_or, Option.getD_some]
  · cases hx : xs[k]? with
    | none => simp only [hx, hk, Option.none_or, Option.getD_some]
    | some x =>
      simp only [hx, Option.some_or, Option.getD_some]
      exact h k x y hx hk

theorem Alike.prefix_of_le (h : Alike xs ys) (hle : xs.length ≤ ys.length) : xs <+: ys := by
  refine List.prefix_iff_getElem?.2 fun k hk => ?_
  rw [List.getElem?_eq_getElem (Nat.lt_of_lt_of_le hk hle)]
  exact congrArg some (h k _ _ (List.getElem?_eq_getElem hk) (List.getElem?_eq_getElem _)).symm

theorem Alike.isPrefix_or_isPrefix (h : Alike xs ys) : xs <+: ys ∨ ys <+: xs := by
  rcases Nat.le_total xs.length ys.length with hle | hle
  · exact .inl (h.prefix_of_le hle)
  · exact .inr (Alike.prefix_of_le (fun k y x hy hx => (h k x y hx hy).symm) hle)

end Answers

/-! ## What is foreseen -/

/-- What is decided outside the interpreter, for the first job, move and write, for the second, and
so on. -/
structure Fate where
  ending : Nat → Ending
  moved : Nat → Except Errno Unit
  wrote : Nat → Except Errno Unit

/-- The answers in a dialogue are these. -/
structure Fate.Fits (fate : Fate) (d : Dialogue) : Prop where
  endings : Follows fate.ending d.endings
  moves : Follows fate.moved d.moves
  writes : Follows fate.wrote (d.writes.map Prod.snd)

/-- The last status, and how many answers there have been. -/
structure Front where
  lastStatus : Status := default
  jobs : Nat := 0
  moves : Nat := 0
  writes : Nat := 0

namespace Front

/-- A line ends here. -/
def concludes (f : Front) (result : LineResult) (printed : Option Bytes := none) :
    LineOutcome × Front :=
  ({ result, lastStatus := f.lastStatus, foreground := none, printed }, f)

/-- The foreground job has been collected. -/
def collects (f : Front) (r : Except Errno Status) : LineOutcome × Front :=
  { f with lastStatus := f.lastStatus.following r }.concludes (Phase.resultOf r)

/-- The foreground job is to end. -/
def awaits (fate : Fate) (f : Front) : LineOutcome × Front :=
  { f with jobs := f.jobs + 1 }.collects (fate.ending f.jobs).status

/-- The number of a background job is to be written, which is not foreseen. -/
def announces (fate : Fate) (f : Front) : LineOutcome × Front :=
  { f with writes := f.writes + 1 }.concludes (.ofWrite (fate.wrote f.writes))

/-- What a `status` line has printed after its attempt to write. -/
def printed (last : Status) : Except Errno Unit → Option Bytes
  | .ok () => some (Shell.lineOf last.text)
  | .error _ => none

/-- The last status is to be written. -/
def prints (fate : Fate) (f : Front) : LineOutcome × Front :=
  { f with writes := f.writes + 1 }.concludes (.ofWrite (fate.wrote f.writes))
    (printed f.lastStatus (fate.wrote f.writes))

/-- The directory is to be changed. -/
def changes (fate : Fate) (f : Front) (path : Bytes) : LineOutcome × Front :=
  { f with moves := f.moves + 1 }.concludes (.ofMove path (fate.moved f.moves))

end Front

/-- What a line comes to from here. -/
def Phase.comes (fate : Fate) (f : Front) : Phase → LineOutcome × Front
  | idle => f.concludes .next
  | launching job | guarded job | forked job _ | grouped job _ | noted job _ =>
    if job.background then f.announces fate else f.awaits fate
  | announcing _ => f.announces fate
  | waiting _ => f.awaits fate
  | collected r | cleared r | reaping _ r => f.collects r
  | changing path => f.changes fate path
  | printing => f.prints fate
  | finished result => f.concludes result

theorem Phase.foreground_comes (fate : Fate) (f : Front) (p : Phase) :
    (p.comes fate f).1.foreground = none := by
  unfold comes
  split <;> try rfl
  all_goals split <;> rfl

namespace Front

variable (fate : Fate) (home : Option Bytes) (f : Front)

/-- What a line comes to. -/
def line (text : Bytes) : LineOutcome × Front :=
  (Shell.phaseOf { home } (Request.ofLine text)).comes fate f

/-- What lines come to one after another. -/
def play (f : Front) : List Bytes → List LineOutcome × Front
  | [] => ([], f)
  | text :: rest =>
    let (o, f) := f.line fate home text
    let (os, f) := play f rest
    (o :: os, f)

theorem play_append (lines later : List Bytes) :
    f.play fate home (lines ++ later) =
      ((f.play fate home lines).1 ++ ((f.play fate home lines).2.play fate home later).1,
        ((f.play fate home lines).2.play fate home later).2) := by
  induction lines generalizing f with
  | nil => rfl
  | cons text rest ih => simp only [List.cons_append, play, ih]

theorem play_isPrefix {lines more : List Bytes} (h : lines <+: more) :
    (f.play fate home lines).1 <+: (f.play fate home more).1 := by
  obtain ⟨later, rfl⟩ := h
  rw [play_append]
  exact List.prefix_append _ _

theorem length_play (lines : List Bytes) : (f.play fate home lines).1.length = lines.length := by
  induction lines generalizing f with
  | nil => rfl
  | cons text rest ih => simp [play, ih]

/-- No line leaves a foreground job. -/
theorem foreground_of_mem_play {o : LineOutcome} {lines : List Bytes}
    (h : o ∈ (f.play fate home lines).1) : o.foreground = none := by
  induction lines generalizing f with
  | nil => cases h
  | cons text rest ih =>
    rcases List.mem_cons.1 h with rfl | h
    · exact Phase.foreground_comes fate f _
    · exact ih _ h

end Front

/-- How far a dialogue has come. -/
def Dialogue.front (d : Dialogue) (lastStatus : Status) : Front :=
  { lastStatus, jobs := d.endings.length, moves := d.moves.length, writes := d.writes.length }

@[simp] theorem Dialogue.lastStatus_front (d : Dialogue) (last : Status) :
    (d.front last).lastStatus = last := rfl

theorem Dialogue.front_append (d later : Dialogue) (last : Status) :
    (d ++ later).front last =
      { lastStatus := last
        jobs := d.endings.length + later.endings.length
        moves := d.moves.length + later.moves.length
        writes := d.writes.length + later.writes.length } := by
  simp [front]

/-- What needs no answer takes no script further. -/
theorem Dialogue.front_given (d : Dialogue) (text : Bytes) (last : Status) :
    Dialogue.front (d ++ [Exchange.given text]) last = d.front last := by
  rw [front_append]
  rfl

theorem Dialogue.front_told (d : Dialogue) (text : Bytes) (r : Except Errno Unit) (last : Status) :
    Dialogue.front (d ++ [Exchange.told text r]) last = d.front last := by
  rw [front_append]
  rfl

namespace Fate.Fits

variable {fate : Fate} {d later : Dialogue} {ahead text : Bytes} {r : Except Errno Unit}

theorem of_append (h : fate.Fits (d ++ later)) : fate.Fits d where
  endings := h.endings.of_isPrefix (by simp)
  moves := h.moves.of_isPrefix (by simp)
  writes := h.writes.of_isPrefix (by simp)

theorem awaits {e : Ending} (h : fate.Fits (d ++ [Exchange.waited e])) (last : Status) :
    (d.front last).awaits fate =
      (Dialogue.front (d ++ [Exchange.waited e]) last).collects e.status := by
  have he := h.endings
  rw [Dialogue.endings_append] at he
  rw [Front.awaits, show fate.ending (d.front last).jobs = e from he.last, Dialogue.front_append]
  rfl

theorem wrote (h : fate.Fits (d ++ [Exchange.wrote ahead text r])) (last : Status) :
    fate.wrote (d.front last).writes = r ∧
      { d.front last with writes := (d.front last).writes + 1 } =
        Dialogue.front (d ++ [Exchange.wrote ahead text r]) last := by
  have hr := h.writes
  rw [Dialogue.writes_append, List.map_append] at hr
  refine ⟨?_, by rw [Dialogue.front_append]; rfl⟩
  simpa [Dialogue.front] using hr.last

theorem announces (h : fate.Fits (d ++ [Exchange.wrote ahead text r])) (last : Status) :
    (d.front last).announces fate =
      (Dialogue.front (d ++ [Exchange.wrote ahead text r]) last).concludes (.ofWrite r) := by
  rw [Front.announces, (h.wrote last).1, (h.wrote last).2]

theorem prints (h : fate.Fits (d ++ [Exchange.wrote ahead text r])) (last : Status) :
    (d.front last).prints fate =
      (Dialogue.front (d ++ [Exchange.wrote ahead text r]) last).concludes (.ofWrite r)
        (Front.printed last r) := by
  rw [Front.prints, (h.wrote last).1, (h.wrote last).2]
  rfl

theorem changes (h : fate.Fits (d ++ [Exchange.moved r])) (last : Status) (path : Bytes) :
    (d.front last).changes fate path =
      (Dialogue.front (d ++ [Exchange.moved r]) last).concludes (.ofMove path r) := by
  have hr := h.moves
  rw [Dialogue.moves_append] at hr
  rw [Front.changes, show fate.moved (d.front last).moves = r from hr.last, Dialogue.front_append]
  rfl

end Fate.Fits

/-- What is still to come of a line under way. -/
def Phase.pending (fate : Fate) (f : Front) (p : Phase) : List LineOutcome × Front :=
  if p.atRest then ([], f) else ([(p.comes fate f).1], (p.comes fate f).2)

namespace Phase

variable {p q : Phase}

theorem pending_of_atRest (h : p.atRest) (fate : Fate) (f : Front) : p.pending fate f = ([], f) :=
  if_pos h

theorem pending_of_not_atRest (h : p.atRest = false) (fate : Fate) (f : Front) :
    p.pending fate f = ([(p.comes fate f).1], (p.comes fate f).2) :=
  if_neg (by simp [h])

theorem Advances.atRest_eq (h : p.Advances q) : p.atRest = false ∧ q.atRest = false := by
  cases h with
  | unheld job pid => cases hbg : job.background <;> exact ⟨rfl, rfl⟩
  | _ => exact ⟨rfl, rfl⟩

theorem Advances.comes_eq (h : p.Advances q) (fate : Fate) (f : Front) :
    q.comes fate f = p.comes fate f := by
  cases h with
  | unheld job pid => cases hbg : job.background <;> simp [comes, hbg]
  | _ => rfl

end Phase

namespace Shell

variable {s t : Shell} {said : Option Exchange}

theorem phaseOf_cases (s : Shell) (r : Except LineError Request) :
    (∃ result, s.phaseOf r = .finished result) ∨ (s.phaseOf r).atRest = false := by
  unfold phaseOf
  split <;> try simp [Phase.atRest]
  split <;> simp

/-- A line that is given. -/
theorem play_given (s : Shell) (fate : Fate) (f : Front) (text : Bytes) :
    f.play fate s.home [text] =
      ([((s.phaseOf (Request.ofLine text)).comes fate f).1],
        ((s.phaseOf (Request.ofLine text)).comes fate f).2) := by
  rfl

theorem outcome?_of_not_atRest (h : t.phase.atRest = false) : s.outcome? said t = none := by
  unfold outcome?
  split <;> simp_all [Phase.atRest]

theorem outcome?_of_atRest (h : s.phase.atRest) : s.outcome? none t = none := by
  unfold outcome?
  split <;> simp_all

/-- Between two lines no line is over. -/
theorem outcome?_of_told {text : Bytes} {r : Except Errno Unit} (h : s.phase.atRest) :
    s.outcome? (some (.told text r)) t = none := by
  unfold outcome?
  split <;> simp_all

theorem outcome?_of_apart (hphase : t.phase = s.phase) : s.outcome? none t = none := by
  cases hp : s.phase.atRest with
  | true => exact outcome?_of_atRest hp
  | false => exact outcome?_of_not_atRest (hphase ▸ hp)

/-- A turn does what has been foreseen: what was to come, with the line that is given now, is what
the line has come to and what is still to come. -/
theorem Turn.pending_eq {fate : Fate} {d : Dialogue}
    (ht : s.Turn said t.phase t.lastStatus t.kept)
    (hfree : t.phase.atRest → t.tracker.foreground = none) (hfits : fate.Fits (d ++ said.toList)) :
    let before := s.phase.pending fate (d.front s.lastStatus)
    let given := before.2.play fate s.home (Dialogue.lines said.toList)
    let after := t.phase.pending fate (Dialogue.front (d ++ said.toList) t.lastStatus)
    (before.1 ++ given.1, given.2) = ((s.outcome? said t).toList ++ after.1, after.2) := by
  obtain ⟨home, tracker, last, phase, handlers, children, signals, kept⟩ := t
  dsimp only at ht hfree ⊢
  cases ht with
  | given text hp =>
    rw [Phase.pending_of_atRest hp, Option.toList_some, Dialogue.front_given,
      show Dialogue.lines [Exchange.given text] = [text] from rfl, play_given]
    rcases s.phaseOf_cases (Request.ofLine text) with ⟨result, hq⟩ | hq
    · rw [hq] at hfree
      simp [hq, outcome?, Phase.pending, Phase.atRest, Phase.comes, Front.concludes, hfree rfl]
    · rw [outcome?_of_not_atRest hq, Phase.pending_of_not_atRest hq]
      rfl
  | advanced hq =>
    obtain ⟨hp, hq'⟩ := hq.atRest_eq
    rw [outcome?_of_not_atRest hq', Phase.pending_of_not_atRest hp, Phase.pending_of_not_atRest hq',
      hq.comes_eq]
    simp [Dialogue.lines, Front.play]
  | waited hp hc =>
    simp only [Option.toList_some] at hfits
    rw [outcome?_of_not_atRest rfl, hp]
    simp [Phase.pending, Phase.atRest, Phase.comes, Dialogue.lines, Front.play, hfits.awaits]
  | concluded hp =>
    rw [hp]
    simp [hp, outcome?, Phase.pending, Phase.atRest, Phase.comes, Dialogue.lines, Front.play,
      Front.collects, Front.concludes, hfree rfl, Dialogue.front]
  | announced hp r =>
    simp only [Option.toList_some] at hfits
    simp [hp, outcome?, Phase.pending, Phase.atRest, Phase.comes, Dialogue.lines, Front.play,
      hfits.announces, Front.concludes, hfree rfl]
  | printed hp r =>
    simp only [Option.toList_some] at hfits
    cases r <;> simp [hp, outcome?, Phase.pending, Phase.atRest, Phase.comes, Dialogue.lines,
      Front.play, hfits.prints, Front.concludes, Front.printed, hfree rfl]
  | changed hp r =>
    simp only [Option.toList_some] at hfits
    simp [hp, outcome?, Phase.pending, Phase.atRest, Phase.comes, Dialogue.lines, Front.play,
      hfits.changes, Front.concludes, hfree rfl]
  | told text r hp =>
    rw [outcome?_of_told hp, Option.toList_some, Dialogue.front_told, Phase.pending_of_atRest hp]
    simp [Dialogue.lines, Front.play]
  | apart =>
    have hsaid : s.outcome? none
        ⟨home, tracker, s.lastStatus, s.phase, handlers, children, signals, s.kept⟩ = none :=
      outcome?_of_apart rfl
    rw [hsaid]
    simp [Dialogue.lines, Front.play]

end Shell

/-! ## Every line comes to what has been foreseen -/

/-- The lines given so far come to the outcomes so far, with what is still to come. -/
def Foreseen (fate : Fate) (d : Dialogue) (s : Shell) : Prop :=
  let pending := s.phase.pending fate (d.front s.lastStatus)
  Front.play fate s.home {} d.lines = (d.outcomes ++ pending.1, pending.2)

theorem Chronicle.Step.home_eq {c c' : Chronicle} (h : c.Step c') :
    c'.shell.home = c.shell.home := by
  cases h <;> rfl

namespace Foreseen

variable {fate : Fate} {d : Dialogue} {c c' : Chronicle} {ev : Event}

theorem start (fate : Fate) (handlers : Bool) (home : Option Bytes) :
    Foreseen fate [] (Chronicle.start handlers home).shell :=
  rfl

theorem step (h : Foreseen fate d c.shell) (hk : Kept c) (hn : c.next? ev = some c')
    (hfits : fate.Fits (d ++ c.shell.saidAt ev c'.shell)) :
    Foreseen fate (d ++ c.shell.saidAt ev c'.shell) c'.shell := by
  have hs := Chronicle.step_of_next? hn
  have hfree (hrest : c'.shell.phase.atRest) : c'.shell.tracker.foreground = none := by
    have hslots := (hk.step hs).controlled.slots
    rwa [Phase.standing_of_atRest hrest] at hslots
  have hsaid : fate.Fits (d ++ (c.shell.exchange? ev).toList) := by
    rw [Shell.saidAt, ← List.append_assoc] at hfits
    exact hfits.of_append
  have hfront : Dialogue.front (d ++ c.shell.saidAt ev c'.shell) c'.shell.lastStatus =
      Dialogue.front (d ++ (c.shell.exchange? ev).toList) c'.shell.lastStatus := by
    simp [Dialogue.front_append]
  have hturn := (Chronicle.turn_of_next? hk.booked hn).pending_eq hfree hsaid
  unfold Foreseen at h ⊢
  dsimp only at h hturn ⊢
  rw [Prod.mk.injEq] at hturn
  rw [hfront, Dialogue.lines_append, Shell.lines_saidAt, Dialogue.outcomes_append,
    Shell.outcomes_saidAt, hs.home_eq, Front.play_append, h, List.append_assoc, List.append_assoc,
    hturn.1, hturn.2]

end Foreseen

namespace Chronicle

variable {handlers handlers₁ handlers₂ : Bool} {home : Option Bytes} {evs evs₁ evs₂ : List Event}
  {c c₁ c₂ : Chronicle} {d₁ d₂ : Dialogue} {fate : Fate}

theorem foreseen_of_run (h : (start handlers home).run evs = some c)
    (hfits : fate.Fits ((start handlers home).dialogue evs)) :
    Foreseen fate ((start handlers home).dialogue evs) c.shell ∧ c.shell.home = home := by
  have hind := dialogue_induction (P := fun d c => Kept c ∧ c.shell.home = home ∧
      (fate.Fits d → Foreseen fate d c.shell))
    (by
      rintro d c c' ev ⟨hk, hhome, hd⟩ hn
      have hs := step_of_next? hn
      exact ⟨hk.step hs, hs.home_eq.trans hhome, fun hf => (hd hf.of_append).step hk hn hf⟩)
    ⟨.start handlers home, rfl, fun _ => .start fate handlers home⟩ h
  exact ⟨hind.2.2 hfits, hind.2.1⟩

/-- The outcomes of a course are those its lines have with the answers it has had. -/
theorem outcomes_of_run (h : (start handlers home).run evs = some c)
    (hd : (start handlers home).dialogue evs = d₁) (hfits : fate.Fits d₁) :
    d₁.outcomes <+: (Front.play fate home {} d₁.lines).1 ∧
      (c.shell.phase.atRest → d₁.outcomes = (Front.play fate home {} d₁.lines).1) := by
  subst hd
  obtain ⟨hseen, rfl⟩ := foreseen_of_run h hfits
  rw [Foreseen] at hseen
  rw [hseen]
  refine ⟨List.prefix_append _ _, fun hrest => ?_⟩
  rw [Phase.pending_of_atRest hrest, List.append_nil]

/-- The outcomes of lines depend neither on background jobs nor on handlers: two courses that are
given the same lines, as far as both go, with foreground jobs that end alike and with the same
answers to moves and writes have the same outcomes, as far as both go. None leaves a foreground job,
between lines every line has had its outcome, and then the outcomes of one script are equal. What a
line prints comes out behind what is left of earlier texts, which need not be the same. -/
theorem outcomes_of_runs (h₁ : (start handlers₁ home).run evs₁ = some c₁)
    (h₂ : (start handlers₂ home).run evs₂ = some c₂)
    (hd₁ : (start handlers₁ home).dialogue evs₁ = d₁)
    (hd₂ : (start handlers₂ home).dialogue evs₂ = d₂) (hlines : Alike d₁.lines d₂.lines)
    (hends : Alike c₁.jobs.endings c₂.jobs.endings) (hmoves : Alike d₁.moves d₂.moves)
    (hwrites : Alike (d₁.writes.map Prod.snd) (d₂.writes.map Prod.snd)) :
    Alike d₁.outcomes d₂.outcomes ∧
    (∀ o, o ∈ d₁.outcomes ∨ o ∈ d₂.outcomes → o.foreground = none) ∧
    (c₁.shell.phase.atRest → d₁.outcomes.length = d₁.lines.length) ∧
    (c₂.shell.phase.atRest → d₂.outcomes.length = d₂.lines.length) ∧
    (c₁.shell.phase.atRest → c₂.shell.phase.atRest → d₁.lines = d₂.lines →
      d₁.outcomes = d₂.outcomes) ∧
    d₁.Flows ∧ d₂.Flows := by
  have hends : Alike d₁.endings d₂.endings := by
    subst hd₁ hd₂
    exact hends.of_isPrefix (chronicled_of_run h₁).prefix_endings
      (chronicled_of_run h₂).prefix_endings
  obtain ⟨ending, he₁, he₂⟩ := hends.exists_follows (.exited 0)
  obtain ⟨moved, hm₁, hm₂⟩ := hmoves.exists_follows (.ok ())
  obtain ⟨wrote, hw₁, hw₂⟩ := hwrites.exists_follows (.ok ())
  have hfits₁ : Fate.Fits ⟨ending, moved, wrote⟩ d₁ := ⟨he₁, hm₁, hw₁⟩
  have hfits₂ : Fate.Fits ⟨ending, moved, wrote⟩ d₂ := ⟨he₂, hm₂, hw₂⟩
  have hrun₁ := outcomes_of_run h₁ hd₁ hfits₁
  have hrun₂ := outcomes_of_run h₂ hd₂ hfits₂
  refine ⟨?_, ?_, ?_, ?_, ?_, hd₁ ▸ flows_of_run h₁, hd₂ ▸ flows_of_run h₂⟩
  · -- the longer script is played; both lists of outcomes begin its outcomes
    rcases hlines.isPrefix_or_isPrefix with hle | hle
    · exact (Alike.refl _).of_isPrefix (hrun₁.1.trans (Front.play_isPrefix _ _ _ hle)) hrun₂.1
    · exact (Alike.refl _).of_isPrefix hrun₁.1 (hrun₂.1.trans (Front.play_isPrefix _ _ _ hle))
  · rintro o (ho | ho)
    · exact Front.foreground_of_mem_play _ _ _ (hrun₁.1.subset ho)
    · exact Front.foreground_of_mem_play _ _ _ (hrun₂.1.subset ho)
  · intro hrest
    rw [hrun₁.2 hrest, Front.length_play]
  · intro hrest
    rw [hrun₂.2 hrest, Front.length_play]
  · intro hrest₁ hrest₂ hsame
    rw [hrun₁.2 hrest₁, hrun₂.2 hrest₂, hsame]

/-- The number of a background job cannot be written, but the last status after it can. -/
def unheardNumber (pid : Pid) : List Event :=
  Event.launch [97, 32, 38] pid ++ [.answered (.error .EPIPE)] ++ statusLine

/-- What comes out at a `status` line is not the same in any two such courses: the number of a
background job may come out with it. -/
theorem shown_of_unheardNumber :
    let d₁ := (start true none).dialogue (unheardNumber 5)
    let d₂ := (start true none).dialogue (unheardNumber 7)
    (∃ c₁ c₂, (start true none).run (unheardNumber 5) = some c₁ ∧
      (start true none).run (unheardNumber 7) = some c₂ ∧
      c₁.jobs.endings = c₂.jobs.endings ∧ c₁.shell.phase.atRest ∧ c₂.shell.phase.atRest) ∧
    d₁.lines = d₂.lines ∧ d₁.moves = d₂.moves ∧
    d₁.writes.map Prod.snd = d₂.writes.map Prod.snd ∧
    .raised Signal.interrupt ∉ unheardNumber 5 ∧ .raised Signal.interrupt ∉ unheardNumber 7 ∧
    d₁.shown = [[53, 10, 48, 10]] ∧ d₂.shown = [[55, 10, 48, 10]] := by
  have hend (pid : Pid) (hpid : pid = 5 ∨ pid = 7) : ((start true none).run (unheardNumber pid)).map
      (fun c => (c.jobs.endings, c.shell.phase.atRest)) = some ([], true) := by
    rcases hpid with rfl | rfl <;> decide +kernel
  obtain ⟨c₁, h₁, heq₁⟩ := Option.map_eq_some_iff.1 (hend 5 (.inl rfl))
  obtain ⟨c₂, h₂, heq₂⟩ := Option.map_eq_some_iff.1 (hend 7 (.inr rfl))
  rw [Prod.mk.injEq] at heq₁ heq₂
  have hquiet (pid : Pid) : .raised Signal.interrupt ∉ unheardNumber pid := by
    simp [unheardNumber, Event.launch, statusLine]
  refine ⟨⟨c₁, c₂, h₁, h₂, heq₁.1.trans heq₂.1.symm, heq₁.2, heq₂.2⟩, ?_, ?_, ?_, hquiet 5, hquiet 7,
    ?_, ?_⟩ <;> decide +kernel

/-- The background job goes on. -/
def goesOn : List Event :=
  Event.launch [97, 32, 38] 5 ++ [.answered (.ok ())] ++ Event.launch [98] 6 ++
  .ended 6 (.exited 3) :: List.replicate 6 .move ++ statusLine

/-- The background job is killed when the foreground job has been taken off the tracker, and a
handler collects it. -/
def killedMeanwhile : List Event :=
  Event.launch [97, 32, 38] 7 ++ [.answered (.ok ())] ++ Event.launch [98] 8 ++
  [.ended 8 (.exited 3), .taken, .move, .move, .move, .ended 7 (.killed 9), .taken] ++
  List.replicate 8 .move ++ statusLine

theorem run_goesOn : ((start false none).run goesOn).map
    (fun c => (c.jobs.endings, c.shell.phase.atRest)) = some ([.exited 3], true) := by
  decide +kernel

theorem run_killedMeanwhile : ((start true none).run killedMeanwhile).map
    (fun c => (c.jobs.endings, c.shell.phase.atRest)) = some ([.exited 3], true) := by
  decide +kernel

/-- The two courses are given the same lines, and all they attempt succeeds. -/
theorem said_goesOn :
    let d₁ := (start false none).dialogue goesOn
    let d₂ := (start true none).dialogue killedMeanwhile
    d₁.lines = d₂.lines ∧ d₁.lines.length = 3 ∧
      (d₁.moves.all (·.isOk) ∧ d₂.moves.all (·.isOk)) ∧
      (d₁.writes.map Prod.snd).all (·.isOk) ∧ (d₂.writes.map Prod.snd).all (·.isOk) := by
  decide +kernel

theorem outcomes_of_goesOn :
    let d₁ := (start false none).dialogue goesOn
    let d₂ := (start true none).dialogue killedMeanwhile
    d₁.outcomes = d₂.outcomes ∧ d₁.outcomes.length = 3 ∧
      ∀ o ∈ d₁.outcomes, o.foreground = none := by
  obtain ⟨c₁, h₁, heq₁⟩ := Option.map_eq_some_iff.1 run_goesOn
  obtain ⟨c₂, h₂, heq₂⟩ := Option.map_eq_some_iff.1 run_killedMeanwhile
  rw [Prod.mk.injEq] at heq₁ heq₂
  obtain ⟨hlines, hthree, ⟨hmoves₁, hmoves₂⟩, hwrites₁, hwrites₂⟩ := said_goesOn
  obtain ⟨-, hfree, hlen, -, hequal, -⟩ := outcomes_of_runs h₁ h₂ rfl rfl (hlines ▸ .refl _)
    (heq₁.1.trans heq₂.1.symm ▸ .refl _) (.of_all_ok hmoves₁ hmoves₂) (.of_all_ok hwrites₁ hwrites₂)
  exact ⟨hequal heq₁.2 heq₂.2 hlines, (hlen heq₁.2).trans hthree, fun o ho => hfree o (.inl ho)⟩

end Chronicle

end JobShell
