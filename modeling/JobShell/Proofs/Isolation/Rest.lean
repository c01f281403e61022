import Mathlib.Algebra.GroupWithZero.Nat
import Mathlib.Data.Prod.Lex
import JobShell.Proofs.Isolation.Attendance

/-!
# The line of a job comes to its end

Once the leader of its job is gone, the interpreter has only so much left to do: every step brings it
to a later part of the line, or is one of a handler. A handler is started by a signal that waits, so
there are only so many of them.

* `Shell.todo`: what is left to do, the line before the handlers.
* `Machine.Attended.lessens`: every step lessens it.
* `Machine.Attended.rests`: given turns, the interpreter comes to rest, if nothing holds it.
-/

namespace JobShell

/-! ## Passes -/

namespace Reap

/-- The parts of a pass that are left: the count is read, and then the attempts are made. -/
def parts : Reap → Nat
  | start => 2
  | _ => 1

/-- The steps that are left once the count has been read. -/
def left : Reap → Nat
  | start => 0
  | attempting n _ => 2 * n + 1
  | releasing n _ => 2 * n + 2

theorem left_step {pass : Reap} (h : pass.result? = none) (t : Tracker) (cs : Children) :
    (pass.step t cs).1.parts < pass.parts ∨
      (pass.step t cs).1.parts = pass.parts ∧ (pass.step t cs).1.left < pass.left := by
  match pass with
  | .start => exact .inl (Nat.lt_succ_self 1)
  | .attempting 0 reaped => cases h
  | .attempting (n + 1) reaped =>
    refine .inr ?_
    unfold step
    dsimp only
    split
    · split
      · exact ⟨rfl, by simp only [left]; omega⟩
      · exact ⟨rfl, by simp only [left]; omega⟩
    · exact ⟨rfl, by simp only [left]; omega⟩
  | .releasing n reaped =>
    refine .inr ?_
    unfold step
    dsimp only
    split <;> exact ⟨rfl, by simp only [left]; omega⟩

end Reap

/-! ## The line -/

/-- The part of the line that is reached, and the steps that are left of it. -/
def Phase.todo : Phase → ℕ ×ₗ ℕ
  | .idle | .finished _ => toLex (0, 0)
  | .reaping pass _ => toLex (pass.parts, pass.left)
  | .cleared _ => toLex (3, 0)
  | .collected _ => toLex (4, 0)
  | .waiting _ | .announcing _ => toLex (5, 0)
  | .noted .. => toLex (6, 0)
  | .grouped .. => toLex (7, 0)
  | .forked .. => toLex (8, 0)
  | _ => toLex (9, 0)

namespace Shell

variable {s t : Shell} {job : Job} {leader : Pid}

theorem todo_of_lineNeed (hc : s.phase.Carries job leader) (ht : s.lineNeed.Leads t) :
    t.phase.todo < s.phase.todo := by
  cases advances_of_leads ht with
  | hold hp | fork _ hp | print _ hp | change _ hp =>
    rw [hp] at hc
    exact hc.elim
  | group hp | note hp | orphan hp | await hp | clear hp | sweep hp =>
    rw [hp]
    exact Prod.Lex.toLex_lt_toLex.2 (.inl (by decide))
  | @unhold j _ hp =>
    rw [hp]
    cases j.background <;> exact Prod.Lex.toLex_lt_toLex.2 (.inl (by decide))
  | announce r hp =>
    rw [hp]
    cases r <;> exact Prod.Lex.toLex_lt_toLex.2 (.inl (by decide))
  | @pass pass _ hp hpass =>
    rw [hp]
    exact Prod.Lex.toLex_lt_toLex.2 (pass.left_step hpass s.tracker s.children)
  | conclude hp hpass =>
    rw [concluded_eq, hp, Reap.eq_of_result? hpass]
    exact Prod.Lex.toLex_lt_toLex.2 (.inl (Nat.lt_succ_self 0))

end Shell

/-! ## Signals that wait -/

namespace Signals

variable {s : Signals} {n m : Nat}

/-- The work that a signal makes: a handler has to be started for it, or it is taken. -/
def work (s : Signals) (n : Nat) : Nat := if s.disposition n = .handled then 5 else 1

/-- The work that the signals make that wait. -/
def todo (s : Signals) : Nat := (s.pending.map s.work).sum

theorem todo_take (h : n ∈ s.pending) : (s.take n).todo + s.work n ≤ s.todo := by
  have hless (ns : List Nat) :
      ((ns.filter (· ≠ n)).map s.work).sum + (if n ∈ ns then s.work n else 0) ≤
        (ns.map s.work).sum := by
    induction ns with
    | nil => exact Nat.le_refl _
    | cons k rest ih =>
      by_cases hk : k = n
      · have hdrop : (k :: rest).filter (· ≠ n) = rest.filter (· ≠ n) :=
          List.filter_cons_of_neg (by simp [hk])
        rw [hdrop, if_pos (by rw [hk]; exact List.mem_cons_self), List.map_cons, List.sum_cons, hk]
        omega
      · have hkeep : (k :: rest).filter (· ≠ n) = k :: rest.filter (· ≠ n) :=
          List.filter_cons_of_pos (by simp [hk])
        have hmem : n ∈ k :: rest ↔ n ∈ rest := by simp [Ne.symm hk]
        rw [hkeep, List.map_cons, List.sum_cons, List.map_cons, List.sum_cons]
        simp only [hmem]
        omega
  have hpending := hless s.pending
  rw [if_pos h] at hpending
  exact hpending

theorem todo_raise (s : Signals) (n : Nat) : (s.raise n).todo ≤ s.todo + s.work n := by
  unfold raise
  split
  · exact Nat.le_add_right _ _
  · split
    · exact Nat.le_add_right _ _
    · show ((s.pending ++ [n]).map s.work).sum ≤ _
      rw [List.map_append, List.sum_append]
      exact Nat.le_refl _

end Signals

/-! ## Handlers -/

/-- The steps that are left of a handler but for its pass, and those of its pass. -/
def Handler.todo : Handler → ℕ × ℕ
  | .newline => (4, 0)
  | .interrupting => (2, 0)
  | .forwarding _ | .leaving => (1, 0)
  | .noticing => (3, 0)
  | .reaping pass => (pass.parts, pass.left)

namespace Shell

variable {s t : Shell} {job : Job} {leader : Pid}

/-- What is left to do before the line goes on. -/
def chores (s : Shell) : ℕ ×ₗ ℕ :=
  toLex (s.signals.todo + (s.handlers.map (·.todo.1)).sum, (s.handlers.map (·.todo.2)).sum)

/-- What is left to do, the line before the handlers. -/
def todo (s : Shell) : (ℕ ×ₗ ℕ) ×ₗ (ℕ ×ₗ ℕ) := toLex (s.phase.todo, s.chores)

/-- A handler is started for a signal that waits. -/
theorem chores_of_deliver? (ht : s.deliver? = some t) : t.chores < s.chores := by
  obtain ⟨n, hn, rfl⟩ := Option.map_eq_some_iff.1 ht
  unfold takes? at hn
  split at hn
  · rename_i k hnext
    split at hn
    · rename_i hd
      obtain rfl := Option.some.inj hn
      have htake := Signals.todo_take (Signals.of_next? hnext).1
      have hwork : s.signals.work k = 5 := if_pos hd
      refine Prod.Lex.toLex_lt_toLex.2 (.inl ?_)
      have hhandler : (handlerOf k).todo.1 ≤ 4 := by
        unfold handlerOf
        split <;> decide
      dsimp only
      rw [List.map_cons, List.sum_cons]
      omega
    · cases hn
  · cases hn

/-- A step of a handler; the newline that it writes may bring a signal. -/
theorem chores_of_handlerNeed {h : Handler} {rest : List Handler} (hh : s.handlers = h :: rest)
    (ht : (s.handlerNeed h rest).Leads t) (signals : Signals)
    (hsignals : signals.todo ≤ s.signals.todo + if h = .newline then 1 else 0) :
    { t with signals }.chores < s.chores := by
  unfold chores
  rw [hh]
  cases handles_of_leads ht with
  | writes =>
    rw [if_pos rfl] at hsignals
    refine Prod.Lex.toLex_lt_toLex.2 (.inl ?_)
    simp only [List.map_cons, List.sum_cons, Handler.todo]
    omega
  | forwards | leaves | sends | ignores | starts =>
    rw [if_neg nofun] at hsignals
    refine Prod.Lex.toLex_lt_toLex.2 (.inl ?_)
    simp only [List.map_cons, List.sum_cons, Handler.todo, Reap.parts]
    omega
  | @passes pass hpass =>
    rw [if_neg nofun] at hsignals
    have hleft := pass.left_step hpass s.tracker s.children
    refine Prod.Lex.toLex_lt_toLex.2 ?_
    simp only [List.map_cons, List.sum_cons, Handler.todo]
    omega
  | returns hpass =>
    rw [if_neg nofun] at hsignals
    rw [Reap.eq_of_result? hpass]
    refine Prod.Lex.toLex_lt_toLex.2 (.inl ?_)
    simp only [List.map_cons, List.sum_cons, Handler.todo, Reap.parts]
    omega

/-- Only taking a signal changes which ones wait. -/
theorem signals_of_handlerNeed {h : Handler} {rest : List Handler}
    (ht : (s.handlerNeed h rest).Leads t) : t.signals = s.signals := by
  cases handles_of_leads ht <;> rfl

end Shell

/-! ## What the system does -/

namespace World

variable {w w' : World} {p q : Process} {pid r : Pid} {n : Nat}

/-- One process is sent a signal. -/
theorem process?_kill (hk : w.Keyed) (hpos : 0 < pid) (hne : r ≠ pid) :
    (w.kill p pid n).1.process? r = w.process? r := by
  have haddressed : w.addressed p pid = if w.exists_ pid then [pid] else [] := if_pos hpos
  unfold kill
  rw [haddressed]
  split
  · rfl
  · split
    · rfl
    · by_cases hexists : w.exists_ pid = true
      · rw [if_pos hexists]
        dsimp only
        split
        · rfl
        · show (w.raise pid n).process? r = _
          unfold raise
          exact process?_modifyProcess_of_ne hk (fun q => by exact rfl) hne
      · rw [if_neg hexists]

/-- A process that writes may be sent SIGPIPE. -/
theorem processes_write {fd : Nat} {text : Bytes} {reply : Except Errno Nat}
    (h : w.write p fd text = .done w' reply) :
    w'.processes = w.processes ∨ w' = w.raise p.pid Signal.pipe := by
  unfold write at h
  split at h
  · cases h
    exact .inl rfl
  · split at h
    · cases h
      exact .inl rfl
    · split at h
      · cases h
        exact .inl rfl
      · cases h
        exact .inl rfl
      · split at h
        · cases h
          exact .inr rfl
        · dsimp only at h
          split at h
          · cases h
          · cases h
            exact .inl rfl
      · split at h
        · split at h <;> cases h <;> exact .inl rfl
        · cases h
          exact .inl rfl

theorem todo_write (hk : w.Keyed) (hp : w.process? p.pid = some p)
    (hpipe : p.signals.disposition Signal.pipe ≠ .handled) {fd : Nat} {text : Bytes}
    {reply : Except Errno Nat} (h : w.write p fd text = .done w' reply)
    (hq : w'.process? p.pid = some q) : q.signals.todo ≤ p.signals.todo + 1 := by
  rcases processes_write h with hsame | rfl
  · have hprocess : w'.process? p.pid = w.process? p.pid := by
      unfold process?
      rw [hsame]
    rw [hprocess, hp] at hq
    obtain rfl := Option.some.inj hq
    exact Nat.le_succ _
  · unfold raise at hq
    rw [process?_modifyProcess hk fun o => by exact rfl, hp] at hq
    obtain rfl := Option.some.inj hq
    have hwork : p.signals.work Signal.pipe = 1 := if_neg hpipe
    have hraise := p.signals.todo_raise Signal.pipe
    rwa [hwork] at hraise

end World

/-! ## The interpreter -/

namespace Machine

variable {m m' m₀ : Machine} {p p' p₀ : Process} {leader : Pid} {ds : Doings} {job : Job}

/-- The interpreter does not go on: it is stopped, or what it writes is not taken from it. -/
def Stalls (m : Machine) : Prop :=
  ∃ p, m.process? = some p ∧ (p.stopped = true ∨ ∃ text next w',
    (m.current p).need = .write text next ∧ m.world.write p 1 text = .wait w')

/-- A step of its own brings the interpreter on, if it does not wait. -/
theorem leads_act (hblocked : (m.current p).need ≠ .blocked)
    (hrest : ∀ r, (m.current p).need ≠ .rest r) (hleave : (m.current p).need ≠ .leave)
    (hwrite : ∀ text next w', (m.current p).need = .write text next →
      m.world.write p 1 text ≠ .wait w') :
    (m.current p).need.Leads (m.act p).1.shell := by
  have h := m.acts p
  generalize (m.act p).1 = m' at h
  cases h with
  | moves hneed | groups hneed | sends hneed =>
    rw [hneed]
    rfl
  | forks hneed | writes hneed | changes hneed =>
    rw [hneed]
    exact ⟨_, rfl⟩
  | leaves hneed => exact absurd hneed hleave
  | stands hwhy =>
    rcases hwhy with hneed | ⟨r, hneed⟩ | ⟨text, next, w, hneed, hwait⟩
    · exact absurd hneed hblocked
    · exact absurd hneed (hrest r)
    · exact absurd hwait (hwrite text next w hneed)

section

variable (hk : m.world.Keyed) (hp : m.process? = some p)
include hk hp

/-- A step of a handler lessens the chores. -/
theorem chores_act (hc : Controlled (m.current p)) (haims : (m.current p).Aims leader)
    (hpos : 0 < leader) (hother : leader ≠ m.pid) {h : Handler} {rest : List Handler}
    (hh : (m.current p).handlers = h :: rest)
    (ht : ((m.current p).handlerNeed h rest).Leads (m.act p).1.shell)
    (hp' : (m.act p).1.process? = some p') :
    ((m.act p).1.current p').chores < (m.current p).chores := by
  have hself : m.world.process? p.pid = some p := by rw [hk.pid_eq hp]; exact hp
  have hno (hnone : (m.current p).handlers = []) : False := nomatch hnone.symm.trans hh
  have hneed : (m.current p).need = (m.current p).handlerNeed h rest := by
    unfold Shell.need
    rw [hh]
  have hsame := Shell.signals_of_handlerNeed ht
  refine Shell.chores_of_handlerNeed hh ht p'.signals ?_
  rw [← hneed] at ht
  have hacts := m.acts p
  generalize (m.act p).1 = m' at hacts ht hp' hsame
  cases hacts with
  | moves =>
    rw [process?_keep hk, hp] at hp'
    obtain rfl := Option.some.inj hp'
    exact Nat.le_trans (Nat.le_of_eq (congrArg Signals.todo hsame)) (Nat.le_add_right _ _)
  | @sends pid n s hact =>
    obtain ⟨-, rest', hforwarding, -⟩ := Shell.send_of_need hact
    have hpid : pid = leader :=
      haims.forwards pid (by rw [hforwarding]; exact List.mem_cons_self)
    change (m.world.kill p pid n).1.process? m.pid = some p' at hp'
    rw [World.process?_kill hk (by rwa [hpid]) (by rw [hpid]; exact hother.symm),
      show m.world.process? m.pid = some p from hp] at hp'
    obtain rfl := Option.some.inj hp'
    exact Nat.le_add_right _ _
  | writes hact hwrite =>
    rcases Shell.write_of_need hact with ⟨hnone, -⟩ | ⟨rest', hnewline, -⟩
    · exact (hno hnone).elim
    · obtain rfl := (List.cons.inj (hh.symm.trans hnewline)).1
      have hpipe : p.signals.disposition Signal.pipe ≠ .handled := fun hhandled => by
        rcases hc.handled _ hhandled with h | h <;> cases h
      rw [process?, after, ← hk.pid_eq hp] at hp'
      exact World.todo_write hk hself hpipe hwrite hp'
  | groups hact => exact (hno (Shell.group_of_need hact).1).elim
  | forks hact => exact (hno (Shell.fork_of_need hact).1).elim
  | changes hact => exact (hno (Shell.changeDirectory_of_need hact).1).elim
  | leaves hact =>
    rw [hact] at ht
    exact ht.elim
  | stands =>
    obtain rfl := Option.some.inj (hp.symm.trans hp')
    exact Nat.le_add_right _ _

/-- Taking a signal lessens the chores and leaves the line where it is. -/
theorem todo_takeSignal? (h : m.takeSignal? p = some m') (hp' : m'.process? = some p') :
    (m'.current p').todo < (m.current p).todo := by
  suffices m'.shell.phase = m.shell.phase ∧ (m'.current p').chores < (m.current p).chores from
    Prod.Lex.toLex_lt_toLex.2 (.inr ⟨congrArg Phase.todo this.1, this.2⟩)
  unfold takeSignal? at h
  dsimp only at h
  split at h
  · rename_i s hs
    obtain rfl := Option.some.inj h
    rw [process?_keep hk, hp] at hp'
    obtain rfl := Option.some.inj hp'
    have hless := Shell.chores_of_deliver? hs
    obtain ⟨n, -, rfl⟩ := Option.map_eq_some_iff.1 hs
    exact ⟨rfl, hless⟩
  · obtain ⟨n, hn, rfl⟩ := Option.map_eq_some_iff.1 h
    change (m.world.takeSignal p n).process? m.pid = some p' at hp'
    rw [← hk.pid_eq hp] at hp'
    have htake := Signals.todo_take (Signals.of_next? hn).1
    have hwork : 1 ≤ p.signals.work n := by
      unfold Signals.work
      split <;> decide
    obtain ⟨_, _, _, rfl⟩ := World.process?_takeSignal hk hp'
    refine ⟨rfl, Prod.Lex.toLex_lt_toLex.2 (.inl ?_)⟩
    change (p.signals.take n).todo + p.signals.work n ≤ p.signals.todo at htake
    show (p.signals.take n).todo + (m.shell.handlers.map (·.todo.1)).sum <
      p.signals.todo + (m.shell.handlers.map (·.todo.1)).sum
    omega

end

/-- Once its leader is gone, a job is not waited for. -/
theorem Attended.ne_blocked (ha : m₀.Attended p₀ job leader ds m) (hp : m.process? = some p)
    (hover : job.background = true ∨ m.world.process? leader = none) :
    (m.current p).need ≠ .blocked := by
  have hat := ha.attends p hp
  intro hb
  cases hbg : job.background with
  | true =>
    obtain ⟨pid, hphase, -⟩ := Shell.waiting_of_blocked hb
    have hcarries := hat.carries
    rw [hphase] at hcarries
    cases hbg.symm.trans hcarries.1
  | false =>
    have hgone : m.world.process? leader = none := by
      rcases hover with hback | hgone
      · cases hbg.symm.trans hback
      · exact hgone
    obtain ⟨ending, htells, hiff, -⟩ := hat.told hbg
    cases ending with
    | none =>
      rw [hgone] at hiff
      cases hiff.1 rfl
    | some e => exact htells.ne_blocked hb

/-- A step of its own lessens what is left to do, the line before the chores. -/
theorem Attended.todo_act (ha : m₀.Attended p₀ job leader ds m) (hp : m.process? = some p)
    (ht : (m.current p).need.Leads (m.act p).1.shell) (hp' : (m.act p).1.process? = some p') :
    ((m.act p).1.current p').todo < (m.current p).todo := by
  have hk := ha.kindred.keyed
  have hat := ha.attends p hp
  cases hh : (m.current p).handlers with
  | nil =>
    rw [Shell.need, hh] at ht
    have hless := Shell.todo_of_lineNeed hat.carries ht
    exact Prod.Lex.toLex_lt_toLex.2 (.inl hless)
  | cons h rest =>
    rw [Shell.need, hh] at ht
    have hphase := Shell.phase_of_handlerNeed ht
    exact Prod.Lex.toLex_lt_toLex.2 (.inr ⟨congrArg Phase.todo hphase,
      chores_act hk hp hat.controlled hat.aims ha.positive ha.other hh ht hp'⟩)

/-- Once its leader is gone, the interpreter lessens what is left to do, if nothing holds it. -/
theorem Attended.lessens (ha : m₀.Attended p₀ job leader ds m) (hp : m.process? = some p)
    (hover : job.background = true ∨ m.world.process? leader = none)
    (hrest : m.isResting = false) (hstalls : ¬m.Stalls) (hp' : m.step.1.process? = some p') :
    (m.step.1.current p').todo < (m.current p).todo := by
  have hk := ha.kindred.keyed
  unfold step at hp' ⊢
  rw [hp] at hp' ⊢
  dsimp only at hp' ⊢
  by_cases hstopped : p.stopped = true
  · exact absurd ⟨p, hp, .inl hstopped⟩ hstalls
  rw [if_neg hstopped] at hp' ⊢
  cases hsignal : m.takeSignal? p with
  | some m₁ =>
    rw [hsignal] at hp'
    exact todo_takeSignal? hk hp hsignal hp'
  | none =>
    rw [hsignal] at hp'
    refine ha.todo_act hp (leads_act (ha.ne_blocked hp hover) (fun r hr => ?_) (fun hl => ?_)
      fun text next w' hneed hwait => ?_) hp'
    · unfold isResting at hrest
      rw [hp] at hrest
      simp only [hr] at hrest
      cases hrest
    · change (m.act p).1.process? = some p' at hp'
      rw [act, hl] at hp'
      change (m.world.finish m.pid (.exited 0)).process? m.pid = some p' at hp'
      rw [World.process?_finish hk] at hp'
      cases hp'
    · exact hstalls ⟨p, hp, .inr ⟨text, next, w', hneed, hwait⟩⟩

/-- Given turns, and nothing else, the interpreter ends, comes to rest, or does not go on. -/
def Rests (m : Machine) : Prop :=
  m.ComesTo (.happens .works) fun m' => m'.process? = none ∨ m'.isResting ∨ m'.Stalls

theorem Attended.rests_of_process? (hchild : p₀.signals.disposition Signal.child ≠ .ignored)
    (ha : m₀.Attended p₀ job leader ds m) (hp : m.process? = some p)
    (hover : job.background = true ∨ m.world.process? leader = none) : m.Rests := by
  induction hleft : (m.current p).todo using WellFoundedLT.induction generalizing m p ds with
  | ind left ih =>
    subst hleft
    by_cases hrest : m.isResting = true
    · exact .now (.inr (.inl hrest))
    by_cases hstalls : m.Stalls
    · exact .now (.inr (.inr hstalls))
    have hmeets : m.Meets (.happens .works) m.step.1 :=
      .happens (.works (works_step ha.kindred.keyed))
    have hnext : m.step.1.Rests := by
      cases hp' : m.step.1.process? with
      | none => exact .now (.inl hp')
      | some p' =>
        have hless := ha.lessens hp hover (Bool.eq_false_of_not_eq_true hrest) hstalls hp'
        exact ih _ hless (ha.meets hmeets rfl hchild) hp'
          (hover.imp_right (hmeets.gone ha.kindred.toNumbered ha.other ha.known)) rfl
    exact .after (show m.meet? (.happens .works) = some m.step.1 from rfl) hnext

/-- Once its leader is gone, the line of a job comes to its end. -/
theorem Attended.rests (ha : m₀.Attended p₀ job leader ds m)
    (hchild : p₀.signals.disposition Signal.child ≠ .ignored)
    (hover : job.background = true ∨ m.world.process? leader = none) : m.Rests := by
  cases hp : m.process? with
  | none => exact .now (.inl hp)
  | some p => exact ha.rests_of_process? hchild hp hover

end Machine

end JobShell
