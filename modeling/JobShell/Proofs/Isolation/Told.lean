import JobShell.Proofs.Isolation.Failure

/-!
# The end that the interpreter is told

A process ends with the code of its program, with 0 if it takes its leave, or with the signal that
has ended it, and this is what its parent collects.

* `World.ending?`: how a process ends in its next step; `World.ends_of_gone` says that it ends so.
* `Machine.ended?`: how a process has ended in the course of some incidents.
* `Machine.Attended.told_course`: this is what the interpreter is told of the leader of its job.
* `Machine.status_of_rest`: when the line of a foreground job is over, it is the last status.
-/

namespace JobShell

namespace World

variable {w w' w₁ : World} {p q q' : Process} {pid r : Pid} {e : Ending} {k : Nat}

/-- The signal that ends a process which takes the signals that wait for it, at most `n` of them. -/
def fatal? : Nat → World → Pid → Option Nat
  | 0, _, _ => none
  | n + 1, w, pid =>
    match w.process? pid with
    | none => none
    | some p =>
      if p.stopped then none
      else (p.signals.next? []).bind fun s =>
        if ((w.takeSignal p s).process? pid).isSome then fatal? n (w.takeSignal p s) pid else some s

/-- How a process ends in its next step. -/
def ending? (w : World) (pid : Pid) : Option Ending :=
  match w.doing? pid with
  | some .killed => (w.fatal? signalCount pid).map .killed
  | some d => d.code?.map .exited
  | none => none

/-- A process that takes its signals is ended by the one that is fatal to it. -/
theorem fatal_of_takeSignals (hk : w.Keyed) (n : Nat) (hp : w.process? pid = some p)
    (h : (w.takeSignals n pid).process? pid = none) :
    ∃ w₁ p₁ k, w.fatal? n pid = some k ∧ w.Akin w₁ pid ∧ w.Leaves w₁ (· ≠ pid) ∧
      w₁.process? pid = some p₁ ∧ w.takeSignals n pid = w₁.finish pid (.killed k) := by
  induction n generalizing w p with
  | zero => cases hp.symm.trans h
  | succ n ih =>
    unfold takeSignals at h ⊢
    unfold fatal?
    rw [hp] at h ⊢
    dsimp only at h ⊢
    split at h
    · cases hp.symm.trans h
    rename_i hstopped
    split at h
    · cases hp.symm.trans h
    rename_i s hs
    rw [if_neg hstopped, if_neg hstopped, hs]
    dsimp only [Option.bind]
    have hleaves := leaves_takeSignal hk p s
    rw [hk.pid_eq hp] at hleaves
    have hkeyed := hleaves.keyed hk
    cases hq : (w.takeSignal p s).process? pid with
    | some q =>
      have hakin : w.Akin (w.takeSignal p s) pid := by
        rcases akin_takeSignal hk hp s with hakin | ⟨w₁, p₁, -, hl, -, heq⟩
        · exact hakin
        · rw [heq, process?_finish (hl.keyed hk)] at hq
          cases hq
      obtain ⟨w₁, p₁, k, hfatal, hkin, hl, hp₁, heq⟩ := ih hkeyed hq h
      exact ⟨w₁, p₁, k, hfatal, hakin.trans hkin, hleaves.trans hl, hp₁, heq⟩
    | none =>
      rcases akin_takeSignal hk hp s with hakin | ⟨w₁, p₁, hkin, hl, hp₁, heq⟩
      · obtain ⟨q, hq'⟩ := hakin.exists hp
        cases hq.symm.trans hq'
      · refine ⟨w₁, p₁, s, rfl, hkin, hl, hp₁, ?_⟩
        rw [takeSignals_of_none hq, heq]

/-- A process that is gone when it has made its call has ended with a code. -/
theorem Advances.ends_of_gone {d : Option Doing} (h : w.Advances p d w') (hk : w.Keyed)
    (hp : w.process? p.pid = some p) (hnew : p.pid ≠ w.nextPid)
    (hgone : w'.process? p.pid = none) :
    ∃ w₁ p₁ code, d.bind Doing.code? = some code ∧ w.Akin w₁ p.pid ∧ w.Leaves w₁ (· ≠ p.pid) ∧
      w₁.process? p.pid = some p₁ ∧ w' = w₁.finish p.pid (.exited code) := by
  have hlives {c : Call} {next : c.Reply → Act} (hdue : p.due? = some (.call c next)) : False := by
    obtain ⟨q, hq⟩ := (h.akin hk hp hdue).exists hp
    cases hq.symm.trans hgone
  cases h with
  | idles | lingers => cases hp.symm.trans hgone
  | quits _ h =>
    have heffect := effect_of_done h
    have hakin := heffect.akin hk hp
    obtain ⟨q, hq⟩ := hakin.exists hp
    exact ⟨_, q, 0, rfl, hakin, heffect.leaves hk, hq, rfl⟩
  | exits => exact ⟨w, p, _, rfl, .refl w _, .refl w _, hp, rfl⟩
  | @forks child next hdue =>
    have htakes := (Advances.forks hdue).takes hk hp hnew (Process.of_due? hdue).2
    cases htakes with
    | goes _ hthere =>
      rw [program?, hgone] at hthere
      cases hthere
    | ends hdoes => cases hdoes
  | calls hdue | waits hdue | breaks hdue | executes hdue => exact (hlives hdue).elim

/-- What a process does that has taken its signals is not to be killed, and with a code it ends. -/
theorem Advances.gone {d : Option Doing} (h : w.Advances p d w') (hk : w.Keyed) :
    d ≠ some .killed ∧ ∀ code, d.bind Doing.code? = some code → w'.process? p.pid = none := by
  cases h with
  | quits _ h =>
    exact ⟨nofun, fun _ _ => process?_finish (((effect_of_done h).leaves hk).keyed hk) _ _⟩
  | exits => exact ⟨nofun, fun _ _ => process?_finish hk _ _⟩
  | idles | lingers | forks | calls | waits | breaks | executes => exact ⟨nofun, nofun⟩

theorem ending?_of_code? {code : UInt8} (h : (w.doing? pid).bind Doing.code? = some code) :
    w.ending? pid = some (.exited code) := by
  obtain ⟨d, hd, hcode⟩ := Option.bind_eq_some_iff.1 h
  unfold ending?
  rw [hd]
  cases d with
  | exited | interrupted => exact congrArg (Option.map Ending.exited) hcode
  | _ => cases hcode

theorem of_ending? (h : w.ending? pid = some e) : w.doing? pid = some .killed ∨
    ∃ code, (w.doing? pid).bind Doing.code? = some code := by
  unfold ending? at h
  split at h
  · rename_i hd
    exact .inl hd
  · rename_i d _ hd
    obtain ⟨code, hcode, -⟩ := Option.map_eq_some_iff.1 h
    exact .inr ⟨code, by rw [hd]; exact hcode⟩
  · cases h

/-- A process that is gone after a step has ended so. -/
theorem ends_of_gone (hk : w.Keyed) (hgiven : pid < w.nextPid) (hp : w.process? pid = some p)
    (h : (w.step pid).1.process? pid = none) :
    ∃ w₁ p₁ e, w.ending? pid = some e ∧ w.Akin w₁ pid ∧ w.Leaves w₁ (· ≠ pid) ∧
      w₁.process? pid = some p₁ ∧ (w.step pid).1 = w₁.finish pid e := by
  have hleaves := leaves_takeSignals hk signalCount pid
  have hkeyed := hleaves.keyed hk
  rcases w.doing?_cases pid with ⟨hstep, ⟨-, hlives⟩ | ⟨hd, hgone⟩⟩ | ⟨q, hq, hstep, hd⟩
  · rw [← hstep, h] at hlives
    cases hlives
  · obtain ⟨w₁, p₁, k, hfatal, hkin, hl, hp₁, heq⟩ :=
      fatal_of_takeSignals hk signalCount hp hgone
    refine ⟨w₁, p₁, .killed k, ?_, hkin, hl, hp₁, hstep.trans heq⟩
    rw [hp] at hd
    unfold ending?
    rw [hd]
    dsimp only [Option.map]
    rw [hfatal]
  · have hkin : w.Akin (w.takeSignals signalCount pid) pid := by
      rcases akin_or_finish hk signalCount pid with hkin | ⟨w₁, p₁, k, -, hl, -, heq⟩
      · exact hkin
      · rw [heq, process?_finish (hl.keyed hk)] at hq
        cases hq
    obtain rfl := hkeyed.pid_eq hq
    have hnew : q.pid ≠ (w.takeSignals signalCount q.pid).nextPid := by
      rw [hleaves.nextPid_eq]
      exact Int.ne_of_lt hgiven
    rw [hstep] at h
    obtain ⟨w₁, p₁, code, hcode, hkin', hl, hp₁, heq⟩ :=
      (World.advances _ q).ends_of_gone hkeyed hq hnew h
    rw [← hd] at hcode
    exact ⟨w₁, p₁, _, ending?_of_code? hcode, hkin.trans hkin', hleaves.trans hl, hp₁,
      hstep.trans heq⟩

/-- A process that ends was there, and is gone. -/
theorem gone_of_ending? (hk : w.Keyed) (h : w.ending? pid = some e) :
    (w.process? pid).isSome ∧ (w.step pid).1.process? pid = none := by
  have hkeyed := (leaves_takeSignals hk signalCount pid).keyed hk
  have hdoing := of_ending? h
  rcases w.doing?_cases pid with ⟨hstep, ⟨hd, -⟩ | ⟨hd, hgone⟩⟩ | ⟨p, hp, hstep, hd⟩
  · rw [hd] at hdoing
    rcases hdoing with hdoing | ⟨code, hdoing⟩ <;> cases hdoing
  · refine ⟨?_, hstep ▸ hgone⟩
    rw [hd] at hdoing
    cases hp : w.process? pid with
    | none =>
      rw [hp] at hdoing
      rcases hdoing with hdoing | ⟨code, hdoing⟩ <;> cases hdoing
    | some p => rfl
  · rw [hd] at hdoing
    constructor
    · cases hq : w.process? pid with
      | none =>
        rw [takeSignals_of_none hq, hq] at hp
        cases hp
      | some q => rfl
    · obtain rfl := hkeyed.pid_eq hp
      obtain ⟨hkilled, hgone⟩ := (World.advances _ p).gone hkeyed
      rcases hdoing with hdoing | ⟨code, hdoing⟩
      · exact absurd hdoing hkilled
      · rw [hstep]
        exact hgone code hdoing

/-- The parent of a process that ends is told how. -/
theorem told_of_gone (hk : w.Keyed) (hgiven : pid < w.nextPid) (hp : w.process? pid = some p)
    (hgone : (w.step pid).1.process? pid = none) (hparent : p.parent = r) (hne : r ≠ pid)
    (hq : w.process? r = some q) (hchild : q.signals.disposition Signal.child ≠ .ignored)
    (hq' : (w.step pid).1.process? r = some q') :
    ∃ e, w.ending? pid = some e ∧ q'.children = q.children.finish pid e := by
  obtain ⟨w₁, p₁, e, hending, hkin, hleaves, hp₁, heq⟩ := ends_of_gone hk hgiven hp hgone
  refine ⟨e, hending, ?_⟩
  have hk₁ := hleaves.keyed hk
  rw [heq] at hq'
  obtain ⟨-, q₁, hq₁, -, hchildren⟩ := of_process?_finish hk₁ hp₁ hq'
  obtain ⟨p₀, hp₀, hparent₁, -⟩ := hkin.of_process? hp₁
  obtain rfl := Option.some.inj (hp.symm.trans hp₀)
  rw [if_pos (hparent₁.trans hparent).symm] at hchildren
  have hsame := hkin.others r hne
  rw [kin?_eq_some hq₁, kin?_eq_some hq] at hsame
  have hsame : q₁.children = q.children := congrArg Prod.snd (Option.some.inj hsame)
  obtain ⟨q₀, hq₀, hown⟩ := exists_of_own?_eq (hleaves.own r hne) hq₁
  obtain rfl := Option.some.inj (hq.symm.trans hq₀)
  have hdisposition :=
    congrArg (fun o : Process => o.signals.disposition Signal.child) hown
  change q₁.signals.disposition Signal.child = q.signals.disposition Signal.child at hdisposition
  rw [hchildren, Process.told, if_neg (hdisposition ▸ hchild), ← hsame]

end World

namespace Machine

variable {m m' m₀ m₁ m₂ : Machine} {p p' p₀ : Process} {i : Incident} {is : List Incident}
  {pid leader : Pid} {ds : Doings} {job : Job} {e : Ending} {ending : Option Ending}

/-- How a process ends at an incident. -/
def ending? (m : Machine) (pid : Pid) : Incident → Option Ending
  | .happens (.turn q) => if q = pid then m.world.ending? pid else none
  | _ => none

/-- How a process has ended in the course of some incidents. -/
def ended? (m : Machine) (pid : Pid) : List Incident → Option Ending
  | [] => none
  | i :: rest => (m.ending? pid i).or ((m.meet? i).elim none (ended? · pid rest))

theorem ended?_concat (pid : Pid) (i : Incident) (h : m.meets? is = some m₁) :
    m.ended? pid (is ++ [i]) = (m.ended? pid is).or (m₁.ending? pid i) := by
  induction is generalizing m with
  | nil =>
    obtain rfl := Option.some.inj h
    show (m.ending? pid i).or ((m.meet? i).elim none (ended? · pid [])) = _
    cases m.meet? i <;> exact Option.or_none
  | cons j rest ih =>
    obtain ⟨m₂, hfirst, hrest⟩ := Option.bind_eq_some_iff.1 h
    rw [List.cons_append, ended?, ended?, hfirst]
    dsimp only [Option.elim]
    rw [ih hrest, Option.or_assoc]

/-- The interpreter is told of this end of the leader. -/
structure Hears (leader : Pid) (ending : Option Ending) (m : Machine) : Prop where
  tells : ∀ p, m.process? = some p → (m.current p).Tells leader ending
  alive : ending = none ↔ (m.world.process? leader).isSome

/-- The leader is there until it ends. -/
theorem Attended.alive (ha : m₀.Attended p₀ job leader ds m) (hm : m.Meets i m') :
    (m'.world.process? leader).isSome ↔
      (m.world.process? leader).isSome ∧ m.ending? leader i = none := by
  have hk := ha.kindred.keyed
  by_cases hturn : i = .happens (.turn leader)
  · subst hturn
    have hworld : m'.world = (m.world.step leader).1 := by
      cases hm with
      | happens hm => cases hm with | turn => rfl
    have hending : m.ending? leader (.happens (.turn leader)) = m.world.ending? leader := if_pos rfl
    rw [hworld, hending]
    cases hq : m.world.process? leader with
    | none =>
      rw [World.step_of_none hq, hq]
      simp
    | some q =>
      refine ⟨fun hlives => ⟨rfl, ?_⟩, fun hboth => ?_⟩
      · by_contra hne
        obtain ⟨e, he⟩ := Option.ne_none_iff_exists'.1 hne
        rw [(World.gone_of_ending? hk he).2] at hlives
        cases hlives
      · by_contra hgone
        obtain ⟨-, -, e, he, -⟩ :=
          World.ends_of_gone hk ha.known hq (Option.not_isSome_iff_eq_none.1 hgone)
        cases hboth.2.symm.trans he
  · have hnone : m.ending? leader i = none := by
      unfold ending?
      split
      · exact if_neg fun heq => hturn (by rw [heq])
      · rfl
    rw [hnone, and_iff_left rfl]
    by_cases hdenied : ∃ e, i = .denied leader e
    · obtain ⟨e, rfl⟩ := hdenied
      cases hm with
      | denied hpid hd =>
        have hkin := World.akin_denied hk hd leader
        have hparent := congrArg Option.isSome hkin.parent
        rw [Option.isSome_map, Option.isSome_map] at hparent
        exact Bool.eq_iff_iff.1 hparent
    · rw [World.isSome_of_own? (hm.own ha.kindred.toNumbered ha.other ha.known hturn
        fun e heq => hdenied ⟨e, heq⟩)]

/-- The leader has ended in its turn, or has been gone before. -/
theorem Attended.tells_of_hears (ha : m₀.Attended p₀ job leader ds m)
    (ht : (m.current p).Tells leader ending) (hm : m.Happens (.turn leader) m')
    (hchild : p₀.signals.disposition Signal.child ≠ .ignored) (hp : m.process? = some p)
    (hp' : m'.process? = some p') (hgone : m'.world.process? leader = none)
    (hphase : (m'.current p').phase = (m.current p).phase)
    (hlast : (m'.current p').lastStatus = (m.current p).lastStatus) :
    (m'.current p').Tells leader (ending.or (m.ending? leader (.happens (.turn leader)))) := by
  have hk := ha.kindred.keyed
  have hending : m.ending? leader (.happens (.turn leader)) = m.world.ending? leader := if_pos rfl
  have hworld : m'.world = (m.world.step leader).1 := by cases hm with | turn => rfl
  have hself : m'.world.process? m.pid = some p' := by
    rw [← hm.pid_eq]
    exact hp'
  rw [hworld] at hgone hself
  rw [hending]
  cases hq : m.world.process? leader with
  | none =>
    have hnone : m.world.ending? leader = none := by
      by_contra hne
      obtain ⟨e, he⟩ := Option.ne_none_iff_exists'.1 hne
      have hlives := (World.gone_of_ending? hk he).1
      rw [hq] at hlives
      cases hlives
    rw [World.step_of_none hq] at hself
    obtain rfl := Option.some.inj (hp.symm.trans hself)
    rw [hnone, Option.or_none]
    exact ht.congr hphase rfl hlast
  | some q =>
    have hdisposition : p.signals.disposition Signal.child ≠ .ignored := by
      rw [ha.undisturbed.disposition hp]
      exact hchild
    obtain ⟨e, he, hchildren⟩ := World.told_of_gone hk ha.known hq hgone (ha.parent p q hp hq)
      ha.other.symm hp hdisposition hself
    rw [he]
    exact (ht.finish e).congr hphase hchildren hlast

/-- The interpreter goes on with what it is told. -/
theorem Attended.tells_of_sees {h : Happening} (ha : m₀.Attended p₀ job leader ds m)
    (hh : m.Hears leader ending) (hm : m.Happens h m') (hline : h.isLine = false)
    (hchild : p₀.signals.disposition Signal.child ≠ .ignored) (hp : m.process? = some p)
    (hp' : m'.process? = some p') :
    (m'.current p').Tells leader (ending.or (m.ending? leader (.happens h))) := by
  have hat := ha.attends p hp
  have htells := hh.tells p hp
  have hnone (hother : h ≠ .turn leader) : m.ending? leader (.happens h) = none := by
    cases h with
    | turn pid =>
      have hne : pid ≠ leader := fun heq => hother (by rw [heq])
      exact if_neg hne
    | _ => rfl
  cases ha.served.sees hm hchild hp hp' with
  | stays hlike hlives =>
    have hstays : m.ending? leader (.happens h) = none := by
      by_contra hne
      have hdead := mt (ha.alive (.happens hm)).1 fun hboth => hne hboth.2
      by_cases hturn : h = .turn leader
      · subst hturn
        obtain ⟨e, he⟩ := Option.ne_none_iff_exists'.1 hne
        obtain ⟨q, hq⟩ := Option.isSome_iff_exists.1
          (World.gone_of_ending? ha.kindred.keyed ((if_pos rfl).symm.trans he)).1
        exact hdead (hlives leader q rfl hq (ha.parent p q hp hq))
      · exact hne (hnone hturn)
    rw [hstays, Option.or_none]
    exact htells.congr hlike.phase hlike.children hlike.lastStatus
  | @hears pid e hturn hgone he hlike =>
    subst hturn
    by_cases hpid : pid = leader
    · subst hpid
      exact ha.tells_of_hears htells hm hchild hp hp' hgone hlike.phase hlike.lastStatus
    · rw [hnone fun heq => hpid (Happening.turn.inj heq), Option.or_none]
      exact (htells.finish_of_ne hpid).congr hlike.phase hlike.children hlike.lastStatus
  | goes hown hev hlead hlike =>
    subst hown
    rw [hnone nofun, Option.or_none]
    exact (htells.leads hat.controlled hlead).congr hlike.phase hlike.children hlike.lastStatus
  | takes hown hu hlike =>
    subst hown
    rw [hnone nofun, Option.or_none]
    obtain ⟨n, -, rfl⟩ := Option.map_eq_some_iff.1 hu
    exact htells.congr hlike.phase hlike.children hlike.lastStatus
  | begins hl =>
    subst hl
    cases hline
  | refused hown hu =>
    rw [Shell.refused?_of_carries hat.carries] at hu
    cases hu

/-- Whatever happens before the next line, the interpreter is told how the leader ends. -/
theorem Attended.hears (ha : m₀.Attended p₀ job leader ds m) (hh : m.Hears leader ending)
    (hm : m.Meets i m') (hline : i.isLine = false)
    (hchild : p₀.signals.disposition Signal.child ≠ .ignored) :
    m'.Hears leader (ending.or (m.ending? leader i)) := by
  refine ⟨fun p' hp' => ?_, ?_⟩
  · obtain ⟨p, hp⟩ := hm.exists_before ha.kindred.toNumbered hp'
    cases hm with
    | happens hm => exact ha.tells_of_sees hh hm hline hchild hp hp'
    | @denied pid e d world hpid hd =>
      have hsame := process?_denied ha.kindred.keyed hpid hd
      have hnone : m.ending? leader (.denied pid e) = none := rfl
      rw [hnone, Option.or_none]
      exact hh.tells p' (hsame.symm.trans hp')
  · rw [ha.alive hm, ← hh.alive]
    cases ending <;> simp

theorem Attended.told_course (ha : m₀.Attended p₀ job leader [] m) (hbg : job.background = false)
    (hchild : p₀.signals.disposition Signal.child ≠ .ignored)
    (his : ∀ i ∈ is, i.isLine = false) (h : m.meets? is = some m') :
    m'.Hears leader (m.ended? leader is) := by
  have halive : (m.world.process? leader).isSome :=
    Option.isSome_iff_exists.2 (ha.travels.alive rfl)
  have hstart : m.Hears leader none := by
    refine ⟨fun p hp => ?_, by simp [halive]⟩
    obtain ⟨ending, htells, hiff, -⟩ := (ha.attends p hp).told hbg
    rwa [hiff.2 halive] at htells
  refine meets?_induction (P := fun is m' => (∀ i ∈ is, i.isLine = false) →
    m'.Hears leader (m.ended? leader is)) (fun _ => hstart) ?_ h his
  intro is i m₁ m₂ hpre hm₁ hm his
  rw [List.forall_mem_append] at his
  have hat := (ha.course hchild his.1 hpre).1
  rw [ended?_concat leader i hpre]
  exact hat.hears (hm₁ his.1) (meets_of_meet? hat.kindred.keyed hm) (his.2 i List.mem_cons_self)
    hchild

/-- When the line of a foreground job is over, its leader has ended, and how it has ended is the last
status, if that is a status. -/
theorem Attended.status_of_rest {r : LineResult} (ha : m₀.Attended p₀ job leader [] m)
    (hbg : job.background = false) (hchild : p₀.signals.disposition Signal.child ≠ .ignored)
    (his : ∀ i ∈ is, i.isLine = false) (h : m.meets? is = some m') (hp : m'.process? = some p)
    (hrest : (m'.current p).need = .rest r) :
    ∃ e, m.ended? leader is = some e ∧ r = Phase.resultOf e.status ∧
      ∀ status, e.status = .ok status → m'.shell.lastStatus = status :=
  ((ha.told_course hbg hchild his h).tells p hp).of_rest hrest

end Machine

end JobShell
