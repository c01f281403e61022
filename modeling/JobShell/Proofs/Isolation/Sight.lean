import JobShell.Proofs.Chronicle.Dialogue
import JobShell.Proofs.Isolation.Lineage
import JobShell.Proofs.Isolation.Standstill

/-!
# What the interpreter sees of what happens

Whatever happens, to the interpreter it is a step of its own, a line, a refusal, the end of one of
its children or a signal that comes in, or it is nothing.

* `Shell.Like`: two states that differ in the signals that wait and in nothing else.
* `Machine.Sees`: what a happening is to the interpreter; `Machine.Happens.sees` says that the list
  is complete.
* `Machine.Sees.controlled`: all of it keeps the interpreter's signals, handlers and tracker with
  the line.
-/

namespace JobShell

/-- A pass makes no children. -/
theorem Reap.Moves.children_subset {who : Collector} {pass pass' : Reap} {t t' : Tracker}
    {cs cs' : Children} {d : Deed} (h : Moves who t cs pass pass' t' cs' d) : cs' ⊆ cs := by
  cases h with
  | collect | fail => exact List.filter_subset_self _
  | count | miss | release | underflow => exact List.Subset.refl _

namespace Shell

/-- The same state, but for the signals that wait. -/
structure Like (s t : Shell) : Prop where
  phase : t.phase = s.phase
  tracker : t.tracker = s.tracker
  lastStatus : t.lastStatus = s.lastStatus
  handlers : t.handlers = s.handlers
  children : t.children = s.children
  settings : t.signals.settings = s.signals.settings

variable {s t : Shell}

theorem Like.refl (s : Shell) : s.Like s := ⟨rfl, rfl, rfl, rfl, rfl, rfl⟩

/-- Where others are asked to act, the children stay as they are. -/
theorem children_of_acts (h : s.need.Acts t) : t.children = s.children := by
  cases hneed : s.need with
  | group pid next =>
    rw [hneed] at h
    obtain rfl : t = next := h
    obtain ⟨-, job, -, rfl⟩ := group_of_need hneed
    rfl
  | send pid n next =>
    rw [hneed] at h
    obtain rfl : t = next := h
    obtain ⟨-, rest, -, rfl⟩ := send_of_need hneed
    rfl
  | write text next =>
    rw [hneed] at h
    obtain ⟨r, rfl⟩ := h
    rcases write_of_need hneed with ⟨-, line, -, -, rfl⟩ | ⟨rest, -, rfl⟩ <;> rfl
  | _ =>
    rw [hneed] at h
    exact h.elim

theorem children_of_refused? {e : Errno} (h : s.refused? e = some t) : t.children = s.children := by
  unfold refused? at h
  split at h <;> cases h <;> rfl

/-- A step by itself collects children or leaves them. -/
theorem children_of_step (h : s.need = .step t) : t.children ⊆ s.children := by
  have hrefl := List.Subset.refl s.children
  unfold need at h
  split at h
  · have ht : s.lineNeed.Leads t := by
      rw [h]
      rfl
    cases advances_of_leads ht with
    | fork pid hp =>
      rw [lineNeed, hp] at h
      cases h
    | change r => cases r <;> exact hrefl
    | @await pid _ _ _ _ hw =>
      have hsub := s.children.waitFor_subset pid
      rwa [hw] at hsub
    | pass _ hpass => exact (Reap.moves_of_result? .line s.tracker s.children hpass).children_subset
    | @conclude _ result => cases result <;> exact hrefl
    | _ => exact hrefl
  · rename_i hd rest _
    have ht : (s.handlerNeed hd rest).Leads t := by
      rw [h]
      rfl
    cases handles_of_leads ht with
    | passes hpass =>
      exact (Reap.moves_of_result? .handler s.tracker s.children hpass).children_subset
    | _ => exact hrefl

end Shell

theorem Controlled.of_like {s t : Shell} (h : Controlled s) (hl : s.Like t) : Controlled t := by
  have hblocked : t.signals.settings.blocked = s.signals.settings.blocked := by rw [hl.settings]
  have hdisposition (n : Nat) :
      t.signals.settings.disposition n = s.signals.settings.disposition n := by rw [hl.settings]
  change t.signals.blocked = s.signals.blocked at hblocked
  change ∀ n, t.signals.disposition n = s.signals.disposition n at hdisposition
  refine ⟨?_, ?_, ?_, ?_, ?_, ?_, fun n hn => h.handled n ?_⟩
  · rw [hblocked, hl.phase]
    exact h.blocked
  · rw [hl.tracker, hl.phase]
    exact h.slots
  · rw [hl.phase]
    exact h.positive
  · rw [hl.handlers]
    exact h.nodup
  · rw [hl.handlers, hl.phase]
    exact h.unheld
  · rw [hl.handlers, hl.tracker]
    exact h.slotless
  · rw [← hdisposition]
    exact hn

/-- A job that is refused leaves nothing held back. -/
theorem Controlled.of_refused? {s t : Shell} {e : Errno} (h : Controlled s)
    (hs : s.refused? e = some t) : Controlled t := by
  have hb := h.blocked
  have hst := h.slots
  unfold Shell.refused? at hs
  split at hs
  · rename_i job h0 hp
    obtain rfl := Option.some.inj hs
    rw [hp] at hb hst
    exact .of_line h0 hb hst nofun h.handled
  · rename_i job h0 hp
    obtain rfl := Option.some.inj hs
    rw [hp] at hst
    refine .of_line h0 ?_ hst nofun h.handled
    simp [Signals.mem_blocked_unblock, Phase.standing]
  · cases hs

/-! ## Happenings -/

namespace Machine

variable {m m' : Machine} {p p' : Process} {h : Happening} {s : Shell}

/-- What a happening is to the interpreter, `p` before it and `p'` after it. -/
inductive Sees (m : Machine) (p : Process) (h : Happening) (m' : Machine) (p' : Process) :
    Prop where
  /-- Nothing, or a signal comes in. A child that takes a step has not ended. -/
  | stays (hlike : (m.current p).Like (m'.current p'))
      (hlives : ∀ pid q, h = .turn pid → m.world.process? pid = some q → q.parent = m.pid →
        (m'.world.process? pid).isSome) : Sees m p h m' p'
  /-- A child has ended. -/
  | hears {pid : Pid} {e : Ending} (hturn : h = .turn pid)
      (hgone : m'.world.process? pid = none)
      (he : ∀ code, (m.world.doing? pid).bind Doing.code? = some code → e = .exited code)
      (hlike : { m.current p with children := p.children.finish pid e }.Like (m'.current p')) :
      Sees m p h m' p'
  /-- It takes a step. -/
  | goes {ev : Event} {u : Shell} (hown : h = .works) (hev : (m.current p).next? ev = some u)
      (hlead : (m.current p).need.Leads u) (hlike : u.Like (m'.current p')) : Sees m p h m' p'
  /-- It takes a signal. -/
  | takes {u : Shell} (hown : h = .works) (hu : (m.current p).deliver? = some u)
      (hlike : u.Like (m'.current p')) : Sees m p h m' p'
  | begins {text : Bytes} (hline : h = .line text) (hrest : (m.current p).phase.atRest)
      (hlike : ((m.current p).begin text).Like (m'.current p')) : Sees m p h m' p'
  | refused {e : Errno} {u : Shell} (hown : h = .refused e)
      (hu : (m.current p).refused? e = some u) (hlike : u.Like (m'.current p')) : Sees m p h m' p'

/-- Nothing that happens takes the interpreter out of control. -/
theorem Sees.controlled (hs : m.Sees p h m' p') (hc : Controlled (m.current p)) :
    Controlled (m'.current p') := by
  cases hs with
  | stays hlike hlives => exact hc.of_like hlike
  | @hears pid e hturn hgone he hlike =>
    have hc' : Controlled { m.current p with children := p.children.finish pid e } := { hc with }
    exact hc'.of_like hlike
  | goes hown hev hlead hlike =>
    obtain ⟨jobs, hstep⟩ := Shell.exists_step hev
    exact (hc.step hstep).of_like hlike
  | takes hown hu hlike =>
    obtain ⟨jobs, hstep⟩ := Shell.exists_step (Shell.next?_of_deliver? hu)
    exact (hc.step hstep).of_like hlike
  | @begins text hline hrest hlike =>
    have hold := Phase.standing_of_atRest hrest
    have hnew := (m.current p).standing_phaseOf (Request.ofLine text)
    have hc' : Controlled ((m.current p).begin text) :=
      { hc with
        blocked := hc.blocked.trans (by rw [hold, ← hnew]; rfl)
        slots := by
          have hslots := hc.slots
          rw [hold, ← hnew] at hslots
          exact hslots
        positive := fun pid bg hfresh => by
          have hfresh : ((m.current p).phaseOf (Request.ofLine text)).standing = .fresh pid bg :=
            hfresh
          rw [hnew] at hfresh
          cases hfresh
        unheld := fun hmem hheld => by
          have hheld : ((m.current p).phaseOf (Request.ofLine text)).standing.IsHeldBack := hheld
          rw [hnew] at hheld
          exact hheld }
    exact hc'.of_like hlike
  | refused hown hu hlike => exact (hc.of_refused? hu).of_like hlike

/-! ## Steps of the interpreter -/

theorem like_keep (m : Machine) (p : Process) (s : Shell) :
    s.Like ((m.keep s).current { p with children := s.children, signals := s.signals }) :=
  ⟨rfl, rfl, rfl, rfl, rfl, rfl⟩

/-- The interpreter has kept its step, or the system has given it what it keeps. -/
theorem like_after (m : Machine) (world : World) {s : Shell} (hchildren : p'.children = s.children)
    (hsettings : p'.signals.settings = s.signals.settings) :
    s.Like ((m.after world s).current p') :=
  ⟨rfl, rfl, rfl, rfl, hchildren, hsettings⟩

theorem like_own (hshell : m'.shell = m.shell) (hown : p'.own = p.own)
    (hchildren : p'.children = p.children) : (m.current p).Like (m'.current p') := by
  have hsettings := congrArg (fun o : Process => o.signals) hown
  unfold current
  rw [hshell]
  exact ⟨rfl, rfl, rfl, rfl, hchildren, hsettings⟩

/-- Where others are asked to act, they leave it what it has. -/
theorem sees_acts {world : World} (hp : m.process? = some p) (ha : (m.current p).need.Acts s)
    (hw : m.world.LeavesAll world) (hkin : ∀ r, world.kin? r = m.world.kin? r)
    (hp' : world.process? m.pid = some p') : m.Sees p .works (m.after world s) p' := by
  obtain ⟨hsignals, ev, hev⟩ := Shell.step_of_acts ha
  have hchildren := Shell.children_of_acts ha
  obtain ⟨q, hq, hown⟩ := World.exists_of_own?_eq (hw.own m.pid trivial) hp'
  obtain rfl := Option.some.inj (hp.symm.trans hq)
  have hkin := hkin m.pid
  rw [World.kin?_eq_some hp', World.kin?_eq_some hp] at hkin
  have hsame : p'.children = p.children := congrArg Prod.snd (Option.some.inj hkin)
  refine .goes rfl hev ha.leads (like_after m world (hsame.trans hchildren.symm) ?_)
  rw [hsignals]
  exact congrArg (fun o : Process => o.signals) hown

section

variable (hk : m.world.Keyed) (hp : m.process? = some p) (hpos : 0 < m.pid)
  (hknown : m.pid < m.world.nextPid) (hnew : ∀ c ∈ p.children, c.pid < m.world.nextPid)
include hk hp

theorem sees_takeSignal? (h : m.takeSignal? p = some m') (hp' : m'.process? = some p') :
    m.Sees p .works m' p' := by
  rcases takeSignal?_cases h with ⟨s, hs, rfl⟩ | ⟨n, hd, rfl⟩
  · rw [process?_keep hk, hp] at hp'
    obtain rfl := Option.some.inj hp'
    exact .takes rfl hs (like_keep m p s)
  · have hq : (m.world.takeSignal p n).process? p.pid = some p' := by rw [hk.pid_eq hp]; exact hp'
    have hown := World.own_takeSignal hk hd hq
    obtain ⟨_, _, _, rfl⟩ := World.process?_takeSignal hk hq
    exact .stays (like_own rfl hown rfl) fun _ _ heq => nomatch heq

include hpos hknown hnew in
theorem sees_fork {pipeline : Pipeline} {next : Pid → Shell}
    (hneed : (m.current p).need = .fork pipeline next)
    (hp' : (m.world.fork p (Launch.leader m.env pipeline).run).2.process? m.pid = some p') :
    m.Sees p .works { m.after (m.world.fork p (Launch.leader m.env pipeline).run).2
      (next m.world.nextPid) with leader := some m.world.nextPid } p' := by
  have hfresh : 0 < m.world.nextPid ∧
      ∀ c ∈ (m.current p).children, c.pid ≠ m.world.nextPid :=
    ⟨Int.lt_trans hpos hknown, fun c hmem => Int.ne_of_lt (hnew c hmem)⟩
  have hev : (m.current p).next? (.forked m.world.nextPid) = some (next m.world.nextPid) := by
    rw [Shell.next?, hneed]
    exact if_pos hfresh
  obtain ⟨-, job, hphase, hnext⟩ := Shell.fork_of_need hneed
  have hpid := hk.pid_eq hp
  have hne : p.pid ≠ m.world.nextPid := by
    rw [hpid]
    exact Int.ne_of_lt hknown
  have hself : m.world.process? p.pid = some p := by rw [hpid]; exact hp
  have hkin := World.kin?_fork hk hself hne (Launch.leader m.env pipeline).run p.pid
  rw [if_neg hne, if_pos rfl, hpid, World.kin?_eq_some hp'] at hkin
  have hchildren : p'.children = p.children.add m.world.nextPid :=
    congrArg Prod.snd (Option.some.inj hkin)
  obtain ⟨q, hq, hown⟩ := World.exists_of_own?_eq (World.untouched_fork hk p
    (Launch.leader m.env pipeline).run (Int.ne_of_lt hknown)).own hp'
  obtain rfl := Option.some.inj (hp.symm.trans hq)
  have hsettings := congrArg (fun o : Process => o.signals) hown
  refine .goes rfl hev (by rw [hneed]; exact ⟨_, rfl⟩) ?_
  subst hnext
  exact ⟨rfl, rfl, rfl, rfl, hchildren, hsettings⟩

theorem sees_changeDirectory {path : Bytes} {next : Except Errno Unit → Shell} {world : World}
    {r : Except Errno Unit} (hneed : (m.current p).need = .changeDirectory path next)
    (heffect : m.world.Effect p (.chdir path) world)
    (hp' : world.process? m.pid = some p') :
    m.Sees p .works (m.after world (next r)) p' := by
  have hev : (m.current p).next? (.answered r) = some (next r) := by rw [Shell.next?, hneed]
  obtain ⟨-, hphase, rfl⟩ := Shell.changeDirectory_of_need hneed
  have hsame : p'.children = p.children ∧ p'.signals = p.signals := by
    cases heffect with
    | same =>
      obtain rfl := Option.some.inj (hp.symm.trans hp')
      exact ⟨rfl, rfl⟩
    | stands =>
      have hpid : p.pid = m.pid := hk.pid_eq hp
      rw [World.process?_setProcess, if_pos hpid] at hp'
      obtain rfl := Option.some.inj hp'
      exact ⟨rfl, rfl⟩
    | changes hfiling => cases hfiling
  refine .goes rfl hev (by rw [hneed]; exact ⟨r, rfl⟩) (like_after m world ?_ ?_)
  · rw [hsame.1]
    cases r <;> rfl
  · rw [hsame.2]
    cases r <;> rfl

include hpos hknown hnew in
theorem Acts.sees (h : m.Acts p m') (hp' : m'.process? = some p') : m.Sees p .works m' p' := by
  have hself : m.world.process? p.pid = some p := by rw [hk.pid_eq hp]; exact hp
  cases h with
  | @moves s hneed =>
    rw [process?_keep hk, hp] at hp'
    obtain rfl := Option.some.inj hp'
    exact .goes rfl (Shell.next?_of_move hneed) (by rw [hneed]; rfl) (like_keep m p s)
  | forks hneed => exact sees_fork hk hp hpos hknown hnew hneed hp'
  | @groups pid s hneed =>
    have heffect := World.effect_setGroup (w := m.world) (p := p) pid pid
    exact sees_acts hp (by rw [hneed]; rfl) (heffect.leavesAll hk rfl)
      (heffect.kin?_eq hk hself nofun) hp'
  | @sends pid n s hneed =>
    have heffect := World.effect_kill (w := m.world) (p := p) pid n
    exact sees_acts hp (by rw [hneed]; rfl) (heffect.leavesAll hk rfl)
      (heffect.kin?_eq hk hself nofun) hp'
  | @writes text next world r hneed h =>
    have heffect := World.effect_of_done (c := .write 1 text) h
    exact sees_acts hp (by rw [hneed]; exact ⟨_, rfl⟩) (heffect.leavesAll hk rfl)
      (heffect.kin?_eq hk hself nofun) hp'
  | changes hneed heffect => exact sees_changeDirectory hk hp hneed heffect hp'
  | leaves =>
    change (m.world.finish m.pid (.exited 0)).process? m.pid = some p' at hp'
    rw [World.process?_finish hk] at hp'
    cases hp'
  | stands =>
    obtain rfl := Option.some.inj (hp.symm.trans hp')
    exact .stays (.refl _) fun _ _ heq => nomatch heq

include hpos hknown hnew in
theorem sees_step (hp' : m.step.1.process? = some p') : m.Sees p .works m.step.1 p' := by
  unfold step at hp' ⊢
  rw [hp] at hp' ⊢
  dsimp only at hp' ⊢
  by_cases hstopped : p.stopped = true
  · rw [if_pos hstopped] at hp' ⊢
    obtain rfl := Option.some.inj (hp.symm.trans hp')
    exact .stays (.refl _) fun _ _ heq => nomatch heq
  · rw [if_neg hstopped] at hp' ⊢
    cases hsignal : m.takeSignal? p with
    | some m₁ =>
      rw [hsignal] at hp'
      exact sees_takeSignal? hk hp hsignal hp'
    | none =>
      rw [hsignal] at hp'
      exact Acts.sees hk hp hpos hknown hnew (m.acts p) hp'

end

/-! ## Whatever happens -/

/-- Processes go by their numbers, which have been given, and so do their children. The
interpreter's is a positive one. -/
structure Kindred (m : Machine) : Prop extends Numbered m where
  positive : 0 < m.pid
  given : ∀ r p, m.world.process? r = some p → r < m.world.nextPid
  registered : m.world.Rears fun _ child => child < m.world.nextPid

/-- What a step of another process is to the interpreter. -/
theorem sees_turn (hn : m.Kindred) {pid : Pid} (hpid : m.pid ≠ pid) (hp : m.process? = some p)
    (hchild : p.signals.disposition Signal.child ≠ .ignored)
    (hp' : (m.world.step pid).1.process? m.pid = some p') :
    m.Sees p (.turn pid) { m with world := (m.world.step pid).1 } p' := by
  obtain ⟨q, hq, hown⟩ := World.exists_of_own?_eq
    (World.untouched_step hn.keyed hpid hn.known).own hp'
  obtain rfl := Option.some.inj (hp.symm.trans hq)
  have hbreeds := World.breeds_step hn.keyed (hn.given pid)
  rcases hbreeds.news hn.keyed hpid (Int.ne_of_lt hn.known) hp hchild hp' with
    ⟨hchildren, hlives⟩ | ⟨e, hchildren, hgone, he⟩
  · refine .stays (like_own rfl hown hchildren) fun pid' q heq hq hparent => ?_
    obtain rfl := Happening.turn.inj heq
    exact hlives q hq hparent
  · refine .hears rfl hgone he ⟨rfl, rfl, rfl, rfl, hchildren, ?_⟩
    exact congrArg (fun o : Process => o.signals) hown

theorem sees_sent (hk : m.world.Keyed) (hp : m.process? = some p) (pid : Pid) (n : Nat)
    (hp' : (m.world.raise pid n).process? m.pid = some p') :
    m.Sees p (.sent pid n) { m with world := m.world.raise pid n } p' := by
  have hkin := World.kin?_eq_of_akin (World.akin_raise hk pid n) m.pid
  obtain ⟨q, hq, hown⟩ :=
    World.exists_of_own?_eq ((World.leavesAll_raise hk pid n).own m.pid trivial) hp'
  obtain rfl := Option.some.inj (hp.symm.trans hq)
  rw [World.kin?_eq_some hp', World.kin?_eq_some hq] at hkin
  exact .stays (like_own rfl hown (congrArg Prod.snd (Option.some.inj hkin)))
    fun _ _ heq => nomatch heq

theorem Happens.sees (hm : m.Happens h m') (hn : m.Kindred) (hp : m.process? = some p)
    (hchild : p.signals.disposition Signal.child ≠ .ignored) (hp' : m'.process? = some p') :
    m.Sees p h m' p' := by
  have hnew := hn.registered m.pid p hp
  have hsame {q : Process} (hq : m.process? = some q) : q = p := Option.some.inj (hq.symm.trans hp)
  cases hm with
  | line text hrest =>
    obtain rfl := hsame hp'
    obtain ⟨q, r, hq, hneed⟩ := exists_of_isResting hrest
    obtain rfl := hsame hq
    obtain ⟨-, hphase⟩ := Shell.rest_of_need hneed
    refine .begins rfl ?_ ⟨rfl, rfl, rfl, rfl, rfl, rfl⟩
    rcases hphase with hphase | hphase <;> rw [hphase] <;> rfl
  | works hw => exact sees_step hn.keyed hp hn.positive hn.known hnew hp'
  | @refused e q s hq hs =>
    obtain rfl := hsame hq
    rw [process?_keep hn.keyed, hp] at hp'
    obtain rfl := Option.some.inj hp'
    exact .refused rfl hs (like_keep m q s)
  | turn hpid => exact sees_turn hn hpid hp hchild hp'
  | sent pid n => exact sees_sent hn.keyed hp pid n hp'
  | passes clock =>
    obtain rfl := hsame hp'
    exact .stays (.refl _) fun _ _ heq => nomatch heq

/-! ## Parents and children -/

section

variable (hk : m.world.Keyed) (hp : m.process? = some p)
include hk hp

theorem akin_keep (hsub : s.children ⊆ p.children) : m.world.Akin (m.keep s).world m.pid := by
  have hpid : p.pid = m.pid := hk.pid_eq hp
  have hset : (m.keep s).world =
      m.world.setProcess { p with children := s.children, signals := s.signals } := by
    unfold keep World.modifyProcess
    rw [show m.world.process? m.pid = some p from hp]
  rw [hset]
  exact World.akin_setProcess rfl hp hpid rfl hsub

theorem breeds_takeSignal? (h : m.takeSignal? p = some m') : m.world.Breeds m.pid none m'.world := by
  rcases takeSignal?_cases h with ⟨s, hs, rfl⟩ | ⟨n, hd, rfl⟩
  · obtain ⟨n, -, rfl⟩ := Option.map_eq_some_iff.1 hs
    exact .keeps (akin_keep hk hp (List.Subset.refl _))
  · rcases World.akin_takeSignal hk hp n with hkin | ⟨w₁, p₁, hkin, hleaves, hp₁, heq⟩
    · exact .keeps hkin
    · show m.world.Breeds m.pid none (m.world.takeSignal p n)
      rw [heq]
      exact .ends hkin hleaves hp₁ nofun

theorem Acts.breeds (h : m.Acts p m') (hknown : m.pid < m.world.nextPid) :
    m.world.Breeds m.pid none m'.world := by
  have hpid := hk.pid_eq hp
  have hself : m.world.process? p.pid = some p := by rw [hpid]; exact hp
  have hkeeps {c : Call} {w : World} (h : m.world.Effect p c w) : m.world.Breeds m.pid none w :=
    .keeps (hpid ▸ h.akin hk hself)
  cases h with
  | moves hneed => exact .keeps (akin_keep hk hp (Shell.children_of_step hneed))
  | @forks pipeline next =>
    have hne : p.pid ≠ m.world.nextPid := by
      rw [hpid]
      exact Int.ne_of_lt hknown
    have hnext : (m.world.fork p (Launch.leader m.env pipeline).run).2.nextPid =
        m.world.nextPid + 1 := (World.leavesAll_fork hk p _).nextPid_eq
    refine .forks hp (List.Subset.refl _) ?_ fun r => ?_
    · show (m.world.fork p (Launch.leader m.env pipeline).run).2.nextPid ≠ _
      rw [hnext]
      exact Int.ne_of_gt (Int.lt_succ _)
    · show (m.world.fork p (Launch.leader m.env pipeline).run).2.kin? r = _
      rw [World.kin?_fork hk hself hne, hpid]
  | @groups pid => exact hkeeps (World.effect_setGroup pid pid)
  | @sends pid n => exact hkeeps (World.effect_kill pid n)
  | @writes text _ _ _ _ h => exact hkeeps (World.effect_of_done (c := .write 1 text) h)
  | changes _ heffect => exact hkeeps heffect
  | leaves => exact .ends (.refl _ _) (.refl _ _) hp nofun
  | stands => exact .keeps (.refl _ _)

end

theorem breeds_works (hk : m.world.Keyed) (hknown : m.pid < m.world.nextPid) :
    m.world.Breeds m.pid none m.step.1.world := by
  have hrefl : m.world.Breeds m.pid none m.world := .keeps (.refl _ _)
  unfold step
  split
  · exact hrefl
  · rename_i p hp
    split
    · exact hrefl
    · split
      · rename_i hsignal
        exact breeds_takeSignal? hk hp hsignal
      · exact Acts.breeds hk hp (m.acts p) hknown

/-- Whatever happens is a step of one process as far as parents and children go. -/
theorem Happens.breeds (hm : m.Happens h m') (hn : m.Kindred) :
    ∃ pid d, m.world.Breeds pid d m'.world := by
  cases hm with
  | line text hrest => exact ⟨m.pid, none, .keeps (.refl _ _)⟩
  | works hw => exact ⟨m.pid, none, breeds_works hn.keyed hn.known⟩
  | @refused e p s hp hs =>
    refine ⟨m.pid, none, .keeps (akin_keep hn.keyed hp ?_)⟩
    rw [Shell.children_of_refused? hs]
    exact List.Subset.refl _
  | @turn pid hpid => exact ⟨pid, _, World.breeds_step hn.keyed (hn.given pid)⟩
  | sent pid n => exact ⟨m.pid, none, .keeps (World.akin_raise hn.keyed pid n m.pid)⟩
  | passes clock =>
    have hsame : { m.world with clock }.processes = m.world.processes := rfl
    have hkin : m.world.Akin { m.world with clock } m.pid := World.akin_same hsame m.pid
    exact ⟨m.pid, none, .keeps hkin⟩

theorem Kindred.of_breeds {pid : Pid} {d : Option Doing} (hn : m.Kindred) (hn' : m'.Numbered)
    (hpid : m'.pid = m.pid) (hnext : m.world.nextPid ≤ m'.world.nextPid)
    (hb : m.world.Breeds pid d m'.world) : m'.Kindred where
  toNumbered := hn'
  positive := hpid ▸ hn.positive
  given _ _ hq := hb.given hn.keyed hnext hn.given hq
  registered := by
    have hold : m.world.Rears fun _ child => child < m'.world.nextPid :=
      fun r p hp c hmem => Int.lt_of_lt_of_le (hn.registered r p hp c hmem) hnext
    exact hb.rears hn.keyed hold fun hne => Int.lt_iff_le_and_ne.2 ⟨hnext, hne.symm⟩

theorem Kindred.happens (hn : m.Kindred) (hm : m.Happens h m') : m'.Kindred := by
  obtain ⟨pid, d, hb⟩ := hm.breeds hn
  exact hn.of_breeds (hn.toNumbered.happens hm) hm.pid_eq (hm.grows hn.keyed hn.known).nextPid hb

end Machine

end JobShell
