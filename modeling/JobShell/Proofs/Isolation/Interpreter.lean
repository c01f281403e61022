import JobShell.Proofs.Chronicle.Control
import JobShell.Proofs.Isolation.Course

/-!
# What the interpreter keeps

The interpreter holds SIGCHLD back from before a fork until the job has been noted, and its tracker
has a foreground job only from then on until the job is over. Apart from SIGCHLD and, in `cd`, its
directory, it keeps what is its own.

* `Shell.Guards`: SIGCHLD and the foreground job go with the phase of the line;
  `Shell.Guards.of_step` says that every step keeps it so.
* `Machine.Follows`: what a happening does to the interpreter. `Machine.Happens.follows` says that
  every happening is of this kind.
-/

namespace JobShell

/-! ## Signals without the guard -/

namespace Signals

/-- The settings, SIGCHLD let through. -/
def unguarded (s : Signals) : Signals := s.settings.unblock Signal.child

variable (s t : Signals) (n : Nat)

theorem unguarded_block : (s.block Signal.child).unguarded = s.unguarded := by
  unfold block
  split
  · rfl
  · simp [unguarded, settings, unblock]

theorem unguarded_unblock : (s.unblock Signal.child).unguarded = s.unguarded := by
  simp [unguarded, settings, unblock]

theorem unguarded_raise : (s.raise n).unguarded = s.unguarded := by
  rw [unguarded, World.settings_raise, unguarded]

variable {s t}

/-- Where SIGCHLD is let through, nothing is left out. -/
theorem settings_eq_of_unguarded (h : s.unguarded = t.unguarded) (hs : Signal.child ∉ s.blocked)
    (ht : Signal.child ∉ t.blocked) : s.settings = t.settings := by
  have hkept {u : Signals} (hu : Signal.child ∉ u.blocked) : u.unguarded = u.settings := by
    have hall : u.blocked.filter (· ≠ Signal.child) = u.blocked := by
      rw [List.filter_eq_self]
      intro n hn
      exact decide_eq_true fun heq => hu (heq ▸ hn)
    unfold unguarded unblock
    rw [show u.settings.blocked = u.blocked from rfl, hall]
    rfl
  rw [← hkept hs, h, hkept ht]

end Signals

/-- What a process has to itself, SIGCHLD let through. -/
def Process.unguarded (p : Process) : Process := { p.own with signals := p.signals.unguarded }

theorem Process.unguarded_congr {p q : Process} (h : p.own = q.own) :
    p.unguarded = q.unguarded :=
  congrArg (fun o : Process => { o with signals := o.signals.unblock Signal.child }) h

/-! ## The guard and the foreground job -/

/-- The tracker has no foreground job. -/
def Standing.IsFree : Standing → Prop
  | settled | guarded | fresh _ _ => True
  | shielded _ | awaited _ | collected => False

namespace Shell

/-- SIGCHLD and the foreground job go with the phase of the line. -/
structure Guards (s : Shell) : Prop where
  blocked : Signal.child ∈ s.signals.blocked ↔ s.phase.standing.IsHeldBack
  free : s.phase.standing.IsFree → s.tracker.foreground = none

variable {s t : Shell}

theorem Guards.congr (h : s.Guards) (hsettings : t.signals.settings = s.signals.settings)
    (hphase : t.phase.standing = s.phase.standing) (htracker : t.tracker = s.tracker) :
    t.Guards where
  blocked := by
    have hblocked : t.signals.settings.blocked = s.signals.settings.blocked := by rw [hsettings]
    change t.signals.blocked = s.signals.blocked at hblocked
    rw [hblocked, hphase]
    exact h.blocked
  free := by
    rw [hphase, htracker]
    exact h.free

/-- Every step keeps the guard and the foreground job with the line. -/
theorem Guards.of_step {c c' : Chronicle} (hs : c.Step c') (h : c.shell.Guards) :
    c'.shell.Guards := by
  have hb := h.blocked
  have hf := h.free
  cases hs with
  | quiet status kept h0 hq => exact h.congr rfl hq.standing_eq rfl
  | hold h0 hp =>
    rw [hp] at hf
    exact ⟨by simp [Signals.mem_blocked_block, Phase.standing], fun _ => hf trivial⟩
  | fork h0 hp hpos hnew =>
    rw [hp] at hb hf
    exact ⟨hb, fun _ => hf trivial⟩
  | @note job pid h0 hp =>
    rw [hp] at hb hf
    cases hbg : job.background with
    | true =>
      exact ⟨hb.trans (by simp [Phase.standing, hbg]), fun _ => by
        simpa [Shell.note, hbg, Tracker.addBackground] using hf trivial⟩
    | false =>
      refine ⟨hb.trans (by simp [Phase.standing, hbg]), fun hfree => ?_⟩
      simp [Phase.standing, hbg, Standing.IsFree] at hfree
  | @unhold job pid h0 hp =>
    rw [hp] at hf
    cases hbg : job.background with
    | true =>
      refine ⟨by simp [Signals.mem_blocked_unblock, Phase.standing], fun _ => hf ?_⟩
      simp [Phase.standing, hbg, Standing.IsFree]
    | false =>
      exact ⟨by simp [Signals.mem_blocked_unblock, Phase.standing], False.elim⟩
  | await h0 hp hw | orphan h0 hp hw =>
    rw [hp] at hb
    exact ⟨hb, False.elim⟩
  | clear h0 hp =>
    rw [hp] at hb
    exact ⟨hb, fun _ => rfl⟩
  | linePass h0 hp hm =>
    rw [hp] at hb hf
    exact ⟨hb, fun _ => hm.foreground_eq.trans (hf trivial)⟩
  | handlerPass hh hm => exact ⟨hb, fun hfree => hm.foreground_eq.trans (hf hfree)⟩
  | handlerStart | handlerEnd | interrupt | take | discard | told => exact ⟨hb, hf⟩
  | raise n => exact ⟨by simpa using hb, hf⟩
  | finish hc he => exact ⟨by simpa using hb, hf⟩

/-- No step changes another setting of signals than the guard. -/
theorem unguarded_of_step {c c' : Chronicle} (hs : c.Step c') :
    c'.shell.signals.unguarded = c.shell.signals.unguarded := by
  cases hs with
  | hold => exact Signals.unguarded_block _
  | unhold => exact Signals.unguarded_unblock _
  | raise n => exact Signals.unguarded_raise _ n
  | finish => exact Signals.unguarded_raise _ _
  | _ => rfl

/-- What can happen to an interpreter by itself is a step. -/
theorem exists_step {ev : Event} (h : s.next? ev = some t) :
    ∃ jobs, Chronicle.Step ⟨s, []⟩ ⟨t, jobs⟩ := by
  have hnext : Chronicle.next? ⟨s, []⟩ ev = some ⟨t, Ledger.record [] (s.deed ev)⟩ := by
    rw [Chronicle.next?, h]
    rfl
  exact ⟨_, Chronicle.step_of_next? hnext⟩

/-- Where others act for it, the interpreter takes a step and does nothing to its signals. -/
theorem step_of_acts (h : s.need.Acts t) :
    t.signals = s.signals ∧ ∃ ev, s.next? ev = some t := by
  cases hneed : s.need with
  | group pid next =>
    rw [hneed] at h
    obtain rfl : t = next := h
    obtain ⟨-, job, -, rfl⟩ := group_of_need hneed
    exact ⟨rfl, .move, by rw [next?, hneed]⟩
  | send pid n next =>
    rw [hneed] at h
    obtain rfl : t = next := h
    obtain ⟨-, rest, -, rfl⟩ := send_of_need hneed
    exact ⟨rfl, .move, by rw [next?, hneed]⟩
  | write text next =>
    rw [hneed] at h
    obtain ⟨r, rfl⟩ := h
    refine ⟨?_, .answered r, by rw [next?, hneed]⟩
    rcases write_of_need hneed with ⟨-, line, -, -, rfl⟩ | ⟨rest, -, rfl⟩ <;> rfl
  | _ =>
    rw [hneed] at h
    exact h.elim

theorem next?_of_move (h : s.need = .step t) : s.next? .move = some t := by
  rw [next?, h]

theorem next?_of_deliver? (h : s.deliver? = some t) : s.next? .taken = some t := by
  rw [next?, h, Option.some_or]

/-- A job that is refused leaves nothing held back. -/
theorem Guards.of_refused? {e : Errno} (hs : s.refused? e = some t) (h : s.Guards) : t.Guards := by
  have hb := h.blocked
  have hf := h.free
  unfold refused? at hs
  split at hs
  · rename_i job h0 hp
    obtain rfl := Option.some.inj hs
    rw [hp] at hb hf
    exact ⟨hb, fun _ => hf trivial⟩
  · rename_i job h0 hp
    obtain rfl := Option.some.inj hs
    rw [hp] at hf
    exact ⟨by simp [Signals.mem_blocked_unblock, Phase.standing], fun _ => hf trivial⟩
  · cases hs

theorem unguarded_of_refused? {e : Errno} (hs : s.refused? e = some t) :
    t.signals.unguarded = s.signals.unguarded := by
  unfold refused? at hs
  split at hs
  · obtain rfl := Option.some.inj hs
    rfl
  · obtain rfl := Option.some.inj hs
    exact Signals.unguarded_unblock _
  · cases hs

theorem Guards.of_fork {pipeline : Pipeline} {next : Pid → Shell}
    (hneed : s.need = .fork pipeline next) (pid : Pid) (h : s.Guards) :
    (next pid).Guards ∧ (next pid).signals = s.signals := by
  obtain ⟨-, job, hp, rfl⟩ := fork_of_need hneed
  have hb := h.blocked
  have hf := h.free
  rw [hp] at hb hf
  exact ⟨⟨hb, fun _ => hf trivial⟩, rfl⟩

theorem standing_phaseOf (s : Shell) (request : Except LineError Request) :
    (s.phaseOf request).standing = .settled := by
  unfold phaseOf
  split <;> first | rfl | (split <;> rfl)

theorem standing_of_rest {r : LineResult} (h : s.need = .rest r) : s.phase.standing = .settled := by
  obtain ⟨-, hp | hp⟩ := rest_of_need h <;> rw [hp] <;> rfl

end Shell

/-! ## Happenings -/

namespace Machine

/-- What becomes of the interpreter `p` of `m`. -/
structure Follows (m : Machine) (p : Process) (m' : Machine) (p' : Process) : Prop where
  guards : (m.current p).Guards → (m'.current p').Guards
  signals : p'.signals.unguarded = p.signals.unguarded
  program : p'.program = p.program
  own : p'.unguarded = p.unguarded ∨ ∃ path, m.shell.phase = .changing path

variable {m m' : Machine} {p p' : Process} {h : Happening} {s : Shell}

theorem exists_of_isResting (h : m.isResting) :
    ∃ p r, m.process? = some p ∧ (m.current p).need = .rest r := by
  unfold isResting at h
  split at h
  · cases h
  · rename_i p hp
    split at h
    · rename_i r hneed
      exact ⟨p, r, hp, hneed⟩
    · cases h

theorem process?_keep (hk : m.world.Keyed) (s : Shell) :
    (m.keep s).process? =
      m.process?.map fun p => { p with children := s.children, signals := s.signals } :=
  World.process?_modifyProcess hk fun _ => rfl

/-- The interpreter makes a step of its own. -/
theorem follows_keep (hk : m.world.Keyed) (hp : m.process? = some p)
    (hguards : (m.current p).Guards → s.Guards)
    (hsignals : s.signals.unguarded = p.signals.unguarded)
    (hp' : (m.keep s).process? = some p') : m.Follows p (m.keep s) p' := by
  rw [process?_keep hk, hp] at hp'
  obtain rfl := Option.some.inj hp'
  refine ⟨hguards, hsignals, rfl, .inl ?_⟩
  unfold Process.unguarded
  rw [show (Signals.unguarded _) = _ from hsignals]
  rfl

/-- What the interpreter remembers of its signals is what the system has for it. -/
theorem guards_current (hg : m.shell.Guards) (hsignals : m.shell.signals = p.signals) :
    (m.current p).Guards :=
  hg.congr (congrArg Signals.settings hsignals.symm) rfl rfl

/-- The interpreter keeps what is its own. -/
theorem follows_own (hown : p'.own = p.own)
    (hguards : (m.current p).Guards → (m'.current p).Guards) : m.Follows p m' p' := by
  have hsettings : p'.signals.settings = p.signals.settings :=
    congrArg (fun o : Process => o.signals) hown
  exact ⟨fun hg => (hguards hg).congr hsettings rfl rfl,
    congrArg (·.unblock Signal.child) hsettings, congrArg (·.program) hown,
    .inl (Process.unguarded_congr hown)⟩

theorem Works.follows (hw : m.Works m') (hk : m.world.Keyed) (hknown : m.pid < m.world.nextPid)
    (hp' : m'.process? = some p') : ∃ p, m.process? = some p ∧ m.Follows p m' p' := by
  cases hw with
  | stands => exact ⟨p', hp', follows_own rfl id⟩
  | @takes p s hp hs =>
    obtain ⟨jobs, hstep⟩ := Shell.exists_step (Shell.next?_of_deliver? hs)
    exact ⟨p, hp, follows_keep hk hp (.of_step hstep) (Shell.unguarded_of_step hstep) hp'⟩
  | @suffers p n hp hd =>
    have hown : p'.own = p.own := World.own_takeSignal hk hd (by rw [hk.pid_eq hp]; exact hp')
    exact ⟨p, hp, follows_own hown id⟩
  | @moves p s hp hneed =>
    obtain ⟨jobs, hstep⟩ := Shell.exists_step (Shell.next?_of_move hneed)
    exact ⟨p, hp, follows_keep hk hp (.of_step hstep) (Shell.unguarded_of_step hstep) hp'⟩
  | @forks p pipeline next hp hneed =>
    have h := World.untouched_fork hk p (Launch.leader m.env pipeline).run (Int.ne_of_lt hknown)
    obtain ⟨q, hq, hown⟩ := World.exists_of_own?_eq h.own hp'
    obtain rfl := Option.some.inj (hq.symm.trans hp)
    refine ⟨q, hp, follows_own hown fun hg => ?_⟩
    obtain ⟨hnext, hsignals⟩ := hg.of_fork hneed m.world.nextPid
    exact guards_current hnext hsignals
  | @acts p s world hp ha hworld =>
    obtain ⟨hsignals, ev, hev⟩ := Shell.step_of_acts ha
    obtain ⟨jobs, hstep⟩ := Shell.exists_step hev
    obtain ⟨q, hq, hown⟩ := World.exists_of_own?_eq (hworld.own m.pid trivial) hp'
    obtain rfl := Option.some.inj (hq.symm.trans hp)
    exact ⟨q, hp, follows_own hown fun hg => guards_current (hg.of_step hstep) hsignals⟩
  | @changes p path next r world hp hneed hworld =>
    have hnext : (m.current p).next? (.answered r) = some (next r) := by rw [Shell.next?, hneed]
    obtain ⟨jobs, hstep⟩ := Shell.exists_step hnext
    obtain ⟨-, hphase, rfl⟩ := Shell.changeDirectory_of_need hneed
    have hsignals : ((m.current p).changed path r).signals = p.signals := by cases r <;> rfl
    obtain ⟨q, hq, hpoise⟩ := hworld.self
    rw [hk.pid_eq hp] at hq
    obtain rfl : q = p' := Option.some.inj (hq.symm.trans hp')
    have hsettings : q.signals.settings = p.signals.settings :=
      congrArg (fun x : Option Act × Signals × List Nat => x.2.1) hpoise
    refine ⟨p, hp, fun hg => ?_, congrArg (·.unblock Signal.child) hsettings,
      congrArg Prod.fst hpoise, .inr ⟨path, hphase⟩⟩
    exact (hg.of_step hstep).congr (hsettings.trans (by rw [hsignals])) rfl rfl
  | ends =>
    rw [process?, World.process?_finish hk] at hp'
    cases hp'

/-- Every happening keeps the guard and the foreground job with the line, and what is the
interpreter's own but for the guard and, in `cd`, its directory. -/
theorem Happens.follows (hm : m.Happens h m') (hk : m.world.Keyed)
    (hknown : m.pid < m.world.nextPid) (hp' : m'.process? = some p') :
    ∃ p, m.process? = some p ∧ m.Follows p m' p' := by
  have hothers {world : World} (hown : world.own? m.pid = m.world.own? m.pid)
      (hp' : world.process? m.pid = some p') :
      ∃ p, m.process? = some p ∧ m.Follows p { m with world } p' := by
    obtain ⟨p, hp, hown⟩ := World.exists_of_own?_eq hown hp'
    exact ⟨p, hp, follows_own hown id⟩
  cases hm with
  | line text hrest =>
    refine ⟨p', hp', fun hg => ?_, rfl, rfl, .inl rfl⟩
    obtain ⟨p, r, hp, hneed⟩ := exists_of_isResting hrest
    have hphase : (m.current p).phase.standing = .settled := Shell.standing_of_rest hneed
    exact hg.congr rfl ((m.shell.standing_phaseOf _).trans hphase.symm) rfl
  | works hw => exact hw.follows hk hknown hp'
  | refused hp hs =>
    exact ⟨_, hp, follows_keep hk hp (.of_refused? hs) (Shell.unguarded_of_refused? hs) hp'⟩
  | turn hpid => exact hothers (World.untouched_step hk hpid hknown).own hp'
  | sent pid n => exact hothers ((World.leavesAll_raise hk pid n).own m.pid trivial) hp'
  | passes clock => exact hothers rfl hp'

end Machine

end JobShell
