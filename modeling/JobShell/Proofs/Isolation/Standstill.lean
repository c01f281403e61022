import JobShell.Proofs.Isolation.Interpreter
import JobShell.Proofs.Line.Evaluation

/-!
# Lines that launch nothing

A line that is refused, that asks for nothing or that is a built-in command leaves the interpreter
as it is, but for the directory it goes to.

* `Shell.Owes`: what is still to be done for such a line. `Shell.Stays`: what neither the line nor a
  handler on top of it changes.
* `Machine.Settles`: what one step of the line itself can come to, whatever has happened before it.
* `Machine.Standstill`: the invariant of all courses that follow the line;
  `Machine.leavesBe_of_course?` puts it together with the steps.
-/

namespace JobShell

/-- A line that has been read asks for a job. -/
def LaunchesJob (request : Except LineError Request) : Prop := ∃ job, request = .ok (.launch job)

theorem Need.Acts.leads {n : Need} {t : Shell} (h : n.Acts t) : n.Leads t := by
  cases n <;> first | exact h | exact h.elim

namespace Shell

variable {s t : Shell} {request : Except LineError Request}

/-! ## The interpreter by itself -/

/-- What is still to be done for a line that launches nothing. -/
inductive Owes (s : Shell) : Except LineError Request → Prop where
  | nothing {request : Except LineError Request} {r : LineResult} (hp : s.phase = .finished r) :
      s.Owes request
  | print (hp : s.phase = .printing) : s.Owes (.ok (.builtin .status))
  | change {target : Option String} {path : Bytes} (hp : s.phase = .changing path)
      (hpath : s.destination target = some path) : s.Owes (.ok (.builtin (.cd target)))

/-- What is remembered from line to line, but for the count of background jobs and what standard
output keeps, and what is done with signals. -/
structure Stays (s t : Shell) : Prop where
  home : t.home = s.home
  lastStatus : t.lastStatus = s.lastStatus
  foreground : t.tracker.foreground = s.tracker.foreground
  settings : t.signals.settings = s.signals.settings

theorem Stays.trans {u : Shell} (h : s.Stays t) (h' : t.Stays u) : s.Stays u :=
  ⟨h'.home.trans h.home, h'.lastStatus.trans h.lastStatus, h'.foreground.trans h.foreground,
    h'.settings.trans h.settings⟩

theorem owes_begin {line : Bytes} (hline : ¬LaunchesJob (Request.ofLine line)) (s : Shell) :
    (s.begin line).Owes (Request.ofLine line) := by
  have hphase : (s.begin line).phase = s.phaseOf (Request.ofLine line) := rfl
  generalize Request.ofLine line = request at hline hphase ⊢
  unfold phaseOf at hphase
  split at hphase
  · exact .nothing hphase
  · exact .nothing hphase
  · exact .nothing hphase
  · exact .print hphase
  · rename_i target
    split at hphase
    · rename_i path hpath
      exact .change hphase hpath
    · exact .nothing hphase
  · rename_i job
    exact absurd ⟨job, rfl⟩ hline

theorem Owes.congr (h : s.Owes request) (hphase : t.phase = s.phase) (hhome : t.home = s.home) :
    t.Owes request := by
  cases h with
  | nothing hp => exact .nothing (hphase.trans hp)
  | print hp => exact .print (hphase.trans hp)
  | change hp hpath =>
    refine .change (hphase.trans hp) ?_
    rw [← hpath]
    unfold destination
    rw [hhome]

theorem stays_of_handlerNeed {h : Handler} {rest : List Handler}
    (ht : (s.handlerNeed h rest).Leads t) : s.Stays t := by
  cases handles_of_leads ht with
  | passes hpass =>
    exact ⟨rfl, rfl, (Reap.moves_of_result? .handler s.tracker s.children hpass).foreground_eq, rfl⟩
  | _ => exact ⟨rfl, rfl, rfl, rfl⟩

/-- The system can refuse nothing but a guard and a fork. -/
theorem refused?_eq_none (hlaunch : ∀ job, s.phase ≠ .launching job)
    (hguard : ∀ job, s.phase ≠ .guarded job) (e : Errno) : s.refused? e = none := by
  unfold refused?
  split
  · rename_i job _ hp
    exact absurd hp (hlaunch job)
  · rename_i job _ hp
    exact absurd hp (hguard job)
  · rfl

theorem Owes.refused?_eq (h : s.Owes request) (e : Errno) : s.refused? e = none := by
  cases h with
  | nothing hp | print hp | change hp =>
    exact refused?_eq_none (by rw [hp]; nofun) (by rw [hp]; nofun) e

end Shell

/-! ## Changing the directory -/

namespace World

theorem chdir_nil (w : World) (p : Process) : w.chdir p [] = (w, .error .ENOENT) := rfl

end World

/-! ## The steps of the line itself -/

namespace Machine

variable {m m' m₀ : Machine} {p p' p₀ : Process} {s : Shell}
  {request : Except LineError Request} {h : Happening}

/-- What one step of a line that launches nothing comes to. -/
inductive Settles (m : Machine) (p : Process) : Except LineError Request → Machine → Prop where
  /-- Nothing is left to be done, or the output is not taken. -/
  | stands {request : Except LineError Request} : m.Settles p request m
  | prints {world : World} {r : Except Errno Nat} (hphase : m.shell.phase = .printing)
      (hwrite : m.world.write p 1 (m.shell.kept ++ Shell.lineOf m.shell.lastStatus.text) =
        .done world r) :
      m.Settles p (.ok (.builtin .status)) (m.after world ((m.current p).written
        (Shell.lineOf m.shell.lastStatus.text) (r.map fun _ => ())))
  | goes {target : Option String} {path : Bytes} {directory : Place}
      (hphase : m.shell.phase = .changing path) (hpath : m.shell.destination target = some path)
      (hnul : 0 ∉ path) (hne : path ≠ [])
      (hok : m.world.chdir p path = (m.world.setProcess { p with directory }, .ok ())) :
      m.Settles p (.ok (.builtin (.cd target)))
        (m.after (m.world.setProcess { p with directory })
          { m.current p with phase := .finished .next })
  | refuses {target : Option String} {path : Bytes} {e : Errno}
      (hphase : m.shell.phase = .changing path) (hpath : m.shell.destination target = some path)
      (herror : 0 ∈ path ∧ e = .EINVAL ∨ 0 ∉ path ∧ m.world.chdir p path = (m.world, .error e)) :
      m.Settles p (.ok (.builtin (.cd target)))
        (m.after m.world ((m.current p).changed path (.error e)))

theorem settles_act (h0 : m.shell.handlers = []) (howes : m.shell.Owes request) :
    m.Settles p request (m.act p).1 := by
  have hneed : (m.current p).need = (m.current p).lineNeed := by
    rw [Shell.need, show (m.current p).handlers = [] from h0]
  cases howes with
  | @nothing request r hp =>
    have hrest : (m.current p).need = .rest r := by
      rw [hneed, Shell.lineNeed, show (m.current p).phase = .finished r from hp]
    rw [act, hrest]
    exact .stands
  | print hp =>
    have hwrite : (m.current p).need = (m.current p).print
        (Shell.lineOf m.shell.lastStatus.text) := by
      rw [hneed, Shell.lineNeed, show (m.current p).phase = .printing from hp]
      rfl
    rw [act, hwrite]
    dsimp only [Shell.print]
    split
    · rename_i hdone
      exact .prints hp hdone
    · exact .stands
    · rename_i hbecome
      rcases m.world.write_cases p 1
          (m.shell.kept ++ Shell.lineOf m.shell.lastStatus.text) with ⟨_, _, hwrite⟩ | hwrite <;>
        cases hbecome.symm.trans hwrite
  | @change target path hp hpath =>
    have hcd : (m.current p).need = .changeDirectory path ((m.current p).changed path) := by
      rw [hneed, Shell.lineNeed, show (m.current p).phase = .changing path from hp]
    rw [act, hcd]
    dsimp only
    split
    · rename_i hnul
      exact .refuses hp hpath (.inl ⟨hnul, rfl⟩)
    · rename_i hnul
      rcases m.world.chdir_cases p path with ⟨e, herror⟩ | ⟨directory, hok⟩
      · rw [herror]
        exact .refuses hp hpath (.inr ⟨hnul, herror⟩)
      · have hne : path ≠ [] := by
          rintro rfl
          rw [World.chdir_nil] at hok
          cases (Prod.mk.inj hok).2
        rw [hok]
        exact .goes hp hpath hnul hne hok

/-- The count of background jobs is not touched. -/
theorem Settles.tracker_eq (h : m.Settles p request m') : m'.shell.tracker = m.shell.tracker := by
  cases h with
  | stands => rfl
  | prints => rfl
  | goes => rfl
  | refuses => rfl

/-- Only `status` can change a file. -/
theorem Settles.files_eq (h : m.Settles p request m') (hreq : request ≠ .ok (.builtin .status)) :
    m'.world.tree = m.world.tree ∧ m'.world.files = m.world.files ∧
      m'.world.pipes = m.world.pipes := by
  cases h with
  | stands => exact ⟨rfl, rfl, rfl⟩
  | prints => exact absurd rfl hreq
  | goes => exact ⟨rfl, rfl, rfl⟩
  | refuses => exact ⟨rfl, rfl, rfl⟩

/-! ## Steps and happenings -/

/-- The interpreter, `p` in `m` and `p'` in `m'`, has not gone on with its line and keeps all that
is its own. -/
structure Still (m : Machine) (p : Process) (m' : Machine) (p' : Process) : Prop where
  phase : m'.shell.phase = m.shell.phase
  stays : (m.current p).Stays (m'.current p')
  own : p'.own = p.own

theorem still_own (hshell : m'.shell = m.shell) (hown : p'.own = p.own) : m.Still p m' p' := by
  refine ⟨by rw [hshell], ?_, hown⟩
  unfold current
  rw [hshell]
  exact ⟨rfl, rfl, rfl, congrArg (fun o : Process => o.signals) hown⟩

theorem still_keep (hk : m.world.Keyed) (hp : m.process? = some p)
    (hphase : s.phase = m.shell.phase) (hs : (m.current p).Stays s)
    (hp' : (m.keep s).process? = some p') : m.Still p (m.keep s) p' := by
  rw [process?_keep hk, hp] at hp'
  obtain rfl := Option.some.inj hp'
  refine ⟨hphase, hs, ?_⟩
  unfold Process.own
  rw [show Signals.settings _ = p.signals.settings from hs.settings]

theorem still_deliver? (hk : m.world.Keyed) (hp : m.process? = some p)
    (hs : (m.current p).deliver? = some s) (hp' : (m.keep s).process? = some p') :
    m.Still p (m.keep s) p' := by
  obtain ⟨n, -, rfl⟩ := Option.map_eq_some_iff.1 hs
  exact still_keep hk hp rfl ⟨rfl, rfl, rfl, rfl⟩ hp'

theorem still_takeSignal? (hk : m.world.Keyed) (hp : m.process? = some p)
    (h : m.takeSignal? p = some m') (hp' : m'.process? = some p') : m.Still p m' p' := by
  rcases takeSignal?_cases h with ⟨s, hs, rfl⟩ | ⟨n, hd, rfl⟩
  · exact still_deliver? hk hp hs hp'
  · exact still_own rfl (World.own_takeSignal hk hd (by rw [hk.pid_eq hp]; exact hp'))

theorem still_handler (hk : m.world.Keyed) (hp : m.process? = some p)
    (h0 : m.shell.handlers ≠ []) (hp' : (m.act p).1.process? = some p') :
    m.Still p (m.act p).1 p' := by
  have hsame {q : Process} (hq : m.process? = some q) : q = p :=
    Option.some.inj (hq.symm.trans hp)
  have hleads {t : Shell} (ht : (m.current p).need.Leads t) :
      t.phase = m.shell.phase ∧ (m.current p).Stays t := by
    obtain ⟨d, rest, hh⟩ := List.exists_cons_of_ne_nil h0
    have hneed : (m.current p).need = (m.current p).handlerNeed d rest := by
      rw [Shell.need, show (m.current p).handlers = d :: rest from hh]
    rw [hneed] at ht
    have hphase : t.phase = (m.current p).phase := Shell.phase_of_handlerNeed ht
    exact ⟨hphase, Shell.stays_of_handlerNeed ht⟩
  have hworks := (m.acts p).works hk hp
  generalize (m.act p).1 = m' at hworks hp' ⊢
  cases hworks with
  | stands =>
    obtain rfl := hsame hp'
    exact still_own rfl rfl
  | @takes q s hq hs =>
    obtain rfl := hsame hq
    exact still_deliver? hk hp hs hp'
  | @suffers q n hq hd =>
    obtain rfl := hsame hq
    exact still_own rfl (World.own_takeSignal hk hd (by rw [hk.pid_eq hp]; exact hp'))
  | @moves q s hq hneed =>
    obtain rfl := hsame hq
    obtain ⟨hphase, hstays⟩ := hleads (by rw [hneed]; rfl)
    exact still_keep hk hp hphase hstays hp'
  | @forks q pipeline next hq hneed => exact absurd (Shell.fork_of_need hneed).1 h0
  | @acts q s world hq ha hw =>
    obtain rfl := hsame hq
    obtain ⟨q', hq', hown⟩ := World.exists_of_own?_eq (hw.own m.pid trivial) hp'
    obtain rfl := hsame hq'
    obtain ⟨hphase, hstays⟩ := hleads ha.leads
    exact ⟨hphase, ⟨hstays.home, hstays.lastStatus, hstays.foreground,
      congrArg (fun o : Process => o.signals) hown⟩, hown⟩
  | @changes q path next r world hq hneed hw =>
    exact absurd (Shell.changeDirectory_of_need hneed).1 h0
  | ends =>
    rw [process?, World.process?_finish hk] at hp'
    cases hp'

/-- A step of the interpreter takes a signal, is one of a handler, or is one of the line. -/
theorem step_still_or_settles (hk : m.world.Keyed) (hp : m.process? = some p)
    (howes : m.shell.Owes request) :
    (∀ p', m.step.1.process? = some p' → m.Still p m.step.1 p') ∨ m.Settles p request m.step.1 := by
  have hstands : m.Settles p request m := .stands
  unfold step
  rw [hp]
  dsimp only
  by_cases hstopped : p.stopped = true
  · rw [if_pos hstopped]
    exact .inr hstands
  · rw [if_neg hstopped]
    cases hsignal : m.takeSignal? p with
    | some m' => exact .inl fun p' hp' => still_takeSignal? hk hp hsignal hp'
    | none =>
      by_cases h0 : m.shell.handlers = []
      · exact .inr (settles_act h0 howes)
      · exact .inl fun p' hp' => still_handler hk hp h0 hp'

/-! ## Courses -/

/-- `m₀` with the interpreter `p₀` has been given a line that launches nothing, and this is what has
become of the interpreter `p` of `m`. -/
structure Standstill (m₀ : Machine) (p₀ : Process) (request : Except LineError Request)
    (m : Machine) (p : Process) : Prop where
  owes : m.shell.Owes request
  stays : (m₀.current p₀).Stays (m.current p)
  own : p.own = p₀.own ∨
    ∃ target path directory, request = .ok (.builtin (.cd target)) ∧
      m₀.shell.destination target = some path ∧ 0 ∉ path ∧ path ≠ [] ∧
      m.shell.phase = .finished .next ∧ p.own = { p₀.own with directory }

theorem Standstill.of_still (hs : Standstill m₀ p₀ request m p) (h : m.Still p m' p') :
    Standstill m₀ p₀ request m' p' := by
  refine ⟨hs.owes.congr h.phase h.stays.home, hs.stays.trans h.stays, ?_⟩
  rw [h.own, h.phase]
  exact hs.own

theorem Standstill.of_settles (hk : m.world.Keyed) (hp : m.process? = some p)
    (hs : Standstill m₀ p₀ request m p) (h : m.Settles p request m') (hp' : m'.process? = some p') :
    Standstill m₀ p₀ request m' p' := by
  have hhome : m.shell.home = m₀.shell.home := hs.stays.home
  have hdestination (target : Option String) :
      m.shell.destination target = m₀.shell.destination target := by
    unfold Shell.destination
    rw [hhome]
  -- While something is owed the directory has not been left.
  have hown (howed : m.shell.phase ≠ .finished .next) : p.own = p₀.own := by
    rcases hs.own with hown | ⟨_, _, _, -, -, -, -, hphase, -⟩
    · exact hown
    · exact absurd hphase howed
  cases h with
  | stands =>
    obtain rfl := Option.some.inj (hp.symm.trans hp')
    exact hs
  | @prints world r hphase hwrite =>
    obtain ⟨q, hq, hkept⟩ : ∃ q, m.process? = some q ∧ p'.own = q.own := by
      have heffect := World.effect_write (w := m.world) (p := p) 1
        (m.shell.kept ++ Shell.lineOf m.shell.lastStatus.text)
      rw [hwrite] at heffect
      have hleaves := World.Effect.leavesAll heffect hk rfl
      exact World.exists_of_own?_eq (hleaves.own m.pid trivial) hp'
    obtain rfl := Option.some.inj (hp.symm.trans hq)
    have hsettings : p'.signals.settings = p.signals.settings :=
      congrArg (fun o : Process => o.signals) hkept
    exact ⟨.nothing rfl, hs.stays.trans ⟨rfl, rfl, rfl, hsettings⟩,
      .inl (hkept.trans (hown (by rw [hphase]; nofun)))⟩
  | @goes target path directory hphase hpath hnul hne hok =>
    have hset : p' = { p with directory } := by
      have hpid : p.pid = m.pid := hk.pid_eq hp
      have hget : (m.world.setProcess { p with directory }).process? m.pid = some p' := hp'
      rw [World.process?_setProcess, if_pos hpid] at hget
      exact (Option.some.inj hget).symm
    subst hset
    refine ⟨.nothing rfl, hs.stays.trans ⟨rfl, rfl, rfl, rfl⟩, .inr
      ⟨target, path, directory, rfl, (hdestination target).symm.trans hpath, hnul, hne, rfl, ?_⟩⟩
    rw [← hown (by rw [hphase]; nofun)]
    rfl
  | @refuses target path e hphase hpath herror =>
    obtain rfl := Option.some.inj (hp.symm.trans hp')
    exact ⟨.nothing rfl, hs.stays.trans ⟨rfl, rfl, rfl, rfl⟩,
      .inl (hown (by rw [hphase]; nofun))⟩

theorem Standstill.happens (hn : m.Numbered) (hm : m.Happens h m') (hline : h.isLine = false)
    (hs : ∀ p, m.process? = some p → Standstill m₀ p₀ request m p) (hp' : m'.process? = some p') :
    Standstill m₀ p₀ request m' p' := by
  have hk := hn.keyed
  have hothers {world : World} (hown : world.own? m.pid = m.world.own? m.pid)
      (hp' : world.process? m.pid = some p') : Standstill m₀ p₀ request { m with world } p' := by
    obtain ⟨p, hp, hown⟩ := World.exists_of_own?_eq hown hp'
    exact (hs p hp).of_still (still_own rfl hown)
  cases hm with
  | line text hrest => cases hline
  | works hw =>
    obtain ⟨p, hp, -⟩ := hw.follows hk hn.known hp'
    rcases step_still_or_settles hk hp (hs p hp).owes with hstill | hsettles
    · exact (hs p hp).of_still (hstill p' hp')
    · exact (hs p hp).of_settles hk hp hsettles hp'
  | @refused e p s hp hrefused =>
    have howes : (m.current p).Owes request := (hs p hp).owes.congr rfl rfl
    rw [howes.refused?_eq] at hrefused
    cases hrefused
  | turn hpid => exact hothers (World.untouched_step hk hpid hn.known).own hp'
  | sent pid n => exact hothers ((World.leavesAll_raise hk pid n).own m.pid trivial) hp'
  | passes clock => exact hothers rfl hp'

theorem Standstill.begin {line : Bytes} (hp : m.process? = some p)
    (hline : ¬LaunchesJob (Request.ofLine line)) (hp' : (m.begin line).process? = some p') :
    Standstill m p (Request.ofLine line) (m.begin line) p' := by
  obtain rfl := Option.some.inj (hp.symm.trans hp')
  exact ⟨Shell.owes_begin hline m.shell, ⟨rfl, rfl, rfl, rfl⟩, .inl rfl⟩

theorem Standstill.course? {evs : List Happening} (hn : m.Numbered)
    (hs : ∀ p, m.process? = some p → Standstill m₀ p₀ request m p)
    (hevs : ∀ h ∈ evs, h.isLine = false) (hcourse : m.course? evs = some m') :
    m'.Numbered ∧ ∀ p', m'.process? = some p' → Standstill m₀ p₀ request m' p' := by
  refine course?_induction (P := fun m => m.Numbered ∧ ∀ p, m.process? = some p →
    Standstill m₀ p₀ request m p) (fun m m' h hmem hi hm => ?_) ⟨hn, hs⟩ hcourse
  have hhappens := happens_of_happen? hi.1.keyed hm
  exact ⟨hi.1.happens hhappens, fun p' => happens hi.1 hhappens (hevs h hmem) hi.2⟩

/-- No process is made for a line that launches nothing. -/
theorem nextPid_step (hk : m.world.Keyed) (howes : m.shell.Owes request) :
    m.step.1.world.nextPid = m.world.nextPid := by
  by_contra hnew
  obtain ⟨p, pipeline, next, -, hneed, -⟩ := (works_step hk).forks_of_nextPid hk hnew
  obtain ⟨-, job, hphase, -⟩ := Shell.fork_of_need hneed
  have hphase : m.shell.phase = .guarded job := hphase
  cases howes with
  | nothing hp | print hp | change hp => cases hphase.symm.trans hp

/-- What a line that launches nothing leaves as it was, wherever it has got to. -/
structure LeavesBe (m₀ : Machine) (p₀ : Process) (request : Except LineError Request)
    (m : Machine) (p : Process) : Prop where
  lastStatus : m.shell.lastStatus = m₀.shell.lastStatus
  foreground : m.shell.tracker.foreground = m₀.shell.tracker.foreground
  /-- No signal is held back that was not, SIGCHLD included. -/
  blocked : p.signals.blocked = p₀.signals.blocked
  descriptors : p.descriptors = p₀.descriptors
  /-- The directory changes only in `cd`, and if that succeeds. -/
  directory : p.directory = p₀.directory ∨
    ∃ target path, request = .ok (.builtin (.cd target)) ∧
      m₀.shell.destination target = some path ∧ 0 ∉ path ∧ path ≠ [] ∧
      m.shell.phase = .finished .next
  /-- The interpreter makes no process. -/
  nextPid : m.step.1.world.nextPid = m.world.nextPid
  /-- The next step is one of the line, unless a signal is taken or a handler runs. -/
  settles : m.shell.handlers = [] → m.takeSignal? p = none → m.Settles p request m.step.1 ∧
    m.step.1.shell.tracker = m.shell.tracker ∧
    (request ≠ .ok (.builtin .status) → m.step.1.world.tree = m.world.tree ∧
      m.step.1.world.files = m.world.files ∧ m.step.1.world.pipes = m.world.pipes)

theorem leavesBe_of_course? {line : Bytes} {evs : List Happening} (hn : m.Numbered)
    (hp : m.process? = some p) (hline : ¬LaunchesJob (Request.ofLine line))
    (hevs : ∀ h ∈ evs, h.isLine = false) (hcourse : (m.begin line).course? evs = some m')
    (hp' : m'.process? = some p') : m.LeavesBe p (Request.ofLine line) m' p' := by
  have hbegin (q : Process) (hq : (m.begin line).process? = some q) :
      Standstill m p (Request.ofLine line) (m.begin line) q := .begin hp hline hq
  obtain ⟨hn', hstill⟩ := Standstill.course? (m := m.begin line) ⟨hn.keyed, hn.known⟩ hbegin hevs
    hcourse
  have hs := hstill p' hp'
  refine ⟨hs.stays.lastStatus, hs.stays.foreground, congrArg (·.blocked) hs.stays.settings, ?_, ?_,
    nextPid_step hn'.keyed hs.owes, fun h0 hsignal => ?_⟩
  · rcases hs.own with hown | ⟨_, _, _, -, -, -, -, -, hown⟩
    · exact congrArg (·.descriptors) hown
    · exact congrArg (·.descriptors) hown
  · rcases hs.own with hown | ⟨target, path, _, hreq, hpath, hnul, hne, hphase, -⟩
    · exact .inl (congrArg (·.directory) hown)
    · exact .inr ⟨target, path, hreq, hpath, hnul, hne, hphase⟩
  · have hsettles : m'.Settles p' (Request.ofLine line) m'.step.1 := by
      unfold step
      rw [hp']
      dsimp only
      split
      · exact .stands
      · rw [hsignal]
        exact settles_act h0 hs.owes
    exact ⟨hsettles, hsettles.tracker_eq, hsettles.files_eq⟩

end Machine

end JobShell
