import JobShell.Proofs.Chronicle.Unwritten
import JobShell.Proofs.Isolation.Teams

/-!
# A background job and its number

* `Phase.Backgrounds`: the line of a background job is being carried out, or is over.
  `Shell.backgrounds_of_leads`: the last status stays as it was, and there is no foreground job.
* `Chronicle.Heedless`: in a session, what fails to be written costs no job.
* `Machine.Printed`: what an attempt to print the number of a background job leaves.
* `Machine.loses_no_job`: so it is in every session, and whatever happens to such a job.
-/

namespace JobShell

/-- The line of this background job is being carried out, or is over. -/
def Phase.Backgrounds (job : Job) : Phase → Prop
  | launching j | guarded j | forked j _ | grouped j _ | noted j _ => j = job
  | announcing _ | finished _ => True
  | _ => False

namespace Shell

variable {s t : Shell} {job : Job} {ev : Event}

/-- A step of the line of a background job leaves the last status. -/
theorem backgrounds_of_leads (hbg : job.background = true) (hp : s.phase.Backgrounds job)
    (ht : s.need.Leads t) : t.phase.Backgrounds job ∧ t.lastStatus = s.lastStatus := by
  unfold need at ht
  split at ht
  · cases advances_of_leads ht with
    | hold hphase | fork _ hphase | group hphase | note hphase =>
      rw [hphase] at hp
      exact ⟨hp, rfl⟩
    | unhold hphase =>
      rw [hphase] at hp
      obtain rfl : _ = job := hp
      rw [hbg]
      exact ⟨trivial, rfl⟩
    | announce r => exact ⟨trivial, rfl⟩
    | print _ hphase | change _ hphase | orphan hphase | await hphase | clear hphase
    | sweep hphase | pass hphase | conclude hphase =>
      rw [hphase] at hp
      exact hp.elim
  · rw [phase_of_handlerNeed ht]
    exact ⟨hp, (stays_of_handlerNeed ht).lastStatus⟩

/-- There is no foreground job then. -/
theorem foreground_of_backgrounds (hc : Controlled s) (hbg : job.background = true)
    (hp : s.phase.Backgrounds job) : s.tracker.foreground = none := by
  have hslots := hc.slots
  generalize s.phase = phase at hp hslots
  cases phase with
  | launching | guarded | forked | grouped | announcing | finished => exact hslots
  | noted j pid =>
    obtain rfl : j = job := hp
    rw [show (Phase.noted j pid).standing = .guarded from if_pos hbg] at hslots
    exact hslots
  | _ => exact hp.elim

theorem lastStatus_taken (h : s.next? .taken = some t) : t.lastStatus = s.lastStatus := by
  rcases Option.or_eq_some_iff.1 h with h | ⟨-, h⟩
  · obtain ⟨n, -, rfl⟩ := Option.map_eq_some_iff.1 h
    rfl
  · unfold discard? at h
    split at h
    · split at h
      · cases h
      · split at h <;> cases h
        rfl
    · cases h

/-- Whatever comes next is a line, a step that the interpreter needs, or nothing to its line. -/
theorem leads_of_next? (h : s.next? ev = some t) :
    (∃ text, ev = .line text) ∨ s.need.Leads t ∨
      t.phase = s.phase ∧ t.lastStatus = s.lastStatus := by
  cases ev with
  | line text => exact .inl ⟨text, rfl⟩
  | move =>
    simp only [next?] at h
    split at h <;> rename_i hneed <;> cases h <;> exact .inr (.inl (by rw [hneed]; rfl))
  | forked pid =>
    simp only [next?] at h
    split at h
    · rename_i hneed
      split at h <;> cases h
      exact .inr (.inl (by rw [hneed]; exact ⟨pid, rfl⟩))
    · cases h
  | answered r =>
    simp only [next?] at h
    split at h <;> rename_i hneed <;> cases h <;>
      exact .inr (.inl (by rw [hneed]; exact ⟨r, rfl⟩))
  | told text r =>
    simp only [next?] at h
    split at h <;> cases h
    exact .inr (.inr ⟨rfl, rfl⟩)
  | ended pid e =>
    simp only [next?] at h
    split at h <;> cases h
    exact .inr (.inr ⟨rfl, rfl⟩)
  | raised n =>
    cases h
    exact .inr (.inr ⟨rfl, rfl⟩)
  | taken =>
    exact .inr (.inr ⟨phase_taken h, lastStatus_taken h⟩)

end Shell

/-! ## Sessions -/

namespace Chronicle

variable {c c' d : Chronicle} {evs evs' later : List Event} {job : Job} {ev : Event}

/-- Until the next line, the line of a background job leaves the last status. -/
theorem backgrounds_of_run (hbg : job.background = true) (hp : c.shell.phase.Backgrounds job)
    (hlater : ∀ text, .line text ∉ later) (h : c.run later = some c') :
    c'.shell.phase.Backgrounds job ∧ c'.shell.lastStatus = c.shell.lastStatus := by
  induction later generalizing c with
  | nil =>
    obtain rfl := Option.some.inj h
    exact ⟨hp, rfl⟩
  | cons ev later ih =>
    obtain ⟨d, hd, hrest⟩ := Option.bind_eq_some_iff.1 h
    obtain ⟨t, ht, rfl⟩ := Option.map_eq_some_iff.1 hd
    have hkept : t.phase.Backgrounds job ∧ t.lastStatus = c.shell.lastStatus := by
      rcases Shell.leads_of_next? ht with ⟨text, rfl⟩ | hlead | ⟨hphase, hlast⟩
      · exact absurd List.mem_cons_self (hlater text)
      · exact Shell.backgrounds_of_leads hbg hp hlead
      · exact ⟨hphase ▸ hp, hlast⟩
    have hno (text : Bytes) : .line text ∉ later := fun hmem =>
      hlater text (List.mem_cons_of_mem _ hmem)
    obtain ⟨hphase, hlast⟩ := ih hkept.1 hno hrest
    exact ⟨hphase, hlast.trans hkept.2⟩

/-- What output that fails comes to in a session that has come so far. -/
structure Heedless (c₀ : Chronicle) (evs : List Event) (c : Chronicle) : Prop where
  /-- A background job is counted when it is noted. -/
  counted : ∀ job pid, c.shell.handlers = [] → c.shell.phase = .grouped job pid →
    job.background = true → ∃ c', c.next? .move = some c' ∧ c'.shell.phase = .noted job pid ∧
      c'.shell.tracker.background = c.shell.tracker.background + 1
  /-- It is in the ledger before its number is written. -/
  ledger : ∀ pid, c.shell.phase.announced? = some pid → ∃ j ∈ c.jobs, j.IsCounted pid
  /-- An attempt to print a number or the last status leaves all but the result of the line and what
  standard output keeps, and the next line can be given. -/
  attempt : ∀ r line, c.shell.handlers = [] →
    c.shell.phase.line? c.shell.lastStatus = some line → ∃ c', c.Unwritten line r c'
  /-- The line of a background job leaves the last status, and there is no foreground job before it or
  after it. -/
  line : ∀ text job later c', Request.ofLine text = .ok (.launch job) → job.background = true →
    (∀ t, .line t ∉ later) → c.run (.line text :: later) = some c' →
      c'.shell.lastStatus = c.shell.lastStatus ∧ c.shell.tracker.foreground = none ∧
        c'.shell.tracker.foreground = none
  /-- Where other writes fail, all else happens in the same way, and comes to the same. -/
  runs : ∀ evs', c₀.Reworded evs evs' → ∀ n, ∃ c₁ d₁, c₀.run (evs.take n) = some c₁ ∧
    c₀.run (evs'.take n) = some d₁ ∧ c₁.Agrees d₁

theorem heedless_of_run {handlers : Bool} {home : Option Bytes}
    (h : (start handlers home).run evs = some c) : Heedless (start handlers home) evs c := by
  have hk : Kept c := run_induction (fun _ _ hc hs => hc.step hs) (.start handlers home) h
  refine ⟨fun job pid h0 hp hbg => background_note h0 hp hbg, announced_of_run h,
    fun r line h0 hp => exists_unwritten h0 hp r, fun text job later c' hline hbg hlater hrun => ?_,
    fun evs' hevs n => ?_⟩
  · obtain ⟨c₁, hfirst, hrest⟩ := Option.bind_eq_some_iff.1 hrun
    obtain ⟨t, ht, rfl⟩ := Option.map_eq_some_iff.1 hfirst
    have hk' := run_induction (fun _ _ hc hs => hc.step hs) (hk.step (step_of_next? hfirst)) hrest
    simp only [Shell.next?] at ht
    split at ht
    · rename_i r hneed
      cases ht
      have hphase : (c.shell.begin text).phase.Backgrounds job := by
        show (c.shell.phaseOf (Request.ofLine text)).Backgrounds job
        rw [hline]
        rfl
      obtain ⟨hphase', hlast⟩ := backgrounds_of_run hbg hphase hlater hrest
      have hslots := hk.controlled.slots
      rw [Shell.standing_of_rest hneed] at hslots
      exact ⟨hlast, hslots, Shell.foreground_of_backgrounds hk'.controlled hbg hphase'⟩
    · cases ht
  · exact agrees_of_reworded (hevs.take n) ⟨.refl _, rfl⟩

end Chronicle

/-! ## Machines -/

namespace Machine

variable {m m' m₀ m₁ m₂ : Machine} {p p₂ : Process} {i : Incident} {is pre : List Incident}
  {leader : Pid} {job : Job} {line : Bytes} {e : Errno} {r : Except Errno Nat}

theorem Works.backgrounds (hw : m.Works m') (hbg : job.background = true)
    (hp : m.shell.phase.Backgrounds job) :
    m'.shell.phase.Backgrounds job ∧ m'.shell.lastStatus = m.shell.lastStatus := by
  have hleads {p : Process} (hlead : (m.current p).need.Leads m'.shell) :=
    Shell.backgrounds_of_leads (s := m.current p) hbg hp hlead
  cases hw with
  | stands | suffers | ends => exact ⟨hp, rfl⟩
  | takes hq hs =>
    obtain ⟨n, -, rfl⟩ := Option.map_eq_some_iff.1 hs
    exact ⟨hp, rfl⟩
  | moves hq hneed => exact hleads (by rw [hneed]; rfl)
  | forks hq hneed => exact hleads (by rw [hneed]; exact ⟨_, rfl⟩)
  | acts hq ha hw => exact hleads ha.leads
  | changes hq hneed hw => exact hleads (by rw [hneed]; exact ⟨_, rfl⟩)

theorem Meets.backgrounds (hm : m.Meets i m') (hbg : job.background = true)
    (hline : i.isLine = false) (hp : m.shell.phase.Backgrounds job) :
    m'.shell.phase.Backgrounds job ∧ m'.shell.lastStatus = m.shell.lastStatus := by
  cases hm with
  | denied => exact ⟨hp, rfl⟩
  | happens hm =>
    cases hm with
    | line => cases hline
    | works hw => exact hw.backgrounds hbg hp
    | @refused e q s hq hs =>
      have hs : (m.current q).refused? e = some s := hs
      unfold Shell.refused? at hs
      split at hs <;> cases hs <;> exact ⟨trivial, rfl⟩
    | turn | sent | passes => exact ⟨hp, rfl⟩

theorem backgrounds_of_meets? (hk : m.Kindred) (hbg : job.background = true)
    (his : ∀ i ∈ is, i.isLine = false) (hp : m.shell.phase.Backgrounds job)
    (h : m.meets? is = some m') :
    m'.shell.phase.Backgrounds job ∧ m'.shell.lastStatus = m.shell.lastStatus := by
  refine meets?_induction (P := fun is m' => (∀ i ∈ is, i.isLine = false) →
    m'.Kindred ∧ m'.shell.phase.Backgrounds job ∧ m'.shell.lastStatus = m.shell.lastStatus)
    (fun _ => ⟨hk, hp, rfl⟩) ?_ h his |>.2
  intro is i m₁ m₂ _ hm₁ hm his
  rw [List.forall_mem_append] at his
  obtain ⟨hk₁, hphase, hlast⟩ := hm₁ his.1
  have hmeets := meets_of_meet? hk₁.keyed hm
  obtain ⟨hphase', hlast'⟩ := hmeets.backgrounds hbg (his.2 i List.mem_cons_self) hphase
  exact ⟨hmeets.kindred hk₁, hphase', hlast'.trans hlast⟩

/-- The interpreter is next to print what its line is over with, and the system answers `r`. -/
structure Prints (m : Machine) (r : Except Errno Nat) : Prop where
  idle : m.shell.handlers = []
  writes : ∃ p text next w, m.process? = some p ∧ p.stopped = false ∧ m.takeSignal? p = none ∧
    (m.current p).need = .write text next ∧ m.world.write p 1 text = .done w r

/-- What the process of the interpreter is to write fails so. -/
def failsWith (m : Machine) (p : Process) (e : Errno) : Bool :=
  match (m.current p).need with
  | .write text _ => match m.world.write p 1 text with
    | .done _ (.error e') => e' = e
    | _ => false
  | _ => false

/-- Whether the interpreter is next to print, and cannot. -/
def isMuted (m : Machine) (e : Errno) : Bool :=
  m.shell.handlers.isEmpty && m.process?.any fun p =>
    !p.stopped && (m.takeSignal? p).isNone && m.failsWith p e

theorem exists_of_failsWith (h : m.failsWith p e) : ∃ text next w,
    (m.current p).need = .write text next ∧ m.world.write p 1 text = .done w (.error e) := by
  unfold failsWith at h
  split at h
  · rename_i text next hneed
    split at h
    · rename_i w e' hfails
      obtain rfl := of_decide_eq_true h
      exact ⟨text, next, w, hneed, hfails⟩
    · cases h
  · cases h

theorem prints_of_isMuted (h : m.isMuted e) : m.Prints (.error e) := by
  obtain ⟨hidle, hall⟩ := Bool.and_eq_true_iff.1 h
  obtain ⟨p, hp, hall⟩ := Option.any_eq_true _ _ |>.1 hall
  obtain ⟨hall, hfails⟩ := Bool.and_eq_true_iff.1 hall
  obtain ⟨hgoes, hnone⟩ := Bool.and_eq_true_iff.1 hall
  obtain ⟨text, next, w, hneed, hwrite⟩ := exists_of_failsWith hfails
  exact ⟨List.isEmpty_iff.1 hidle, p, text, next, w, hp, Bool.not_eq_eq_eq_not.1 hgoes,
    Option.isNone_iff_eq_none.1 hnone, hneed, hwrite⟩

/-- What there is after an attempt to print the number of a background job: `m` was given the line,
`m₁` had forked the leader, `is` happened until `m₂`, and then the system answered `r`. -/
structure Printed (m : Machine) (job : Job) (leader : Pid) (m₁ : Machine) (is : List Incident)
    (m₂ : Machine) (r : Except Errno Nat) : Prop where
  result : m₂.step.1.shell.phase = .finished (.ofWrite (r.map fun _ => ()))
  /-- A failure is the result of the line. Without a descriptor that is open for writing the attempt
  does not count as one that fails. -/
  failed : ∀ e, r = .error e → e ≠ .EBADF →
    m₂.step.1.shell.phase = .finished (.failed (.output (.system e)))
  lastStatus : m₂.step.1.shell.lastStatus = m.shell.lastStatus
  slot : m.shell.tracker.foreground = none ∧ m₂.step.1.shell.tracker.foreground = none
  /-- The number may come out later, with what else is kept. -/
  kept : m₂.step.1.shell.kept =
    Output.left m₂.shell.kept (Shell.lineOf (toString leader)) (r.map fun _ => ())
  /-- The job is counted, whatever other jobs have been released. -/
  count : m₂.step.1.shell.tracker.background + m₁.released is = m₁.shell.tracker.background + 1
  /-- It has been started, in a group of its own. -/
  team : m₁.Teamed m.env job.pipeline leader (is ++ [.happens .works]) m₂.step.1
  /-- All is as it was before the line, and whatever line is next is taken up. -/
  next : ∃ p', m₂.step.1.process? = some p' ∧ m₂.step.1.Settled p' ∧
    ∀ text, m₂.step.1.meet? (.happens (.line text)) = some (m₂.step.1.begin text)

theorem Unmoved.nil (m : Machine) (leader : Pid) : m.Unmoved leader [] := by
  intro pre i post m₁ heq
  cases List.nil_eq_append_iff.1 heq |>.2

/-- The steps of the interpreter itself are not meant. -/
theorem Unmoved.works (h : m.Unmoved leader is) : m.Unmoved leader (is ++ [.happens .works]) := by
  intro pre i post m₁ heq hpre
  rcases List.eq_nil_or_concat post with rfl | ⟨post, j, rfl⟩
  · obtain ⟨rfl, hlast⟩ := List.append_inj' heq rfl
    obtain rfl := (List.cons.inj hlast).1
    intro r group hmove
    cases hmove
  · refine h pre i post m₁ ?_ hpre
    have heq' : is ++ [.happens .works] = (pre ++ i :: post) ++ [j] := by
      rw [heq, List.append_assoc]
      simp
    exact (List.append_inj' heq' rfl).1

/-- The line is over with the attempt. -/
theorem Attended.prints {ds : Doings} (ha : m₀.Attended p₀ job leader ds m) (hprints : m.Prints r) :
    m.shell.phase = .announcing leader ∧ ∃ p p', m.process? = some p ∧
      m.step.1.process? = some p' ∧ m.step.1.shell =
        (m.current p).written (Shell.lineOf (toString leader)) (r.map fun _ => ()) := by
  obtain ⟨p, text, next, w, hp, hgoes, hnone, hneed, hwrite⟩ := hprints.writes
  have hcarries := (ha.attends p hp).carries
  have hphase : m.shell.phase = .announcing leader ∧
      next = (m.current p).written (Shell.lineOf (toString leader)) := by
    rcases Shell.write_of_need hneed with ⟨-, line, hline, -, hnext⟩ | ⟨rest, hh, -⟩
    · rcases Phase.of_line? hline with ⟨pid, hphase⟩ | hphase <;> rw [hphase] at hcarries hline
      · obtain ⟨-, rfl⟩ := hcarries
        obtain rfl := Option.some.inj hline
        exact ⟨hphase, hnext⟩
      · exact hcarries.elim
    · cases hh.symm.trans hprints.idle
  obtain ⟨hphase, rfl⟩ := hphase
  have hstep : m.step.1 = m.after w
      ((m.current p).written (Shell.lineOf (toString leader)) (r.map fun _ => ())) := by
    unfold step act
    rw [hp]
    dsimp only
    rw [hgoes, hnone, hneed]
    dsimp only
    rw [hwrite, if_neg (by decide)]
  have hk := ha.kindred.keyed
  have hpid : p.pid = m.pid := hk.pid_eq hp
  have hself : m.world.process? p.pid = some p := by rw [hpid]; exact hp
  have heffect := World.effect_write (w := m.world) (p := p) 1 text
  rw [hwrite] at heffect
  have hakin : m.world.Akin w p.pid := World.Effect.akin heffect hk hself
  rw [hpid] at hakin
  obtain ⟨p', hp'⟩ := hakin.exists hp
  rw [hstep]
  exact ⟨hphase, p, p', hp, hp', rfl⟩

/-- From the line of a background job on until the next one, the last status stays as it was. -/
theorem Settled.backgrounds (hm : m.Settled p) (hline : Request.ofLine line = .ok (.launch job))
    (hbg : job.background = true) (hpre : ∀ i ∈ pre, i.isLine = false)
    (hreach : (m.begin line).meets? pre = some m₁) (his : ∀ i ∈ is, i.isLine = false)
    (hcourse : m₁.step.1.meets? is = some m₂) :
    m₂.shell.phase.Backgrounds job ∧ m₂.shell.lastStatus = m.shell.lastStatus := by
  have hbegin := hm.served hline
  have hserved := hbegin.course hm.heeds hpre hreach
  have hworks : m₁.Works m₁.step.1 := works_step hserved.kindred.keyed
  have hstart : (m.begin line).shell.phase.Backgrounds job := by
    show (m.shell.phaseOf (Request.ofLine line)).Backgrounds job
    rw [hline]
    rfl
  obtain ⟨hph₁, hlast₁⟩ := backgrounds_of_meets? hbegin.kindred hbg hpre hstart hreach
  obtain ⟨hph, hlast⟩ := hworks.backgrounds hbg hph₁
  have hkindred := (hserved.meets (.happens (.works hworks)) rfl hm.heeds).kindred
  obtain ⟨hph₂, hlast₂⟩ := backgrounds_of_meets? hkindred hbg his hph hcourse
  exact ⟨hph₂, hlast₂.trans (hlast.trans hlast₁)⟩

/-- Between lines, with SIGCHLD let through and no foreground job, the interpreter is given the line
of a background job; whatever happens before it forks the leader, and then until it prints the number
of the leader, the job is launched however the attempt goes. -/
theorem Settled.printed (hm : m.Settled p) (hline : Request.ofLine line = .ok (.launch job))
    (hbg : job.background = true) (hpre : ∀ i ∈ pre, i.isLine = false)
    (hreach : (m.begin line).meets? pre = some m₁)
    (hfork : m₁.step.1.world.nextPid ≠ m₁.world.nextPid)
    (hnew : ∀ r q, m₁.world.process? r = some q → q.group ≠ m₁.world.nextPid)
    (his : ∀ i ∈ is, i.isLine = false) (hcourse : m₁.step.1.meets? is = some m₂)
    (hun : m₁.step.1.Unmoved m₁.world.nextPid is) (hprints : m₂.Prints r) :
    m.Printed job m₁.world.nextPid m₁.step.1 is m₂ r := by
  have hbegin := hm.served hline
  have hserved := hbegin.course hm.heeds hpre hreach
  have hworks : m₁.Works m₁.step.1 := works_step hserved.kindred.keyed
  have hattended := hserved.attended (.works hworks) hm.heeds hfork
  obtain ⟨hat, hcount⟩ := hattended.course hm.heeds his hcourse
  obtain ⟨hphase, p₂, p', hp₂, hp', hshell⟩ := hat.prints hprints
  have hmeets : m₂.Meets (.happens .works) m₂.step.1 :=
    .happens (.works (works_step hat.kindred.keyed))
  have hafter : m₁.step.1.meets? (is ++ [.happens .works]) = some m₂.step.1 := by
    rw [meets?_concat, hcourse]
    rfl
  obtain ⟨hph₂, hlast₂⟩ := hm.backgrounds hline hbg hpre hreach his hcourse
  have hslot : (m₂.current p₂).tracker.foreground = none :=
    Shell.foreground_of_backgrounds (hat.attends p₂ hp₂).controlled hbg hph₂
  have hbefore : m₁.step.1.shell.phase.counted job = 0 := by
    obtain ⟨-, -, -, hforked, -⟩ := hserved.forks hworks hfork
    rw [hforked]
    rfl
  have hnoted : m₂.shell.phase.counted job = 1 := by
    rw [hphase]
    exact if_pos hbg
  rw [hbefore, hnoted] at hcount
  have hrest : (m₂.step.1.current p').need = .rest (.ofWrite (r.map fun _ => ())) :=
    Shell.need_of_finished (by rw [current, hshell]; exact hprints.idle)
      (by rw [current, hshell]; rfl)
  obtain ⟨hsettled, -⟩ := (hat.served.meets hmeets rfl hm.heeds).settled hm hp' hrest
  refine ⟨by rw [hshell]; rfl, ?_, ?_, ⟨hm.free, by rw [hshell]; exact hslot⟩,
    by rw [hshell]; rfl, ?_, ?_, ⟨p', hp', hsettled, hsettled.begins⟩⟩
  · rintro e rfl hopen
    rw [hshell]
    exact congrArg Phase.finished (if_neg hopen)
  · rw [hshell]
    exact hlast₂
  · rw [hshell]
    exact hcount
  · rw [← show m₁.env = m.env from (env_eq_of_meets? hbegin.kindred hreach).2]
    exact hserved.teamed (Request.wellFormed_of_launch hline).1 hm.heeds hfork hnew hafter hun.works

/-- In every session: a background job is counted and in the ledger before its number is printed; no
attempt to print a number or the last status changes anything but the result of the line and what
standard output keeps; and where other attempts fail, all jobs fare the same. And whatever happens to a
background job until its number is printed, and whether or not the number can be, the job has been
started and counted, and goes on. -/
theorem loses_no_job :
    (∀ (handlers : Bool) (home : Option Bytes) (evs : List Event) (c : Chronicle),
      (Chronicle.start handlers home).run evs = some c →
        Chronicle.Heedless (.start handlers home) evs c) ∧
    ∀ (m m₁ m₂ : Machine) (p : Process) (line : Bytes) (job : Job) (pre is : List Incident)
      (r : Except Errno Nat), m.Settled p → Request.ofLine line = .ok (.launch job) →
      job.background = true → (∀ i ∈ pre, i.isLine = false) →
      (m.begin line).meets? pre = some m₁ → m₁.step.1.world.nextPid ≠ m₁.world.nextPid →
      (∀ r q, m₁.world.process? r = some q → q.group ≠ m₁.world.nextPid) →
      (∀ i ∈ is, i.isLine = false) → m₁.step.1.meets? is = some m₂ →
      m₁.step.1.Unmoved m₁.world.nextPid is → m₂.Prints r →
        m.Printed job m₁.world.nextPid m₁.step.1 is m₂ r :=
  ⟨fun _ _ _ _ => Chronicle.heedless_of_run,
    fun _ _ _ _ _ _ _ _ _ hm hline hbg hpre hreach hfork hnew his hcourse hun hprints =>
      hm.printed hline hbg hpre hreach hfork hnew his hcourse hun hprints⟩

/-- A background job is launched, the last status asked for, and the job ends; both writes are
answered. -/
def mutedEvents (r : Except Errno Unit) : List Event :=
  Event.launch (Bytes.ofString "a &") 5 ++
    ([.answered r, .line (Bytes.ofString "status"), .answered r] ++
      ([.ended 5 (.exited 0), .taken] ++ List.replicate 5 .move))

theorem reworded_mutedEvents :
    ((Chronicle.start true none).run (mutedEvents (.ok ()))).map (fun c =>
      (c.jobs.map JobRecord.collectors, c.shell.tracker.background)) = some ([[.handler]], 0) ∧
    (Chronicle.start true none).Reworded (mutedEvents (.ok ()))
      (mutedEvents (.error .EPIPE)) := by
  have hends : ((Chronicle.start true none).run (mutedEvents (.ok ()))).map (fun c =>
      (c.jobs.map JobRecord.collectors, c.shell.tracker.background)) =
        some ([[.handler]], 0) := by decide +kernel
  have hfirst : ((Chronicle.start true none).run (Event.launch (Bytes.ofString "a &") 5)).any
      (fun c => c.shell.handlers.isEmpty && (c.shell.phase.line? c.shell.lastStatus).isSome) := by
    decide +kernel
  have hthird : ((Chronicle.start true none).run (Event.launch (Bytes.ofString "a &") 5 ++
      [.answered (.ok ()), .line (Bytes.ofString "status")])).any
      (fun c => c.shell.handlers.isEmpty && (c.shell.phase.line? c.shell.lastStatus).isSome) := by
    decide +kernel
  refine ⟨hends, ?_⟩
  obtain ⟨c, hrun, -⟩ := Option.map_eq_some_iff.1 hends
  rw [mutedEvents, Chronicle.run_append] at hrun
  obtain ⟨c₁, hc₁, hrun⟩ := Option.bind_eq_some_iff.1 hrun
  obtain ⟨c₂, hc₂, hrun⟩ := Option.bind_eq_some_iff.1 hrun
  obtain ⟨c₃, hc₃, hrun⟩ := Option.bind_eq_some_iff.1 hrun
  obtain ⟨c₄, hc₄, hrun⟩ := Option.bind_eq_some_iff.1 hrun
  rw [hc₁] at hfirst
  rw [Chronicle.run_append, hc₁, Option.bind_some, Chronicle.run, hc₂, Option.bind_some,
    Chronicle.run, hc₃] at hthird
  obtain ⟨hidle, hsome⟩ := Bool.and_eq_true_iff.1 hfirst
  obtain ⟨line, hline⟩ := Option.isSome_iff_exists.1 hsome
  have hneed := Shell.need_of_line? (List.isEmpty_iff.1 hidle) hline
  obtain ⟨hidle₃, hsome₃⟩ := Bool.and_eq_true_iff.1 hthird
  obtain ⟨line₃, hline₃⟩ := Option.isSome_iff_exists.1 hsome₃
  have hneed₃ := Shell.need_of_line? (List.isEmpty_iff.1 hidle₃) hline₃
  exact .after hc₁ (.cons (.write hneed _ _) hc₂ (.cons (.same _) hc₃
    (.cons (.write hneed₃ _ _) hc₄ (.of_run hrun))))

/-- Nobody reads what the interpreter writes. -/
def mutedMachine : Machine :=
  { spareMachine with
    world := spareMachine.world.setFile 2 { object := .writeEnd 1, writable := true } }

theorem settled_mutedMachine : ∃ p, mutedMachine.Settled p := by
  obtain ⟨p, hm⟩ := settled_spareMachine
  have hk := hm.kindred
  exact ⟨p, ⟨⟨⟨hk.keyed, hk.known⟩, hk.positive, hk.given, hk.registered⟩, hm.process, hm.resting,
    hm.unheld, hm.free, hm.handled, hm.heeds⟩⟩

def mutedLine : Bytes := Bytes.ofString "/a &"

/-- The interpreter is about to fork the leader. -/
def mutedStart : Machine := (mutedMachine.begin mutedLine).step.1

/-- Then it is about to write. -/
def mutedCourse : List Incident := List.replicate 3 (.happens .works)

theorem prints_mutedMachine : ∃ m₂, mutedStart.step.1.meets? mutedCourse = some m₂ ∧
    m₂.Prints (.error .EPIPE) := by
  have hrun : (mutedStart.step.1.meets? mutedCourse).any (isMuted · .EPIPE) := by decide +kernel
  obtain ⟨m₂, hcourse, hmuted⟩ := Option.any_eq_true _ _ |>.1 hrun
  exact ⟨m₂, hcourse, prints_of_isMuted hmuted⟩

theorem loses_no_job_mutedLine :
    (∃ c d, (Chronicle.start true none).run (mutedEvents (.ok ())) = some c ∧
      (Chronicle.start true none).run (mutedEvents (.error .EPIPE)) = some d ∧ c.Agrees d ∧
      d.jobs.map JobRecord.collectors = [[.handler]] ∧ d.shell.tracker.background = 0) ∧
    ∃ m₂, mutedStart.step.1.meets? mutedCourse = some m₂ ∧
      mutedMachine.Printed ⟨⟨[["/a"]], none⟩, true⟩ 11 mutedStart.step.1 mutedCourse m₂
        (.error .EPIPE) := by
  constructor
  · obtain ⟨hends, hreworded⟩ := reworded_mutedEvents
    obtain ⟨c, hc, heq⟩ := Option.map_eq_some_iff.1 hends
    obtain ⟨hcollectors, hbackground⟩ := Prod.mk.inj heq
    obtain ⟨c₁, d, hc₁, hd, hagrees⟩ :=
      (loses_no_job.1 true none _ c hc).runs _ hreworded (mutedEvents (.ok ())).length
    rw [List.take_length] at hc₁
    have hlength : (mutedEvents (.ok ())).length = (mutedEvents (.error .EPIPE)).length := rfl
    rw [hlength, List.take_length] at hd
    obtain rfl := Option.some.inj (hc.symm.trans hc₁)
    refine ⟨c, d, hc, hd, hagrees, ?_, ?_⟩
    · rw [hagrees.jobs]
      exact hcollectors
    · rw [hagrees.shell.rest]
      exact hbackground
  · obtain ⟨p, hm⟩ := settled_mutedMachine
    have hline : Request.ofLine mutedLine = .ok (.launch ⟨⟨[["/a"]], none⟩, true⟩) := by
      decide +kernel
    have hreach : (mutedMachine.begin mutedLine).meets? [.happens .works] = some mutedStart := rfl
    have hnext : mutedStart.world.nextPid = 11 := by decide +kernel
    obtain ⟨m₂, hcourse, hprints⟩ := prints_mutedMachine
    have hgroups : mutedStart.world.processes.toList.all (·.2.group ≠ 11) := by decide +kernel
    have hfresh (r : Pid) (q : Process) (hq : mutedStart.world.process? r = some q) :
        q.group ≠ mutedStart.world.nextPid := by
      rw [hnext]
      exact of_decide_eq_true (World.of_all_processes (f := (·.group ≠ 11)) hgroups hq)
    have hun : mutedStart.step.1.Unmoved mutedStart.world.nextPid mutedCourse :=
      ((Unmoved.nil _ _).works).works.works
    have hprinted := loses_no_job.2 mutedMachine mutedStart m₂ p mutedLine _ [.happens .works]
      mutedCourse (.error .EPIPE) hm hline rfl (by decide) hreach (by decide +kernel) hfresh
      (by decide) hcourse hun hprints
    rw [hnext] at hprinted
    exact ⟨m₂, hcourse, hprinted⟩

end Machine

end JobShell
