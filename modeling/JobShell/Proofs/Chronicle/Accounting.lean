import JobShell.Proofs.Chronicle.Ledger

/-!
# The count of background jobs

The count goes up when a background job is noted and down after a pass has collected one with a
status. Between the two a pass is in flight, and the handler's pass may run in the middle of the
line's.

* `Shell.inFlight`: the jobs for which a pass is still to lower the count.
* `Accounted`: the count is the number of outstanding, held and stuck jobs, and the held ones are
  those in flight.
* `Kept`: all that holds in the course of every session.
* `background_eq_of_run`: the count in the course of every session.
-/

namespace JobShell

/-! ## Passes in flight -/

/-- The jobs for which a pass is still to lower the count. -/
def Reap.inFlight : Reap → Nat
  | releasing _ _ => 1
  | start | attempting _ _ => 0

def Handler.inFlight : Handler → Nat
  | reaping pass => pass.inFlight
  | _ => 0

/-- The same for a stack of handlers. -/
@[simp] def Handler.allInFlight : List Handler → Nat
  | [] => 0
  | h :: rest => h.inFlight + allInFlight rest

def Phase.inFlight : Phase → Nat
  | reaping pass _ => pass.inFlight
  | _ => 0

def Shell.inFlight (s : Shell) : Collector → Nat
  | .wait => 0
  | .line => s.phase.inFlight
  | .handler => Handler.allInFlight s.handlers

theorem Phase.Quiet.inFlight_eq {p q : Phase} (h : p.Quiet q) : q.inFlight = p.inFlight := by
  cases h with
  | begun hp hq =>
    rcases hp with rfl | ⟨r, rfl⟩ <;>
      rcases hq with ⟨job, rfl⟩ | ⟨path, rfl⟩ | rfl | ⟨r', rfl, -⟩ <;> rfl
  | concluded hp =>
    obtain rfl := Reap.eq_of_result? hp
    rfl
  | answered hp => rcases hp with ⟨pid, rfl⟩ | ⟨path, rfl⟩ | rfl <;> rfl
  | _ => rfl

theorem Handler.Interrupts.inFlight_eq {t : Tracker} {h h' : Handler} (hi : h.Interrupts t h') :
    h'.inFlight = h.inFlight := by
  cases hi <;> rfl

theorem Handler.Returns.inFlight_eq {t : Tracker} {h : Handler} (hr : h.Returns t) :
    h.inFlight = 0 := by
  cases hr with
  | reaped hp =>
    obtain rfl := Reap.eq_of_result? hp
    rfl
  | _ => rfl

theorem Handler.allInFlight_eq_zero {hs : List Handler} (h : ∀ hd ∈ hs, hd.inFlight = 0) :
    allInFlight hs = 0 := by
  induction hs with
  | nil => rfl
  | cons hd rest ih =>
    rw [allInFlight, h hd List.mem_cons_self, ih fun q hq => h q (List.mem_cons_of_mem _ hq)]

/-- While one pass of the handler is on the stack, there is no other. -/
theorem Controlled.inFlight_rest {s : Shell} (h : Controlled s) {pass : Reap} {rest : List Handler}
    (hh : s.handlers = .reaping pass :: rest) : Handler.allInFlight rest = 0 := by
  have hnodup := h.nodup
  rw [hh, List.map_cons, List.nodup_cons] at hnodup
  refine Handler.allInFlight_eq_zero fun hd hmem => ?_
  cases hd with
  | reaping pass' => exact absurd (List.mem_map_of_mem hmem) hnodup.1
  | _ => rfl

/-! ## Counting records -/

theorem Ending.byRealTime_eq {e : Ending} (he : e.IsPossible) :
    e.byRealTime = match e.status with | .ok _ => false | .error _ => true := by
  cases e with
  | exited code => rfl
  | killed n =>
    obtain ⟨h1, h64⟩ := he
    by_cases hn : n ≤ 31
    · have h32 : ¬32 ≤ n := by omega
      simp [byRealTime, status, Signal.ofNumber?, h1, hn, h32]
    · have h32 : 32 ≤ n := by omega
      simp [byRealTime, status, Signal.ofNumber?, hn, h32, h64]

namespace JobRecord

variable {j : JobRecord}

/-- What a record counts for. -/
def tally (j : JobRecord) : Nat := j.isOutstanding.toNat + j.isHeld.toNat + j.isStuck.toNat

/-- A live record counts only as outstanding. -/
theorem tally_of_live (h : j.isLive) : j.tally = (j.background && j.noted).toNat := by
  simp [tally, isOutstanding, isHeld, isStuck, h]

theorem isHeldBy_of_live (h : j.isLive) (who : Collector) : j.isHeldBy who = false := by
  simp [isHeldBy, isHeld, h]

theorem isHeldBy_le (who : Collector) : j.isHeldBy who → j.isHeld := by
  simp only [isHeldBy, Bool.and_eq_true]
  exact And.left

@[simp] theorem isOutstanding_release (who : Collector) :
    (j.release who).isOutstanding = j.isOutstanding := by
  simp [isOutstanding]

@[simp] theorem isStuck_release (who : Collector) : (j.release who).isStuck = j.isStuck := by
  have : (j.release who).byRealTime = j.byRealTime := by
    unfold release
    split <;> rfl
  simp [isStuck, this]

theorem isHeld_release (who : Collector) :
    (j.release who).isHeld = (j.isHeld && !j.isHeldBy who) := by
  unfold release
  cases h : j.isHeldBy who <;> simp [isHeld]

theorem isHeldBy_release (who w : Collector) :
    (j.release who).isHeldBy w = (j.isHeldBy w && w ≠ who) := by
  have hcol : (j.release who).collectors = j.collectors := by
    unfold release
    split <;> rfl
  unfold isHeldBy
  rw [isHeld_release, hcol]
  by_cases hc : j.collectors = [w]
  · cases hh : j.isHeld <;> simp [isHeldBy, hh, hc, eq_comm]
  · simp [hc]

end JobRecord

namespace Ledger

theorem At.countP_amend {jobs before after : Ledger} {j : JobRecord} (h : jobs.At j before after)
    (f : JobRecord → JobRecord) (p : JobRecord → Bool) :
    (jobs.amend j.leader f).countP p + (p j).toNat = jobs.countP p + (p (f j)).toNat := by
  rw [h.amend_eq, h.eq]
  simp only [List.countP_append, List.countP_cons]
  cases p j <;> cases p (f j) <;> simp [Nat.add_assoc]

theorem countP_isHeld_release (jobs : Ledger) (who : Collector) :
    (jobs.map (·.release who)).countP JobRecord.isHeld + jobs.countP (·.isHeldBy who) =
      jobs.countP JobRecord.isHeld := by
  induction jobs with
  | nil => rfl
  | cons j rest ih =>
    simp only [List.map_cons, List.countP_cons, JobRecord.isHeld_release]
    have := j.isHeldBy_le who
    cases hh : j.isHeld <;> cases hb : j.isHeldBy who <;> simp_all <;> omega

end Ledger

/-! ## The count -/

/-- The count is that of the ledger, and so are the passes in flight. -/
structure Accounted (c : Chronicle) : Prop where
  background : c.shell.tracker.background =
    c.jobs.countP JobRecord.isOutstanding + c.jobs.countP JobRecord.isHeld +
      c.jobs.countP JobRecord.isStuck
  held : ∀ who, c.jobs.countP (·.isHeldBy who) = c.shell.inFlight who

namespace Accounted

variable {c c' : Chronicle}

theorem start (handlers : Bool) (home : Option Bytes) :
    Accounted (Chronicle.start handlers home) where
  background := rfl
  held := by rintro (_ | _ | _) <;> rfl

theorem of_same (h : Accounted c) {s : Shell}
    (hb : s.tracker.background = c.shell.tracker.background)
    (hf : ∀ who, s.inFlight who = c.shell.inFlight who) : Accounted { c with shell := s } where
  background := hb.trans h.background
  held who := (h.held who).trans (hf who).symm

/-- One live job changes, and with it the count and the passes in flight. -/
theorem amend (h : Accounted c) {j : JobRecord} {before after : Ledger}
    (hat : c.jobs.At j before after) {f : JobRecord → JobRecord} {s : Shell}
    (hb : s.tracker.background + j.tally = c.shell.tracker.background + (f j).tally)
    (hf : ∀ who, s.inFlight who = c.shell.inFlight who + ((f j).isHeldBy who).toNat) :
    Accounted { shell := s, jobs := c.jobs.amend j.leader f } := by
  refine ⟨?_, fun who => ?_⟩
  · have h1 := hat.countP_amend f JobRecord.isOutstanding
    have h2 := hat.countP_amend f JobRecord.isHeld
    have h3 := hat.countP_amend f JobRecord.isStuck
    have h0 := h.background
    simp only [JobRecord.tally] at hb ⊢
    omega
  · have h1 := hat.countP_amend f (·.isHeldBy who)
    have h0 := h.held who
    rw [JobRecord.isHeldBy_of_live hat.live who] at h1
    show _ = s.inFlight who
    rw [hf who, ← h0]
    simpa using h1

/-- A pass collects a background job. -/
theorem collect (h : Accounted c) (hk : Booked c) (hst : c.shell.phase.standing = .settled)
    {pid : Pid} {e : Ending} {who : Collector}
    (hc : { pid, ending := some e } ∈ c.shell.children) {s : Shell}
    (hb : s.tracker = c.shell.tracker)
    (hf : ∀ w, s.inFlight w =
      c.shell.inFlight w + (!e.byRealTime && w = who).toNat) :
    Accounted { shell := s, jobs := c.jobs.record (.collected who pid) } := by
  obtain ⟨j, before, after, hat, rfl, hend⟩ := hk.exists_at_of_child hc
  obtain ⟨hbg, hnoted⟩ := hk.live_of_settled hst hat.mem hat.live
  have hrel := (hk.sound j hat.mem).unreleased hat.live
  have hempty : j.collectors = [] := List.isEmpty_iff.1 hat.live
  refine h.amend hat ?_ fun w => ?_
  · rw [JobRecord.tally_of_live hat.live, hbg, hnoted, hb]
    congr 1
    cases hr : e.byRealTime <;>
      simp [JobRecord.tally, JobRecord.isOutstanding, JobRecord.isHeld, JobRecord.isStuck,
        JobRecord.isLive, JobRecord.byRealTime, hend, hempty, hrel, hr]
  · rw [hf w]
    congr 2
    cases hr : e.byRealTime <;>
      simp [JobRecord.isHeldBy, JobRecord.isHeld, JobRecord.isLive, JobRecord.byRealTime, hend,
        hbg, hrel, hempty, hr, eq_comm]

/-- A pass lowers the count for the job it has collected. -/
theorem release (h : Accounted c) {who : Collector} {n : Nat}
    (hb : c.shell.tracker.background = n + 1) (hone : c.shell.inFlight who = 1) {s : Shell}
    (hs : s.tracker.background = n)
    (hf : ∀ w, s.inFlight w = if w = who then 0 else c.shell.inFlight w) :
    Accounted { shell := s, jobs := c.jobs.record (.released who) } := by
  refine ⟨?_, fun w => ?_⟩
  · have h0 := h.background
    have h1 := h.held who
    have h2 := Ledger.countP_isHeld_release c.jobs who
    have h3 : (c.jobs.map (·.release who)).countP JobRecord.isOutstanding =
        c.jobs.countP JobRecord.isOutstanding := by simp [List.countP_map, Function.comp_def]
    have h4 : (c.jobs.map (·.release who)).countP JobRecord.isStuck =
        c.jobs.countP JobRecord.isStuck := by simp [List.countP_map, Function.comp_def]
    simp only [Ledger.record]
    omega
  · have h0 := h.held w
    show _ = s.inFlight w
    rw [hf w]
    simp only [Ledger.record, List.countP_map, Function.comp_def, JobRecord.isHeldBy_release]
    by_cases hw : w = who
    · simp [hw]
    · simpa [hw] using h0

/-- A pass makes a step, of which `f` says what is in flight before and after. -/
theorem pass (h : Accounted c) (hk : Booked c) (hst : c.shell.phase.standing = .settled)
    {who : Collector} {pass pass' : Reap} {t : Tracker} {cs : Children} {d : Deed}
    (hm : Reap.Moves who c.shell.tracker c.shell.children pass pass' t cs d) {s : Shell}
    (ht : s.tracker = t) (hbefore : c.shell.inFlight who = pass.inFlight)
    (hafter : s.inFlight who = pass'.inFlight)
    (hother : ∀ w, w ≠ who → s.inFlight w = c.shell.inFlight w) :
    Accounted { shell := s, jobs := c.jobs.record d } := by
  -- what a pass has in flight changes in its own place only
  have hplace (n : Nat) (hn : pass'.inFlight = pass.inFlight + n) (w : Collector) :
      s.inFlight w = c.shell.inFlight w + if w = who then n else 0 := by
    by_cases hw : w = who
    · subst hw
      rw [hafter, hbefore, hn, if_pos rfl]
    · rw [hother w hw, if_neg hw, Nat.add_zero]
  cases hm with
  | count =>
    refine h.of_same (by rw [ht]) fun w => ?_
    simpa using hplace 0 rfl w
  | miss hcs =>
    refine h.of_same (by rw [ht]) fun w => ?_
    simpa using hplace 0 rfl w
  | @collect left reaped pid e status hc he =>
    obtain ⟨j, before, after, hat, -, hend⟩ := hk.exists_at_of_child hc
    have hrt := Ending.byRealTime_eq ((hk.sound j hat.mem).possible e hend)
    simp only [he] at hrt
    refine h.collect hk hst hc ht fun w => ?_
    rw [hplace 1 rfl w, hrt]
    by_cases hw : w = who <;> simp [hw]
  | @fail left reaped pid e err hc he =>
    obtain ⟨j, before, after, hat, -, hend⟩ := hk.exists_at_of_child hc
    have hrt := Ending.byRealTime_eq ((hk.sound j hat.mem).possible e hend)
    simp only [he] at hrt
    refine h.collect hk hst hc ht fun w => ?_
    rw [hplace 0 rfl w, hrt]
    simp
  | release hb =>
    refine h.release hb hbefore (by rw [ht]) fun w => ?_
    by_cases hw : w = who
    · subst hw
      rw [if_pos rfl]
      exact hafter
    · rw [if_neg hw]
      exact hother w hw
  | underflow hb =>
    -- the count is positive, because a job is held
    have h0 := h.background
    have h1 := h.held who
    have h2 := Ledger.countP_isHeld_release c.jobs who
    rw [hbefore, Reap.inFlight] at h1
    omega

/-! ## Steps -/

/-- A new job counts for nothing yet. -/
theorem fork (h : Accounted c) (pid : Pid) (background : Bool) {s : Shell}
    (hb : s.tracker.background = c.shell.tracker.background)
    (hf : ∀ who, s.inFlight who = c.shell.inFlight who) :
    Accounted { shell := s, jobs := c.jobs.record (.launched pid background) } := by
  refine ⟨hb.trans ?_, fun who => ?_⟩
  · simpa [Ledger.record, JobRecord.isOutstanding, JobRecord.isHeld, JobRecord.isStuck,
      JobRecord.isLive] using h.background
  · show _ = s.inFlight who
    rw [hf who]
    simpa [Ledger.record, JobRecord.isHeldBy, JobRecord.isHeld, JobRecord.isLive] using h.held who

theorem note (h : Accounted c) (hk : Booked c) {job : Job} {pid : Pid}
    (hp : c.shell.phase = .grouped job pid) :
    Accounted
      { shell := { c.shell with tracker := c.shell.note job pid, phase := .noted job pid }
        jobs := c.jobs.record (.noted pid) } := by
  have hst : c.shell.phase.standing = .fresh pid job.background := by rw [hp]; rfl
  obtain ⟨j, before, after, hat, rfl, hlaunch⟩ := hk.exists_at (by rw [hst]; rfl)
  rw [hst] at hlaunch
  obtain ⟨-, hbg, hnoted⟩ := hlaunch
  have hl : { j with noted := true : JobRecord }.isLive := hat.live
  refine h.amend hat ?_ fun who => ?_
  · rw [JobRecord.tally_of_live hat.live, JobRecord.tally_of_live hl, hbg, hnoted]
    simp only [Shell.note]
    cases job.background <;> simp [Tracker.addBackground, Tracker.setForeground]
  · rw [JobRecord.isHeldBy_of_live hl]
    cases who <;> simp [Shell.inFlight, hp, Phase.inFlight]

/-- The foreground job that is waited for is collected. -/
theorem await (h : Accounted c) (hk : Booked c) {pid : Pid} {cs : Children}
    {r : Except Errno Status} (hp : c.shell.phase = .waiting pid) :
    Accounted
      { shell := { c.shell with children := cs, phase := .collected r }
        jobs := c.jobs.record (.collected .wait pid) } := by
  have hst : c.shell.phase.standing = .awaited pid := by rw [hp]; rfl
  obtain ⟨j, before, after, hat, rfl, hlaunch⟩ := hk.exists_at (by rw [hst]; rfl)
  rw [hst] at hlaunch
  obtain ⟨-, hbg, -⟩ := hlaunch
  refine h.amend hat ?_ fun who => ?_
  · simp [JobRecord.tally, JobRecord.isOutstanding, JobRecord.isHeld, JobRecord.isStuck, hbg]
  · simp only [JobRecord.isHeldBy, JobRecord.isHeld, hbg]
    cases who <;> simp [Shell.inFlight, hp, Phase.inFlight]

theorem linePass (h : Accounted c) (hk : Booked c) {pass pass' : Reap} {t : Tracker}
    {cs : Children} {d : Deed} {r : Except Errno Status} (hp : c.shell.phase = .reaping pass r)
    (hm : Reap.Moves .line c.shell.tracker c.shell.children pass pass' t cs d) :
    Accounted
      { shell := { c.shell with tracker := t, children := cs, phase := .reaping pass' r }
        jobs := c.jobs.record d } := by
  refine h.pass hk (by rw [hp]; rfl) hm rfl (by rw [Shell.inFlight, hp]; rfl) rfl fun w hw => ?_
  cases w with
  | line => exact absurd rfl hw
  | _ => rfl

theorem handlerPass (h : Accounted c) (hc : Controlled c.shell) (hk : Booked c)
    {pass pass' : Reap} {t : Tracker} {cs : Children} {d : Deed} {rest : List Handler}
    (hh : c.shell.handlers = .reaping pass :: rest)
    (hm : Reap.Moves .handler c.shell.tracker c.shell.children pass pass' t cs d) :
    Accounted
      { shell := { c.shell with tracker := t, children := cs, handlers := .reaping pass' :: rest }
        jobs := c.jobs.record d } := by
  have hrest := hc.inFlight_rest hh
  refine h.pass hk (hc.settled_of_reaping hh) hm rfl ?_ ?_ fun w hw => ?_
  · simp [Shell.inFlight, hh, hrest, Handler.inFlight]
  · simp [Shell.inFlight, hrest, Handler.inFlight]
  · cases w with
    | handler => exact absurd rfl hw
    | _ => rfl

/-- The handler on top gives way to others, and none of them has collected a job. -/
theorem handlers (h : Accounted c) {signals : Signals} {hs : List Handler}
    (hf : Handler.allInFlight hs = Handler.allInFlight c.shell.handlers) :
    Accounted { c with shell := { c.shell with signals, handlers := hs } } := by
  refine h.of_same rfl fun who => ?_
  cases who with
  | handler => exact hf
  | _ => rfl

/-- A child ends. -/
theorem finish (h : Accounted c) (hk : Booked c) {pid : Pid} {e : Ending}
    (hmem : { pid } ∈ c.shell.children) :
    Accounted
      { shell := { c.shell with
          children := c.shell.children.finish pid e
          signals := c.shell.signals.raise Signal.child }
        jobs := c.jobs.record (.ended pid e) } := by
  obtain ⟨j, before, after, hat, rfl, hend⟩ := hk.exists_at_of_child hmem
  have hl : { j with ending := some e : JobRecord }.isLive := hat.live
  refine h.amend hat ?_ fun who => ?_
  · rw [JobRecord.tally_of_live hat.live, JobRecord.tally_of_live hl]
  · rw [JobRecord.isHeldBy_of_live hl]
    cases who <;> rfl

theorem step (h : Accounted c) (hc : Controlled c.shell) (hk : Booked c) (hs : c.Step c') :
    Accounted c' := by
  cases hs with
  | quiet status kept h0 hq =>
    refine h.of_same rfl fun who => ?_
    cases who with
    | line => exact hq.inFlight_eq
    | _ => rfl
  | hold h0 hp =>
    refine h.of_same rfl fun who => ?_
    cases who <;> simp [Shell.inFlight, hp, Phase.inFlight]
  | @fork job pid h0 hp hpos hnew =>
    refine h.fork pid job.background rfl fun who => ?_
    cases who <;> simp [Shell.inFlight, hp, Phase.inFlight]
  | note h0 hp => exact h.note hk hp
  | @unhold job pid h0 hp =>
    refine h.of_same rfl fun who => ?_
    cases job.background <;> cases who <;> simp [Shell.inFlight, hp, Phase.inFlight]
  | await h0 hp hw => exact h.await hk hp
  | orphan h0 hp hw => exact absurd hw (hk.not_orphaned hp)
  | clear h0 hp =>
    refine h.of_same rfl fun who => ?_
    cases who <;> simp [Shell.inFlight, hp, Phase.inFlight]
  | linePass h0 hp hm => exact h.linePass hk hp hm
  | handlerPass hh hm => exact h.handlerPass hc hk hh hm
  | handlerStart hh hf => exact h.handlers (by rw [hh]; rfl)
  | handlerEnd hh hr => exact h.handlers (by simp [hh, hr.inFlight_eq])
  | interrupt hh hi => exact h.handlers (by simp [hh, hi.inFlight_eq])
  | @take n hn hd =>
    refine h.handlers ?_
    simp only [Handler.allInFlight, Shell.handlerOf]
    split <;> simp [Handler.inFlight]
  | discard hd => exact h.handlers rfl
  | told kept => exact h.of_same rfl fun who => by cases who <;> rfl
  | raise n => exact h.handlers rfl
  | finish hmem he => exact h.finish hk hmem

end Accounted

/-- What holds in the course of every session. -/
structure Kept (c : Chronicle) : Prop where
  controlled : Controlled c.shell
  booked : Booked c
  accounted : Accounted c

namespace Kept

variable {c c' : Chronicle}

theorem start (handlers : Bool) (home : Option Bytes) : Kept (Chronicle.start handlers home) :=
  ⟨.start handlers home, .start handlers home, .start handlers home⟩

theorem step (h : Kept c) (hs : c.Step c') : Kept c' :=
  ⟨h.controlled.step hs, h.booked.step h.controlled hs, h.accounted.step h.controlled h.booked hs⟩

theorem of_run {handlers : Bool} {home : Option Bytes} {evs : List Event}
    (h : (Chronicle.start handlers home).run evs = some c) : Kept c :=
  Chronicle.run_induction (fun _ _ => step) (start handlers home) h

end Kept

namespace Chronicle

/-- After every course, the count is the number of background jobs that have been noted and not
collected, those collected with a status for which it is still to be lowered, and those collected
after they were ended by a real-time signal. -/
theorem background_eq_of_run {handlers : Bool} {home : Option Bytes} {evs : List Event}
    {c : Chronicle} (h : (start handlers home).run evs = some c) :
    c.shell.tracker.background =
      c.jobs.countP JobRecord.isOutstanding + c.jobs.countP JobRecord.isHeld +
        c.jobs.countP JobRecord.isStuck :=
  (Kept.of_run h).accounted.background

/-- A background job is ended by a real-time signal; the next two end around a foreground job, so
that a pass of the handler collects one while the line has collected the other. -/
def nestedPasses : List Event :=
  Event.launch [97, 32, 38] 5 ++ [.answered (.ok ())] ++
  [.ended 5 (.killed 40), .taken, .move, .move, .move, .move] ++
  Event.launch [97, 32, 38] 6 ++ [.answered (.ok ())] ++
  Event.launch [97, 32, 38] 7 ++ [.answered (.ok ())] ++
  Event.launch [97] 8 ++ [.ended 8 (.exited 0), .taken, .move, .move, .move, .move] ++
  [.ended 6 (.exited 0), .move, .move, .ended 7 (.exited 1), .taken, .move, .move, .move]

theorem run_nestedPasses :
    ((start true none).run nestedPasses).map (fun c =>
      (c.jobs.countP JobRecord.isHeld, c.jobs.countP JobRecord.isStuck)) = some (2, 1) := by
  decide +kernel

theorem background_eq_of_nestedPasses :
    ∃ c, (start true none).run nestedPasses = some c ∧
      c.jobs.countP JobRecord.isHeld = 2 ∧ c.jobs.countP JobRecord.isStuck = 1 ∧
      c.shell.tracker.background =
        c.jobs.countP JobRecord.isOutstanding + c.jobs.countP JobRecord.isHeld +
          c.jobs.countP JobRecord.isStuck := by
  obtain ⟨c, hc, heq⟩ := Option.map_eq_some_iff.1 run_nestedPasses
  obtain ⟨hheld, hstuck⟩ := Prod.mk.inj heq
  exact ⟨c, hc, hheld, hstuck, background_eq_of_run hc⟩

end Chronicle

end JobShell
