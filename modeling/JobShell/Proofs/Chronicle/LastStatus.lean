import Mathlib.Data.List.Basic
import JobShell.Proofs.Chronicle.Endings

/-!
# The last status

The last status follows the endings of the foreground jobs. On its way from the wait to the last
status an ending is kept in the phase of the line, while passes of the line and of the handler go
on.

* `Status.reported`: the last status after jobs that ended so.
* `Reported`: the last status is that of the endings heard, but for one that the line still keeps.
* `lastStatus_of_run`: the last status between lines, and what a `status` line writes.
* `lastStatus_stale`: a foreground job ended by a real-time signal leaves the last status as it was.
-/

namespace JobShell

/-- The last status after foreground jobs that have ended in these ways. -/
def Status.reported (es : List Ending) : Status :=
  es.foldl (fun last e => last.following e.status) default

theorem Status.reported_append (es : List Ending) (e : Ending) :
    reported (es ++ [e]) = (reported es).following e.status := by
  simp [reported, List.foldl_append]

/-- Only a real-time signal gives no status. -/
theorem Ending.status_of_not_byRealTime {e : Ending} (he : e.IsPossible)
    (hrt : e.byRealTime = false) : ∃ status, e.status = .ok status := by
  rw [byRealTime_eq he] at hrt
  split at hrt
  · exact ⟨_, ‹_›⟩
  · cases hrt

/-- The last of the jobs decides, unless a real-time signal has ended it. -/
theorem Status.reported_append_of_not_byRealTime {e : Ending} (he : e.IsPossible)
    (hrt : e.byRealTime = false) (es : List Ending) : e.status = .ok (reported (es ++ [e])) := by
  obtain ⟨status, hs⟩ := e.status_of_not_byRealTime he hrt
  rw [reported_append, hs, following]

/-- The answer to the wait that a line keeps until it concludes. -/
def Phase.keeps? : Phase → Option (Except Errno Status)
  | collected r | cleared r | reaping _ r => some r
  | _ => none

theorem Phase.Advances.keeps?_eq {p q : Phase} (h : p.Advances q) : q.keeps? = p.keeps? := by
  cases h with
  | unheld job pid => cases hbg : job.background <;> simp [keeps?]
  | _ => rfl

theorem Phase.keeps?_of_atRest {p : Phase} (h : p.atRest) : p.keeps? = none := by
  cases p <;> first | rfl | cases h

theorem Shell.keeps?_phaseOf (s : Shell) (r : Except LineError Request) :
    (s.phaseOf r).keeps? = none := by
  unfold phaseOf
  split <;> try rfl
  split <;> rfl

/-- The last status is that of the endings heard, but for the last one while the line keeps it. -/
def Reported (es : List Ending) (p : Phase) (last : Status) : Prop :=
  match p.keeps? with
  | none => last = Status.reported es
  | some r => ∃ before e, es = before ++ [e] ∧ r = e.status ∧ last = Status.reported before

namespace Reported

variable {es : List Ending} {p q : Phase} {last : Status}

theorem of_none (hp : p.keeps? = none) : Reported es p last ↔ last = Status.reported es := by
  rw [Reported, hp]

theorem of_some {r : Except Errno Status} (hp : p.keeps? = some r) :
    Reported es p last ↔
      ∃ before e, es = before ++ [e] ∧ r = e.status ∧ last = Status.reported before := by
  rw [Reported, hp]

theorem of_keeps?_eq (h : Reported es p last) (hq : q.keeps? = p.keeps?) : Reported es q last := by
  rwa [Reported, hq]

theorem turn {s : Shell} {said : Option Exchange} {kept : Bytes}
    (h : Reported es s.phase s.lastStatus) (ht : s.Turn said q last kept) :
    Reported (es ++ Dialogue.endings said.toList) q last := by
  have hother (hs : Dialogue.endings said.toList = []) (hq : q.keeps? = s.phase.keeps?)
      (hl : last = s.lastStatus) : Reported (es ++ Dialogue.endings said.toList) q last := by
    rw [hs, List.append_nil, hl]
    exact h.of_keeps?_eq hq
  cases ht with
  | given text hp =>
    refine hother rfl ?_ rfl
    rw [Shell.keeps?_phaseOf, Phase.keeps?_of_atRest hp]
  | advanced hq => exact hother rfl hq.keeps?_eq rfl
  | @waited pid e hp hc =>
    rw [hp] at h
    exact (of_some rfl).2 ⟨es, e, rfl, rfl, (of_none rfl).1 h⟩
  | @concluded pass r hp =>
    rw [hp] at h
    obtain ⟨before, e, rfl, rfl, hlast⟩ := (of_some rfl).1 h
    refine (of_none rfl).2 ?_
    rw [hlast, ← Status.reported_append]
    exact congrArg Status.reported (List.append_nil _).symm
  | announced hp r => exact hother rfl (by rw [hp]; rfl) rfl
  | printed hp r => exact hother rfl (by rw [hp]; rfl) rfl
  | changed hp r => exact hother rfl (by rw [hp]; rfl) rfl
  | told text r hp => exact hother rfl rfl rfl
  | apart => exact hother rfl rfl rfl

end Reported

/-! ## What a `status` line writes -/

/-- A `status` line has written nothing, or it has written the text of the last status. -/
def Printing (last : Status) (d : Dialogue) (s : Shell) : Prop :=
  s.lastStatus = last ∧
    (s.phase = .printing ∧ d.writes = [] ∨
      (∃ result, s.phase = .finished result) ∧
        ∃ r, d.writes = [(Shell.lineOf last.text, r)])

theorem Printing.turn {last : Status} {d d' : Dialogue} {s t : Shell} {said : Option Exchange}
    (h : Printing last d s) (ht : s.Turn said t.phase t.lastStatus t.kept)
    (hd : d'.writes = d.writes ++ Dialogue.writes said.toList)
    (hline : Dialogue.lines said.toList = []) : Printing last d' t := by
  obtain ⟨hlast, hphase⟩ := h
  have hother {p : Phase} (hp : s.phase = p) : p = .printing ∨ ∃ result, p = .finished result :=
    hp ▸ hphase.imp And.left And.left
  unfold Printing
  rw [hd]
  generalize t.phase = q at ht ⊢
  generalize t.lastStatus = newest at ht ⊢
  generalize t.kept = kept at ht
  cases ht with
  | given text hp => cases hline
  | advanced hq => rcases hother rfl with hp | ⟨result, hp⟩ <;> rw [hp] at hq <;> cases hq
  | waited hp hc => rcases hother hp with hq | ⟨result, hq⟩ <;> cases hq
  | concluded hp => rcases hother hp with hq | ⟨result, hq⟩ <;> cases hq
  | announced hp r => rcases hother hp with hq | ⟨result, hq⟩ <;> cases hq
  | printed hp r =>
    refine ⟨hlast, .inr ⟨⟨_, rfl⟩, r, ?_⟩⟩
    rcases hphase with ⟨-, hw⟩ | ⟨⟨result, hfin⟩, -⟩
    · rw [hw, hlast]
      rfl
    · cases hp.symm.trans hfin
  | changed hp r => rcases hother hp with hq | ⟨result, hq⟩ <;> cases hq
  | told text r hp =>
    refine ⟨hlast, ?_⟩
    rwa [show Dialogue.writes (some (Exchange.told text r)).toList = [] from rfl, List.append_nil]
  | apart =>
    refine ⟨hlast, ?_⟩
    rwa [Option.toList_none, show Dialogue.writes [] = [] from rfl, List.append_nil]

namespace Chronicle

variable {handlers : Bool} {home : Option Bytes} {evs : List Event} {c c' : Chronicle}

theorem reported_of_run (h : (start handlers home).run evs = some c) :
    Reported ((start handlers home).dialogue evs).endings c.shell.phase c.shell.lastStatus := by
  refine (dialogue_induction (P := fun d c => Chronicled d c ∧
    Reported d.endings c.shell.phase c.shell.lastStatus) ?_ ⟨.start handlers home, rfl⟩ h).2
  rintro d c c' ev ⟨hc, hr⟩ hn
  refine ⟨hc.step hn, ?_⟩
  have hturn := hr.turn (turn_of_next? hc.kept.booked hn)
  rwa [Dialogue.endings_append, Shell.endings_saidAt]

/-- A `status` line that is over has written the last status, and nothing else. -/
theorem writes_of_status {line : Bytes} {later : List Event} (hk : Kept c)
    (hline : Request.ofLine line = .ok (.builtin .status))
    (h : c.run (.line line :: later) = some c')
    (honly : (c.dialogue (.line line :: later)).lines = [line]) (hrest : c'.shell.phase.atRest) :
    ∃ r, (c.dialogue (.line line :: later)).writes =
      [(Shell.lineOf c.shell.lastStatus.text, r)] := by
  obtain ⟨c₁, hfirst, hlater⟩ := Option.bind_eq_some_iff.1 h
  obtain ⟨t, ht, rfl⟩ := Option.map_eq_some_iff.1 hfirst
  have hbegin : t = c.shell.begin line := by
    simp only [Shell.next?] at ht
    split at ht <;> cases ht
    rfl
  have hprint : Printing c.shell.lastStatus [] t := by
    rw [hbegin]
    refine ⟨rfl, .inl ⟨?_, rfl⟩⟩
    rw [Shell.begin, hline]
    rfl
  rw [dialogue_cons hfirst] at honly ⊢
  have hlines :
      Dialogue.lines (dialogue ⟨t, c.jobs.record (c.shell.deed (.line line))⟩ later) = [] := by
    rw [Dialogue.lines_append, Shell.lines_saidAt] at honly
    exact (List.cons.inj honly).2
  have hind := dialogue_induction (P := fun d c' => Kept c' ∧
      (d.lines = [] → Printing c.shell.lastStatus d c'.shell))
    (by
      rintro d c c' ev ⟨hk, hp⟩ hn
      refine ⟨hk.step (step_of_next? hn), fun hno => ?_⟩
      rw [Dialogue.lines_append, List.append_eq_nil_iff, Shell.lines_saidAt] at hno
      exact (hp hno.1).turn (turn_of_next? hk.booked hn)
        (by rw [Dialogue.writes_append, Shell.writes_saidAt]) hno.2)
    ⟨hk.step (step_of_next? hfirst), fun _ => hprint⟩ hlater
  obtain ⟨-, ⟨hphase, -⟩ | ⟨-, r, hr⟩⟩ := hind.2 hlines
  · rw [hphase] at hrest
    cases hrest
  · refine ⟨r, ?_⟩
    rw [Dialogue.writes_append, Shell.writes_saidAt, hr]
    rfl

/-- Between lines the last status is that of the latest foreground job, if its end has one, and a
`status` line writes its text. Jobs ended by a real-time signal leave it as it was. -/
theorem lastStatus_of_run (h : (start handlers home).run evs = some c)
    (hrest : c.shell.phase.atRest) :
    c.shell.lastStatus = Status.reported c.jobs.endings ∧
    (c.jobs.foreground = [] → c.shell.lastStatus = .exited 0) ∧
    (∀ j, c.jobs.foreground.getLast? = some j →
      ∃ e, j.ending = some e ∧ (e.byRealTime = false → e.status = .ok c.shell.lastStatus)) ∧
    ∀ line later c', Request.ofLine line = .ok (.builtin .status) →
      c.run (.line line :: later) = some c' →
      (c.dialogue (.line line :: later)).lines = [line] → c'.shell.phase.atRest →
      ∃ r, (c.dialogue (.line line :: later)).writes =
        [(Shell.lineOf c.shell.lastStatus.text, r)] := by
  have hc := chronicled_of_run h
  have hmap := hc.foreground_of_settled (Phase.standing_of_atRest hrest)
  have hlast := (Reported.of_none (Phase.keeps?_of_atRest hrest)).1 (reported_of_run h)
  generalize hes : ((start handlers home).dialogue evs).endings = es at hmap hlast
  have hends : c.jobs.endings = es := by
    have := congrArg (List.filterMap id) hmap
    simpa [Ledger.endings, List.filterMap_map] using this
  refine ⟨hlast.trans (congrArg _ hends.symm), fun hnone => ?_, fun j hj => ?_, ?_⟩
  · rw [hnone] at hmap
    rw [hlast, List.map_eq_nil_iff.1 hmap.symm]
    rfl
  · obtain ⟨before, hbefore⟩ := List.getLast?_eq_some_iff.1 hj
    rw [hbefore, List.map_append] at hmap
    obtain ⟨es', last, rfl, -, hone⟩ := List.map_eq_append_iff.1 hmap.symm
    obtain ⟨e, rfl, he⟩ := List.map_eq_singleton_iff.1 hone
    have hmem : j ∈ c.jobs := (List.mem_filter.1 (List.mem_of_getLast? hj)).1
    refine ⟨e, he.symm, fun hrt => ?_⟩
    rw [hlast]
    exact Status.reported_append_of_not_byRealTime
      ((hc.kept.booked.sound j hmem).possible e he.symm) hrt es'
  · intro line later c' hline hrun honly hover
    exact writes_of_status hc.kept hline hrun honly hover

/-- A background job is ended by a real-time signal, then a foreground job by SIGKILL, whose line
collects both. -/
def killedJob : List Event :=
  Event.launch [97, 32, 38] 5 ++ [.answered (.ok ())] ++ Event.launch [97] 6 ++
  [.ended 5 (.killed 40), .ended 6 (.killed 9), .taken] ++ List.replicate 7 .move

/-- `status`, which the interpreter writes. -/
def statusLine : List Event := [.line [115, 116, 97, 116, 117, 115], .answered (.ok ())]

theorem run_killedJob :
    ((start true none).run killedJob).map (fun c =>
      (c.shell.phase.atRest, c.jobs.foreground.getLast?.map (·.ending),
        (c.run statusLine).map (·.shell.phase.atRest), (c.dialogue statusLine).lines)) =
      some (true, some (some (.killed 9)), some true, [[115, 116, 97, 116, 117, 115]]) := by
  decide +kernel

theorem lastStatus_of_killedJob :
    ∃ c r, (start true none).run killedJob = some c ∧
      (Ending.killed 9).status = .ok c.shell.lastStatus ∧
      (c.dialogue statusLine).writes = [(Shell.lineOf c.shell.lastStatus.text, r)] := by
  obtain ⟨c, hc, heq⟩ := Option.map_eq_some_iff.1 run_killedJob
  simp only [Prod.mk.injEq] at heq
  obtain ⟨hrest, hlast, hnext, hlines⟩ := heq
  obtain ⟨j, hj, hend⟩ := Option.map_eq_some_iff.1 hlast
  obtain ⟨c', hc', hrest'⟩ := Option.map_eq_some_iff.1 hnext
  obtain ⟨-, -, hstatus, hprint⟩ := lastStatus_of_run hc hrest
  obtain ⟨e, he, hst⟩ := hstatus j hj
  obtain rfl : e = .killed 9 := Option.some.inj (he.symm.trans hend)
  obtain ⟨r, hr⟩ := hprint _ _ c' (by decide +kernel) hc' hlines hrest'
  exact ⟨c, r, hc, hst rfl, hr⟩

/-- A foreground job exits with code 3, and a real-time signal ends the next one. -/
def realTimeEnd : List Event :=
  Event.launch [97] 5 ++ .ended 5 (.exited 3) :: List.replicate 5 .move ++
  Event.launch [97] 6 ++ .ended 6 (.killed 40) :: List.replicate 5 .move

/-- The last status is not that of the latest foreground job: this one's end has none, and that of
the job before it has stayed. -/
theorem lastStatus_stale :
    ∃ c j, (start false none).run realTimeEnd = some c ∧ c.shell.phase.atRest ∧
      c.jobs.foreground.getLast? = some j ∧ j.ending = some (.killed 40) ∧
      (Ending.killed 40).status ≠ .ok c.shell.lastStatus ∧ c.shell.lastStatus = .exited 3 := by
  have hrun : ((start false none).run realTimeEnd).map (fun c =>
      (c.shell.phase.atRest, c.jobs.foreground.getLast?.map (·.ending), c.shell.lastStatus)) =
      some (true, some (some (.killed 40)), .exited 3) := by
    decide +kernel
  obtain ⟨c, hc, heq⟩ := Option.map_eq_some_iff.1 hrun
  simp only [Prod.mk.injEq] at heq
  obtain ⟨hrest, hlast, hstatus⟩ := heq
  obtain ⟨j, hj, hend⟩ := Option.map_eq_some_iff.1 hlast
  exact ⟨c, j, hc, hrest, hj, hend, nofun, hstatus⟩

end Chronicle

end JobShell
