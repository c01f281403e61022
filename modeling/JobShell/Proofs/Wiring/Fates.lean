import JobShell.Proofs.Wiring.Staff

/-!
# What becomes of the processes of a job

A process of a job becomes the program of its stage, or it reports once why not and exits with 1, or
a signal ends it before.

* `Launch.Fate`: how such a process has done its last.
* `Launch.Mans`: what holds of all that it does, its fate included.
* `Launch.Manned`: the same for all the stages that one process is to start.
* `Launch.manned_upstream`, `Launch.manned_leader`: so it is for every process of a job.
-/

namespace JobShell

/-- A call that may have to wait for another process, or for the clock. -/
def Call.waits : Call → Bool
  | read .. | wait .. | sleep _ => true
  | _ => false

namespace Doing

def waits : Doing → Bool
  | called c _ => c.waits
  | _ => false

variable {d : Doing}

theorem of_not_isFinal (h : d.isFinal = false) :
    d.executes = false ∧ d.write? = none ∧ d.isLast = false := by
  simp only [isFinal, Bool.or_eq_false_iff, Option.isSome_eq_false_iff, Option.isNone_iff_eq_none]
    at h
  exact ⟨h.1.1, h.1.2, h.2⟩

theorem IsWiring.isFinal (h : d.IsWiring) : d.isFinal = false := by
  cases h with
  | calls hc reply => rename_i c; cases c <;> first | rfl | cases hc
  | forks => rfl

theorem IsWiring.waits (h : d.IsWiring) : d.waits = false := by
  cases h with
  | calls hc reply => rename_i c; cases c <;> first | rfl | cases hc
  | forks => rfl

theorem waits_of_isFinal (h : d.isFinal) : d.waits = false := by
  cases d with
  | called c reply => cases c <;> first | rfl | cases h
  | _ => rfl

theorem start?_of_isFinal (h : d.isFinal) : d.start? = none := by
  cases d with
  | forked child reply => cases h
  | _ => rfl

end Doing

namespace Launch

/-- How a process has done its last that was to become the program of a stage. `refused` says that
something it needed to wire itself was refused, `all` that the other stages it was to start have been
started. -/
inductive Fate (env : List Bytes) (refused all : Prop) (stage : Stage) (ds : Doings) : Prop where
  | killed (h : ds.getLast? = some .killed) (hidle : ∀ d ∈ ds, d.isStart = false)
  /-- It has become the program, and has written nothing. -/
  | becomes {path : Bytes} {args env : List Bytes} (h : ds.getLast? = some (.executed path args env))
      (hall : all) (hsilent : ds.writes = [])
  /-- It has become no program, and has reported once why not. -/
  | fails {f : LaunchFailure} (h : ds.getLast? = some (.exited 1))
      (hidle : ∀ d ∈ ds, d.isStart = false)
      (hreport : ds.writes = [(2, Bytes.ofString (reportLine f.message))])
      (hwhy : refused ∨ all ∧ Explains env stage ds f)

/-- What holds of all that such a process does. -/
structure Mans (env : List Bytes) (refused all : Prop) (stage : Stage) (ds : Doings) : Prop where
  /-- It hands over the arguments of its stage. -/
  faithful : ds.Faithful (Search.files env (arguments stage)) (arguments stage) none
  /-- It executes nothing before the other stages have been started, and nothing with an argument
  that holds a NUL. -/
  ready : ∀ d ∈ ds, d.executes → all ∧ ∀ a ∈ stage, 0 ∉ Bytes.ofString a
  /-- All that it writes is one report. -/
  once : ∃ f : LaunchFailure, ds.writes <+: [(2, Bytes.ofString (reportLine f.message))]
  prompt : ∀ d ∈ ds, d.waits = false
  fate : ∀ d ∈ ds, d.isLast → Fate env refused all stage ds

variable {env : List Bytes} {ss : List Stage} {stage : Stage} {refused refused' all unnamed : Prop}
  {d : Doing} {ds front back : Doings} {o : Option Act} {f : LaunchFailure} {k : Nat} {a : Act}

theorem Fate.cons (h : Fate env refused all stage ds) (hd : d.isFinal = false) :
    Fate env refused all stage (d :: ds) := by
  obtain ⟨hx, hw, -⟩ := Doing.of_not_isFinal hd
  have hlast {l : Doing} (h : ds.getLast? = some l) : (d :: ds).getLast? = some l := by
    rw [List.getLast?_cons, h]
    rfl
  have hwrites : Doings.writes (d :: ds) = ds.writes := by simp [hw]
  have hstart := (Doing.idle hx).2
  cases h with
  | killed h hidle => exact .killed (hlast h) (List.forall_mem_cons.2 ⟨hstart, hidle⟩)
  | becomes h hall hsilent => exact .becomes (hlast h) hall (hwrites.trans hsilent)
  | fails h hidle hreport hwhy =>
    refine .fails (hlast h) (List.forall_mem_cons.2 ⟨hstart, hidle⟩) (hwrites.trans hreport) ?_
    exact hwhy.imp_right fun ⟨hall, hex⟩ => ⟨hall, hex.mono (List.subset_cons_self _ _)⟩

/-- It has done something else before. -/
theorem Mans.cons (h : Mans env refused all stage ds) (hd : d.isFinal = false) (hwaits : d.waits = false) :
    Mans env refused all stage (d :: ds) := by
  obtain ⟨hx, hw, hl⟩ := Doing.of_not_isFinal hd
  refine ⟨⟨fun path args hargs => ?_, h.faithful.mono _⟩, List.forall_mem_cons.2 ⟨fun hd => ?_, h.ready⟩,
    ?_, List.forall_mem_cons.2 ⟨hwaits, h.prompt⟩,
    List.forall_mem_cons.2 ⟨fun hd => ?_, fun d' hmem hlast => (h.fate d' hmem hlast).cons hd⟩⟩
  · cases (Doing.idle hx).1.symm.trans hargs
  · cases hx.symm.trans hd
  · obtain ⟨f, honce⟩ := h.once
    exact ⟨f, by simpa [hw] using honce⟩
  · cases hl.symm.trans hd

theorem Mans.append (h : Mans env refused all stage back) (hfront : ∀ d ∈ front, d.IsWiring) :
    Mans env refused all stage (front ++ back) := by
  induction front with
  | nil => exact h
  | cons d front ih =>
    obtain ⟨hd, hfront⟩ := List.forall_mem_cons.1 hfront
    exact (ih hfront).cons hd.isFinal hd.waits

theorem Mans.mono (h : Mans env refused all stage ds) (hr : refused → refused') :
    Mans env refused' all stage ds :=
  { h with
    fate := fun d hmem hlast => by
      cases h.fate d hmem hlast with
      | killed h hidle => exact .killed h hidle
      | becomes h hall hsilent => exact .becomes h hall hsilent
      | fails h hidle hreport hwhy => exact .fails h hidle hreport (hwhy.imp_left hr) }

theorem mans_nil (env : List Bytes) (refused all : Prop) (stage : Stage) : Mans env refused all stage [] :=
  ⟨trivial, List.forall_mem_nil _, ⟨.emptyCommand, List.nil_prefix⟩, List.forall_mem_nil _,
    List.forall_mem_nil _⟩

theorem mans_killed (env : List Bytes) (refused all : Prop) (stage : Stage) :
    Mans env refused all stage [.killed] := by
  refine ⟨⟨nofun, trivial⟩, List.forall_mem_singleton.2 nofun, ⟨.emptyCommand, List.nil_prefix⟩,
    List.forall_mem_singleton.2 rfl, List.forall_mem_singleton.2 fun _ => .killed rfl ?_⟩
  exact List.forall_mem_singleton.2 rfl

/-- Something has been refused, and that is reported. -/
theorem mans_concluded (hr : refused) (h : (concluded (.error f)).Path ds o) :
    Mans env refused all stage ds := by
  have hs := (stopped_concluded h).1
  have hstart (d : Doing) (hd : d ∈ ds) := (Doing.idle (hs.idle d hd)).2
  refine ⟨Doings.faithful_of_none (fun d hd => (Doing.idle (hs.idle d hd)).1) _,
    fun d hd hx => ?_, ⟨f, hs.reports.once⟩, ?_, fun d hd hl => ?_⟩
  · cases (hs.idle d hd).symm.trans hx
  · refine Act.Only.of_path (P := fun d => d.waits = false) h rfl ?_
    exact .call (fun _ => rfl) nofun fun _ => .exit rfl
  · obtain ⟨hlast, rfl | ⟨rfl, hwrites⟩⟩ := hs.reports.ended d hd hl
    · exact .killed hlast hstart
    · exact .fails hlast hstart hwrites (.inl hr)

/-- The program is executed, or it is reported why not. -/
theorem Tries.mans (h : Tries env stage none [] ds) (hall : all) (hpath : a.Path ds o) :
    Mans env refused all stage ds := by
  -- what a process does last with its program it does once
  have hlone {d d' : Doing} (hd : d ∈ ds) (hl : d.isLast) (hd' : d' ∈ ds) (hl' : d'.isLast) :
      d = d' :=
    Option.some.inj ((hpath.of_isLast hd hl).1.symm.trans (hpath.of_isLast hd' hl').1)
  have hidle {d : Doing} (hd : d ∈ ds) (hl : d.isLast) (hstart : d.isStart = false) :
      ∀ d ∈ ds, d.isStart = false := by
    intro d' hd'
    cases hs : d'.isStart with
    | false => rfl
    | true =>
      have hl' : d'.isLast := by cases d' <;> first | cases hs; done | rfl
      rw [hlone hd hl hd' hl', hs] at hstart
      cases hstart
  refine ⟨h.faithful, fun d hd hx => ⟨hall, h.clean d hd hx⟩, ?_,
    fun d hd => Doing.waits_of_isFinal (h.final d hd), fun d hd hl => ?_⟩
  · by_cases hs : ∃ d ∈ ds, d.isStart
    · obtain ⟨d, hd, hstart⟩ := hs
      exact ⟨.emptyCommand, by rw [h.silent d hd hstart]; exact List.nil_prefix⟩
    · obtain ⟨f, hreports, -⟩ := h.reports fun d hd =>
        Bool.not_eq_true _ ▸ fun hstart => hs ⟨d, hd, hstart⟩
      exact ⟨f, hreports.once⟩
  · have hlast := (hpath.of_isLast hd hl).1
    cases hstart : d.isStart with
    | true =>
      cases d with
      | executed path args env => exact .becomes hlast hall (h.silent _ hd rfl)
      | _ => cases hstart
    | false =>
      have hidle := hidle hd hl hstart
      obtain ⟨f, hreports, hexplains⟩ := h.reports hidle
      obtain ⟨-, rfl | ⟨rfl, hwrites⟩⟩ := hreports.ended d hd hl
      · exact .killed hlast hidle
      · refine .fails hlast hidle hwrites (.inr ⟨hall, hexplains ?_⟩)
        rw [hwrites]
        exact List.cons_ne_nil _ _

theorem Rear.mans (h : Rear env ss unnamed front k back o) (hss : ss.getLast? = some stage) :
    Mans env (unnamed ∨ ∃ d ∈ front, d.IsRefused) (k + 1 = ss.length) stage back := by
  cases h with
  | wires => exact mans_nil _ _ _ stage
  | dies => exact mans_killed _ _ _ stage
  | fails hr hpath => exact mans_concluded hr hpath
  | executes hlast hk hpath =>
    obtain rfl := Option.some.inj (hlast.symm.trans hss)
    exact (tries_execute hpath).mans hk hpath

/-! ## All processes of a job -/

/-- The stages but the last are started in their order, each behind a pipe, and the process is to
become the last. -/
structure Manned (env : List Bytes) (ss : List Stage) (unnamed : Prop) (stage : Stage)
    (ds : Doings) : Prop where
  starts : ∃ ends : List (Nat × Nat), ends.length < ss.length ∧
    ds.starts = List.zipWith (fun stage (r, w) => (upstream env stage r w).run) ss ends
  mans : Mans env (unnamed ∨ ∃ d ∈ ds, d.IsRefused) (ds.starts.length + 1 = ss.length) stage ds

theorem Rear.starts (h : Rear env ss unnamed front k back o) : back.starts = [] := by
  refine List.filterMap_eq_nil_iff.2 fun d hd => ?_
  cases h with
  | wires => cases hd
  | dies =>
    obtain rfl := List.mem_singleton.1 hd
    rfl
  | fails hr hpath =>
    have hs := (stopped_concluded hpath).1.starts
    exact List.filterMap_eq_nil_iff.1 hs d hd
  | executes hlast hk hpath => exact Doing.start?_of_isFinal ((tries_execute hpath).final d hd)

theorem Staffed.manned (h : Staffed env ss unnamed ds o) (hss : ss.getLast? = some stage) :
    Manned env ss unnamed stage ds := by
  obtain ⟨front, back, ends, rfl, hsplit⟩ := h
  have hstarts : Doings.starts (front ++ back) = front.starts := by
    unfold Doings.starts
    rw [List.filterMap_append]
    exact (congrArg _ hsplit.rear.starts).trans (List.append_nil _)
  refine ⟨⟨ends, hsplit.fewer, hstarts.trans hsplit.starts⟩, ?_⟩
  have hlength : (Doings.starts (front ++ back)).length = ends.length := by
    rw [hstarts, hsplit.starts, List.length_zipWith]
    exact Nat.min_eq_right (Nat.le_of_lt hsplit.fewer)
  rw [hlength]
  refine ((hsplit.rear.mans hss).append hsplit.wiring).mono (.imp_right ?_)
  rintro ⟨d, hd, hrefused⟩
  exact ⟨d, List.mem_append_left back hd, hrefused⟩

theorem manned_upstream {r w : Nat} (h : (upstream env stage r w).run.Path ds o) :
    Manned env [stage] False stage ds :=
  (staffed_upstream h).manned rfl

/-- The leader of a job starts a process for each stage but the last, and is to become the last. -/
theorem manned_leader {p : Pipeline} (hss : p.stages.getLast? = some stage)
    (h : (leader env p).run.Path ds o) :
    Manned env p.stages (∃ r ∈ p.redirect, 0 ∈ Bytes.ofString r.target) stage ds := by
  have hne : p.stages ≠ [] := by
    rintro hnil
    rw [hnil] at hss
    cases hss
  have hnone {ds : Doings} (hs : ds.starts = []) : ∃ ends : List (Nat × Nat),
      ends.length < p.stages.length ∧ ds.starts =
        List.zipWith (fun stage (r, w) => (upstream env stage r w).run) p.stages ends :=
    ⟨[], List.length_pos_iff.2 hne, by rw [hs, List.zipWith_nil_right]⟩
  cases heads_leader hne h with
  | waits => exact ⟨hnone rfl, mans_nil _ _ _ stage⟩
  | dies => exact ⟨hnone rfl, mans_killed _ _ _ stage⟩
  | @leads reply ds o hstaffed =>
    obtain ⟨hstarts, hmans⟩ := hstaffed.manned hss
    refine ⟨hstarts, (hmans.mono ?_).cons rfl rfl⟩
    exact .imp_right fun ⟨d, hd, hrefused⟩ => ⟨d, List.mem_cons_of_mem _ hd, hrefused⟩

end Launch

end JobShell
