import JobShell.Proofs.Wiring.Attempts

/-!
# The staff of a job

The leader of a job, and every process it forks, wires itself first. If nothing is refused to it, it
then comes to execute the program of its stage; by then the leader has forked one process for each
stage but its own, the last, in the order of the stages.

* `Doing.IsWiring`, `Doing.IsRefused`: what is done to wire a process, and where that fails.
* `Launch.Rear`: what a process does behind its wiring. `Launch.Staffed`: its wiring and its rear.
* `Launch.staffed_stages`, `Launch.staffed_upstream`: the processes of a job do so, and nothing else.
* `Launch.Heads`, `Launch.heads_leader`: the leader makes itself a group before anything else.
-/

namespace JobShell

/-- A call with which the process of a job is wired. -/
def Call.wires : Call → Bool
  | dispose .. | unblock _ | close _ | dup2 .. | pipe | .open .. => true
  | _ => false

namespace Doing

/-- Something that is done to wire the process of a job. -/
inductive IsWiring : Doing → Prop where
  | calls {c : Call} (hc : c.wires) (reply : c.Reply) : IsWiring (.called c reply)
  | forks (child : Act) (reply : Except Errno Pid) : IsWiring (.forked child reply)

/-- It is refused, and the process of a job depends on it. -/
inductive IsRefused : Doing → Prop where
  | opens {path : Bytes} {mode : OpenMode} {bits : Nat} {e : Errno} :
      IsRefused (.called (.open path mode bits) (.error e))
  | pipes {e : Errno} : IsRefused (.called .pipe (.error e))
  | copies {fd target : Nat} {e : Errno} : IsRefused (.called (.dup2 fd target) (.error e))
  | forks {child : Act} {e : Errno} : IsRefused (.forked child (.error e))

end Doing

namespace Launch

/-- What a process that is to wire itself for these stages does behind `front`, where it has started
`k` of them. -/
inductive Rear (env : List Bytes) (ss : List Stage) (unnamed : Prop) (front : Doings) (k : Nat) :
    Doings → Option Act → Prop where
  | wires (a : Act) : Rear env ss unnamed front k [] (some a)
  | dies : Rear env ss unnamed front k [.killed] none
  /-- It reports that something was refused. -/
  | fails {f : LaunchFailure} {back : Doings} {o : Option Act}
      (h : unnamed ∨ ∃ d ∈ front, d.IsRefused) (hpath : (concluded (.error f)).Path back o) :
      Rear env ss unnamed front k back o
  /-- It executes the program of the last stage, the others having been started. -/
  | executes {stage : Stage} {back : Doings} {o : Option Act} (hlast : ss.getLast? = some stage)
      (hk : k + 1 = ss.length) (hpath : (thenDo (execute env stage) concluded).Path back o) :
      Rear env ss unnamed front k back o

/-- What a process that is to wire itself for these stages has done, and has still to do. -/
structure Split (env : List Bytes) (ss : List Stage) (unnamed : Prop) (front back : Doings)
    (ends : List (Nat × Nat)) (o : Option Act) : Prop where
  wiring : ∀ d ∈ front, d.IsWiring
  /-- Stages are started in their order, each behind a pipe. -/
  starts : front.starts = List.zipWith (fun stage (r, w) => (upstream env stage r w).run) ss ends
  fewer : ends.length < ss.length
  rear : Rear env ss unnamed front ends.length back o

def Staffed (env : List Bytes) (ss : List Stage) (unnamed : Prop) (ds : Doings) (o : Option Act) :
    Prop :=
  ∃ front back ends, ds = front ++ back ∧ Split env ss unnamed front back ends o

variable {env : List Bytes} {ss : List Stage} {unnamed : Prop} {d : Doing} {ds rest : Doings}
  {front back : Doings} {ends : List (Nat × Nat)} {o : Option Act} {f : LaunchFailure}
  {stage : Stage} {k : Nat}

theorem Rear.mono {front' : Doings} (h : Rear env ss unnamed front k back o)
    (hsub : ∀ d ∈ front, d ∈ front') : Rear env ss unnamed front' k back o := by
  cases h with
  | wires a => exact .wires a
  | dies => exact .dies
  | fails h hpath =>
    refine .fails (h.imp_right ?_) hpath
    rintro ⟨d, hd, hrefused⟩
    exact ⟨d, hsub d hd, hrefused⟩
  | executes hlast hk hpath => exact .executes hlast hk hpath

/-- Nothing has been wired yet. -/
theorem staffed_of_rear (hss : ss ≠ []) (h : Rear env ss unnamed [] 0 ds o) :
    Staffed env ss unnamed ds o := by
  refine ⟨[], ds, [], rfl, List.forall_mem_nil _, ?_, List.length_pos_iff.2 hss, h⟩
  rw [List.zipWith_nil_right]
  rfl

theorem Staffed.cons (h : Staffed env ss unnamed ds o) (hd : d.IsWiring) (hs : d.start? = none) :
    Staffed env ss unnamed (d :: ds) o := by
  obtain ⟨front, back, ends, rfl, hsplit⟩ := h
  refine ⟨d :: front, back, ends, rfl, List.forall_mem_cons.2 ⟨hd, hsplit.wiring⟩, ?_,
    hsplit.fewer, hsplit.rear.mono fun _ => List.mem_cons_of_mem d⟩
  rw [Doings.starts_cons, hs, hsplit.starts]
  rfl

/-- One more stage has been started before. -/
theorem Staffed.feed {read write : Nat} {pid : Pid} (h : Staffed env ss unnamed ds o) :
    Staffed env (stage :: ss) unnamed (.called .pipe (.ok (read, write)) ::
      .forked (upstream env stage read write).run (.ok pid) :: ds) o := by
  obtain ⟨front, back, ends, rfl, hsplit⟩ := h
  refine ⟨.called .pipe (.ok (read, write)) ::
    .forked (upstream env stage read write).run (.ok pid) :: front, back, (read, write) :: ends, rfl,
    ?_, ?_, Nat.succ_lt_succ hsplit.fewer, ?_⟩
  · refine List.forall_mem_cons.2 ⟨.calls rfl _, List.forall_mem_cons.2 ⟨.forks _ _, hsplit.wiring⟩⟩
  · simp [Doing.start?, hsplit.starts]
  · have hfewer := hsplit.fewer
    have hrear := hsplit.rear.mono fun d hd =>
      List.mem_cons_of_mem (.called .pipe (.ok (read, write))) (List.mem_cons_of_mem
        (.forked (upstream env stage read write).run (.ok pid)) hd)
    cases hrear with
    | wires a => exact .wires a
    | dies => exact .dies
    | fails h hpath => exact .fails h hpath
    | executes hlast hk hpath =>
      refine .executes ?_ (congrArg Nat.succ hk) hpath
      rw [List.getLast?_cons, hlast]
      rfl

/-- Something is refused, which is reported. -/
theorem staffed_refused (hss : ss ≠ []) (hd : d.IsWiring) (hrefused : d.IsRefused)
    (hs : d.start? = none) (h : (concluded (.error f)).Path rest o) :
    Staffed env ss unnamed (d :: rest) o := by
  refine ⟨[d], rest, [], rfl, List.forall_mem_singleton.2 hd, ?_, List.length_pos_iff.2 hss,
    .fails (.inr ⟨d, List.mem_cons_self, hrefused⟩) h⟩
  rw [Doings.starts_cons, hs, List.zipWith_nil_right]
  rfl

/-- A process comes past a call, or has not made it. -/
theorem staffed_call {c : Call} {next : c.Reply → Act} (hss : ss ≠ [])
    (h : (Act.call c next).Path ds o) (hc : c.wires)
    (hrest : ∀ reply, ∀ rest : Doings, (next reply).Path rest o →
      Staffed env ss unnamed (.called c reply :: rest) o) : Staffed env ss unnamed ds o := by
  have hx (path : Bytes) (args env : List Bytes) : c ≠ .exec path args env := by
    rintro rfl
    cases hc
  rcases h.of_call hx with (⟨rfl, rfl⟩ | ⟨rfl, rfl⟩) | ⟨reply, rest, rfl, hpath⟩
  · exact staffed_of_rear hss (.wires _)
  · exact staffed_of_rear hss .dies
  · exact hrest reply rest hpath

/-- A call on whose answer nothing depends. -/
theorem staffed_plain {c : Call} {next : c.Reply → Act} (hss : ss ≠ [])
    (h : (Act.call c next).Path ds o) (hc : c.wires)
    (hrest : ∀ reply, ∀ rest : Doings, (next reply).Path rest o →
      Staffed env ss unnamed rest o) : Staffed env ss unnamed ds o :=
  staffed_call hss h hc fun reply rest hpath => (hrest reply rest hpath).cons (.calls hc reply) rfl

section

variable {k : Except LaunchFailure Unit → Act}

/-- A descriptor is copied, or that is refused. -/
theorem staffed_dup2 {fd target : Nat} (hss : ss ≠ [])
    (hk : ∀ f, k (.error f) = concluded (.error f))
    (hrest : ∀ rest : Doings, (k (.ok ())).Path rest o → Staffed env ss unnamed rest o)
    (h : (thenDo (attempt (.call (.dup2 fd target))) k).Path ds o) :
    Staffed env ss unnamed ds o := by
  rw [thenDo_attempt, Prog.thenDo_call] at h
  refine staffed_call hss h rfl fun (r : Except Errno Unit) rest hpath => ?_
  cases r with
  | error e =>
    have hpath : (k (.error (.system e))).Path rest o := hpath
    rw [hk] at hpath
    exact staffed_refused hss (.calls rfl _) .copies rfl hpath
  | ok u => exact (hrest rest hpath).cons (.calls rfl _) rfl

theorem staffed_close {fd : Nat} {k : Except LaunchFailure Unit → Act} (hss : ss ≠ [])
    (hrest : ∀ rest : Doings, (k (.ok ())).Path rest o → Staffed env ss unnamed rest o)
    (h : (thenDo (regardless (.call (.close fd))) k).Path ds o) : Staffed env ss unnamed ds o := by
  rw [thenDo_regardless, Prog.thenDo_call] at h
  exact staffed_plain hss h rfl fun _ => hrest

/-- A stage is started behind a new pipe. -/
theorem staffed_feed (hss : ss ≠ [])
    (hk : ∀ f, k (.error f) = concluded (.error f))
    (hrest : ∀ rest : Doings, (k (.ok ())).Path rest o → Staffed env ss unnamed rest o)
    (h : (thenDo (feed env stage) k).Path ds o) : Staffed env (stage :: ss) unnamed ds o := by
  have hcons : stage :: ss ≠ [] := List.cons_ne_nil _ _
  unfold Launch.feed at h
  rw [thenDo_bind, thenDo_attempt, Prog.thenDo_call] at h
  refine staffed_call hcons h rfl fun (r : Except Errno (Nat × Nat)) rest h => ?_
  cases r with
  | error e =>
    have h : (k (.error (.system e))).Path rest o := h
    rw [hk] at h
    exact staffed_refused hcons (.calls rfl _) .pipes rfl h
  | ok ends =>
    obtain ⟨read, write⟩ := ends
    dsimp only [Except.mapError] at h
    rw [thenDo_bind, thenDo_attempt, Prog.thenDo_fork] at h
    rcases h.of_fork with (⟨rfl, rfl⟩ | ⟨rfl, rfl⟩) | ⟨pid, rest, rfl, hforked⟩
    · exact (staffed_of_rear hcons (.wires _)).cons (.calls rfl _) rfl
    · exact (staffed_of_rear hcons .dies).cons (.calls rfl _) rfl
    · cases pid with
      | error e =>
        have hforked : (k (.error (.system e))).Path rest o := hforked
        rw [hk] at hforked
        exact (staffed_refused hcons (.forks _ _) .forks rfl hforked).cons (.calls rfl _) rfl
      | ok pid =>
        refine .feed ?_
        dsimp only [Except.mapError] at hforked
        rw [thenDo_bind] at hforked
        refine staffed_dup2 hss ?_ (fun rest h => ?_) hforked
        · exact hk
        · dsimp only at h
          rw [thenDo_bind] at h
          exact staffed_close hss (fun rest h => staffed_close hss hrest h) h

end

/-- A process that has been wired executes the program of the last stage. -/
theorem staffed_execute (h : (thenDo (execute env stage) concluded).Path ds o) :
    Staffed env [stage] unnamed ds o :=
  staffed_of_rear (List.cons_ne_nil _ _) (.executes rfl rfl h)

/-- The process of a stage with another one behind it. -/
theorem staffed_upstream {read write : Nat} (h : (upstream env stage read write).run.Path ds o) :
    Staffed env [stage] False ds o := by
  have hss : [stage] ≠ [] := List.cons_ne_nil _ _
  unfold upstream at h
  rw [run_report, thenDo_bind] at h
  refine staffed_close hss (fun rest h => ?_) h
  dsimp only at h
  rw [thenDo_bind] at h
  refine staffed_dup2 hss (fun _ => rfl) (fun rest h => ?_) h
  dsimp only at h
  rw [thenDo_bind] at h
  exact staffed_close hss (fun rest => staffed_execute) h

/-- The stages but the last are started, and the process becomes the last. -/
theorem staffed_stages (hss : ss ≠ []) (h : (thenDo (stages env ss) concluded).Path ds o) :
    Staffed env ss unnamed ds o := by
  induction ss generalizing ds with
  | nil => exact absurd rfl hss
  | cons stage rest ih =>
    cases rest with
    | nil => exact staffed_execute h
    | cons next rest =>
      unfold stages at h
      rw [thenDo_bind] at h
      have hnext : next :: rest ≠ [] := List.cons_ne_nil _ _
      exact staffed_feed hnext (fun _ => rfl) (fun _ hpath => ih hnext hpath) h

/-! ## The leader -/

/-- What the leader of a job does: it makes itself a group, and then it wires itself. -/
inductive Heads (env : List Bytes) (p : Pipeline) : Doings → Option Act → Prop where
  | waits (a : Act) : Heads env p [] (some a)
  | dies : Heads env p [.killed] none
  | leads (reply : Except Errno Unit) {ds : Doings} {o : Option Act}
      (h : Staffed env p.stages (∃ r ∈ p.redirect, 0 ∈ Bytes.ofString r.target) ds o) :
      Heads env p (.called (.setGroup 0 0) reply :: ds) o

/-- The redirection is opened and bound, unless that is refused. -/
theorem staffed_redirect {r : Redirect} {k : Except LaunchFailure Unit → Act} (hss : ss ≠ [])
    (hk : ∀ f, k (.error f) = concluded (.error f))
    (hrest : ∀ rest : Doings, (k (.ok ())).Path rest o → Staffed env ss unnamed rest o)
    (hunnamed : 0 ∈ Bytes.ofString r.target → unnamed)
    (h : (thenDo (redirect r) k).Path ds o) : Staffed env ss unnamed ds o := by
  unfold redirect at h
  rw [thenDo_bind, thenDo_mk_pure] at h
  by_cases hnul : 0 ∈ Bytes.ofString r.target
  · have hname : targetName r = .error (.io .nulInName) := if_pos hnul
    rw [hname] at h
    have h : (k (.error (.io .nulInName))).Path ds o := h
    rw [hk] at h
    exact staffed_of_rear hss (.fails (.inl (hunnamed hnul)) h)
  · have hname : targetName r = .ok (Bytes.ofString r.target) := if_neg hnul
    rw [hname] at h
    dsimp only at h
    rw [thenDo_bind, thenDo_attempt, Prog.thenDo_call] at h
    refine staffed_call hss h rfl fun (opened : Except Errno Nat) rest hpath => ?_
    cases opened with
    | error e =>
      have hpath : (k (.error (.system e))).Path rest o := hpath
      rw [hk] at hpath
      exact staffed_refused hss (.calls rfl _) .opens rfl hpath
    | ok fd =>
      dsimp only [Except.mapError] at hpath
      rw [thenDo_bind] at hpath
      refine .cons (staffed_dup2 hss ?_ (fun rest h => ?_) hpath) (.calls rfl _) rfl
      · exact hk
      · exact staffed_close hss hrest h

theorem staffed_pipeline {p : Pipeline} (hss : p.stages ≠ [])
    (h : (thenDo (pipeline env p) concluded).Path ds o) :
    Staffed env p.stages (∃ r ∈ p.redirect, 0 ∈ Bytes.ofString r.target) ds o := by
  unfold pipeline at h
  cases hr : p.redirect with
  | none =>
    rw [hr] at h
    exact staffed_stages hss h
  | some r =>
    rw [hr] at h
    dsimp only at h
    rw [thenDo_bind] at h
    exact staffed_redirect hss (fun _ => rfl) (fun _ => staffed_stages hss)
      (fun hnul => ⟨r, rfl, hnul⟩) h

/-- Whatever the leader of a job has done, it is this. -/
theorem heads_leader {p : Pipeline} (hss : p.stages ≠ []) (h : (leader env p).run.Path ds o) :
    Heads env p ds o := by
  unfold leader resetSignals at h
  rw [Prog.run_eq_thenDo] at h
  simp only [Prog.thenDo_bind] at h
  rcases h.of_call nofun with (⟨rfl, rfl⟩ | ⟨rfl, rfl⟩) | ⟨reply, rest, rfl, hrest⟩
  · exact .waits _
  · exact .dies
  · refine .leads reply ?_
    refine staffed_plain hss hrest rfl fun _ _ h => ?_
    refine staffed_plain hss h rfl fun _ _ h => ?_
    refine staffed_plain hss h rfl fun _ _ h => ?_
    refine staffed_plain hss h rfl fun _ _ h => ?_
    rw [← Prog.run_eq_thenDo, run_report] at h
    exact staffed_pipeline hss h

end Launch

end JobShell
