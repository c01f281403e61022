import JobShell.Proofs.Wiring.Programs

/-!
# What the processes of a job hand to the system

The leader of a job hands the target of the redirection to the system to be opened, and the words of
each stage as the arguments of a program, and nothing else of either kind.

* `Act.Hands`: what a program and the processes it starts still have to hand over.
* `Launch.Handable`: nothing keeps a job from being handed over, but the system.
* `Launch.hands_leader`: what the leader of a job hands over.
-/

namespace JobShell

/-- A call that hands over the name of a file to be opened, or the arguments of a program. -/
def Call.hands : Call → Bool
  | .open .. | .exec .. => true
  | _ => false

/-- The system does what is asked of it, where a process of a job depends on it. -/
def Call.Granted : (c : Call) → c.Reply → Prop
  | .pipe, r => ∃ ends, r = .ok ends
  | .dup2 .., r => r = .ok ()
  | _, _ => True

/-- A program and the processes it starts hand over a target to be opened, if there is one, and then
argument lists, each process one and each list once, in order. Nothing else is opened, and no program
is executed with other arguments, whatever the system answers; if `all`, then something is left out
only where the system refuses a call. A program that is refused may be executed again with the same
arguments, or given to the command interpreter as a file. -/
inductive Act.Hands : Prop → Option Bytes → List (List Bytes) → Act → Prop where
  | exit {all : Prop} {target : Option Bytes} {argvs : List (List Bytes)} {code : UInt8}
      (h : ¬all) : Hands all target argvs (.exit code)
  | other {all : Prop} {target : Option Bytes} {argvs : List (List Bytes)} {c : Call}
      {next : c.Reply → Act} (hc : c.hands = false)
      (h : ∀ r, c.Granted r → Hands all target argvs (next r))
      (he : ∀ r, ¬c.Granted r → Hands False target argvs (next r)) :
      Hands all target argvs (.call c next)
  | opens {all : Prop} {path : Bytes} {argvs : List (List Bytes)} {mode : OpenMode} {bits : Nat}
      {next : Except Errno Nat → Act} (h : ∀ fd, Hands all none argvs (next (.ok fd)))
      (he : ∀ e, Hands False none argvs (next (.error e))) :
      Hands all (some path) argvs (.call (.open path mode bits) next)
  | executes {all : Prop} {path : Bytes} {args env argv : List Bytes} {next : Errno → Act}
      (hargs : args = argv ∨
        ¬all ∧ ∃ file, args = Search.commandInterpreter :: file :: argv.drop 1)
      (he : ∀ e, Hands False none [argv] (next e)) :
      Hands all none [argv] (.call (.exec path args env) next)
  | forks {all : Prop} {argv : List Bytes} {argvs : List (List Bytes)} {child : Act}
      {next : Except Errno Pid → Act} (hmore : argvs ≠ []) (hc : Hands all none [argv] child)
      (h : ∀ pid, Hands all none argvs (next (.ok pid)))
      (he : ∀ e, Hands False none (argv :: argvs) (next (.error e))) :
      Hands all none (argv :: argvs) (.fork child next)

variable {all : Prop} {target : Option Bytes} {argv : List Bytes} {argvs : List (List Bytes)}

theorem Act.Hands.of_not {a : Act} (hall : ¬all) (h : a.Hands False target argvs) :
    a.Hands all target argvs := eq_false hall ▸ h

/-- A call on whose answer nothing depends. -/
theorem Act.Hands.plain {c : Call} {next : c.Reply → Act} (hc : c.hands = false)
    (hg : ∀ r, c.Granted r) (h : ∀ r, (next r).Hands all target argvs) :
    (Act.call c next).Hands all target argvs :=
  .other hc (fun r _ => h r) fun r hr => absurd (hg r) hr

/-! ## Executing -/

namespace Search

/-- A program of this name is looked for somewhere. -/
def Reaches (path : Option Bytes) (name : Bytes) : Prop :=
  Bytes.slash ∈ name ∨ candidates (path.getD defaultPath) name ≠ []

instance (path : Option Bytes) (name : Bytes) : Decidable (Reaches path name) :=
  inferInstanceAs (Decidable (_ ∨ _))

variable {k : Errno → Act} {env : List Bytes}

theorem hands_execute {path : Bytes} (hk : ∀ e, (k e).Hands False none [argv]) :
    ((execute path argv env).thenDo k).Hands all none [argv] := by
  rw [thenDo_execute]
  refine .executes (.inl rfl) fun e => ?_
  split
  · exact .executes (.inr ⟨id, path, rfl⟩) hk
  · exact hk e

theorem hands_tryAll (hk : ∀ e, (k e).Hands False none [argv]) (paths : List Bytes)
    (hpaths : all → paths ≠ []) (denied : Bool) (last : Errno) :
    ((tryAll argv env denied last paths).thenDo k).Hands all none [argv] := by
  induction paths generalizing all denied last with
  | nil => exact .of_not (fun hall => hpaths hall rfl) (hk _)
  | cons path rest ih =>
    unfold tryAll
    rw [Prog.thenDo_bind]
    refine hands_execute fun e => ?_
    split
    · exact ih False.elim _ _
    · exact hk e

theorem hands_run {path : Option Bytes} {name : Bytes}
    (hk : ∀ e, (k e).Hands False none [argv]) (hname : all → name ≠ [])
    (hreach : all → Reaches path name) :
    ((Search.run path name argv env).thenDo k).Hands all none [argv] := by
  unfold Search.run
  split
  · rename_i hnil
    exact .of_not (fun hall => hname hall (List.isEmpty_iff.1 hnil)) (hk _)
  · split
    · exact hands_execute hk
    · rename_i hslash
      exact hands_tryAll hk _ (fun hall => (hreach hall).resolve_left hslash) _ _

end Search

namespace Launch

variable {env : List Bytes} {stage : Stage} {stages : List Stage} {p : Pipeline}

/-- The arguments of a stage. -/
def arguments (stage : Stage) : List Bytes := stage.map Bytes.ofString

/-- Nothing keeps the program of a stage from being looked for. -/
structure Handable (env : List Bytes) (stage : Stage) : Prop where
  clean : ∀ a ∈ stage, 0 ∉ Bytes.ofString a
  reaches : ∃ name rest, arguments stage = name :: rest ∧ name ≠ [] ∧
    Search.Reaches (Environment.get? env "PATH") name

/-- A failure is reported, and nothing more is handed over. -/
theorem hands_concluded (e : LaunchFailure) : (concluded (.error e)).Hands False target argvs :=
  .plain rfl (fun _ => trivial) fun _ => .exit id

theorem checkedArguments_cases (stage : Stage) :
    (∀ a ∈ stage, 0 ∉ Bytes.ofString a) ∧
      (stage.mapM fun a => checkedArgument (Bytes.ofString a)) = .ok (arguments stage) ∨
    (∃ a ∈ stage, 0 ∈ Bytes.ofString a) ∧
      (stage.mapM fun a => checkedArgument (Bytes.ofString a)) = .error .nulInArgument := by
  induction stage with
  | nil => exact .inl ⟨List.forall_mem_nil _, rfl⟩
  | cons a rest ih =>
    rw [List.mapM_cons]
    by_cases ha : 0 ∈ Bytes.ofString a
    · refine .inr ⟨⟨a, List.mem_cons_self, ha⟩, ?_⟩
      rw [checkedArgument, if_pos ha]
      rfl
    · rw [checkedArgument, if_neg ha]
      rcases ih with ⟨hclean, h⟩ | ⟨⟨b, hb, hnul⟩, h⟩
      · refine .inl ⟨List.forall_mem_cons.2 ⟨ha, hclean⟩, ?_⟩
        rw [h]
        rfl
      · refine .inr ⟨⟨b, List.mem_cons_of_mem a hb, hnul⟩, ?_⟩
        rw [h]
        rfl

theorem hands_execute (h : all → Handable env stage) :
    (thenDo (execute env stage) concluded).Hands all none [arguments stage] := by
  unfold execute
  rw [thenDo_bind, thenDo_mk_pure]
  rcases checkedArguments_cases stage with ⟨-, hargs⟩ | ⟨⟨a, ha, hnul⟩, hargs⟩
  · rw [hargs]
    dsimp only
    cases hcons : arguments stage with
    | nil =>
      refine .of_not (fun hall => ?_) (hands_concluded _)
      obtain ⟨name, rest, hne, -⟩ := (h hall).reaches
      rw [hcons] at hne
      cases hne
    | cons name rest =>
      dsimp only
      rw [thenDo_bind, thenDo_lift]
      have hname : all → name ≠ [] ∧ Search.Reaches (Environment.get? env "PATH") name := by
        intro hall
        obtain ⟨name', rest', heq, hname⟩ := (h hall).reaches
        rw [hcons] at heq
        cases heq
        exact hname
      exact Search.hands_run (fun e => hands_concluded _) (fun hall => (hname hall).1)
        (fun hall => (hname hall).2)
  · rw [hargs]
    exact .of_not (fun hall => (h hall).clean a ha hnul) (hands_concluded _)

/-! ## The stages -/

theorem hands_close {fd : Nat} {k : Except LaunchFailure Unit → Act}
    (hk : (k (.ok ())).Hands all target argvs) :
    (thenDo (regardless (.call (.close fd))) k).Hands all target argvs := by
  rw [thenDo_regardless, Prog.thenDo_call]
  exact .plain rfl (fun _ => trivial) fun _ => hk

theorem hands_dup2 {fd goal : Nat} {k : Except LaunchFailure Unit → Act}
    (hk : (k (.ok ())).Hands all target argvs)
    (he : ∀ e, (k (.error e)).Hands False target argvs) :
    (thenDo (attempt (.call (.dup2 fd goal))) k).Hands all target argvs := by
  rw [thenDo_attempt, Prog.thenDo_call]
  refine .other rfl ?_ ?_
  · rintro r rfl
    exact hk
  · intro r hr
    cases r with
    | error e => exact he _
    | ok u => exact absurd rfl hr

theorem hands_pipe {k : Except LaunchFailure (Nat × Nat) → Act}
    (hk : ∀ ends, (k (.ok ends)).Hands all target argvs)
    (he : ∀ e, (k (.error e)).Hands False target argvs) :
    (thenDo (attempt (.call .pipe)) k).Hands all target argvs := by
  rw [thenDo_attempt, Prog.thenDo_call]
  refine .other rfl ?_ ?_
  · rintro r ⟨ends, rfl⟩
    exact hk ends
  · intro r hr
    cases r with
    | error e => exact he _
    | ok ends => exact absurd ⟨ends, rfl⟩ hr

theorem hands_upstream {r w : Nat} (h : all → Handable env stage) :
    ((upstream env stage r w).run).Hands all none [arguments stage] := by
  unfold upstream
  rw [run_report, thenDo_bind]
  refine hands_close ?_
  dsimp only
  rw [thenDo_bind]
  refine hands_dup2 ?_ hands_concluded
  dsimp only
  rw [thenDo_bind]
  exact hands_close (hands_execute h)

/-- A stage is started, and what follows hands over the rest. -/
theorem hands_feed {k : Except LaunchFailure Unit → Act} (h : all → Handable env stage)
    (hmore : argvs ≠ []) (hk : (k (.ok ())).Hands all none argvs)
    (he : ∀ argvs e, (k (.error e)).Hands False none argvs) :
    (thenDo (feed env stage) k).Hands all none (arguments stage :: argvs) := by
  unfold feed
  rw [thenDo_bind]
  refine hands_pipe ?_ (he _)
  rintro ⟨read, write⟩
  dsimp only
  rw [thenDo_bind, thenDo_attempt, Prog.thenDo_fork]
  refine .forks hmore (hands_upstream h) (fun pid => ?_) fun e => he _ _
  dsimp only [Except.mapError]
  rw [thenDo_bind]
  refine hands_dup2 ?_ (he _)
  dsimp only
  rw [thenDo_bind]
  exact hands_close (hands_close hk)

theorem hands_stages (hne : all → stages ≠ []) (h : all → ∀ s ∈ stages, Handable env s) :
    (thenDo (Launch.stages env stages) concluded).Hands all none (stages.map arguments) := by
  induction stages with
  | nil => exact .of_not (fun hall => hne hall rfl) (hands_concluded _)
  | cons stage rest ih =>
    have hstage : all → Handable env stage := fun hall => h hall stage List.mem_cons_self
    cases rest with
    | nil => exact hands_execute hstage
    | cons next rest =>
      unfold Launch.stages
      rw [thenDo_bind]
      have hrest : all → ∀ s ∈ next :: rest, Handable env s := fun hall s hs =>
        h hall s (List.mem_cons_of_mem stage hs)
      exact hands_feed hstage (List.cons_ne_nil _ _) (ih (fun _ => List.cons_ne_nil _ _) hrest)
        fun _ e => hands_concluded e

/-- The target is opened, and what follows hands over the rest. -/
theorem hands_redirect {r : Redirect} {k : Except LaunchFailure Unit → Act}
    (h : all → 0 ∉ Bytes.ofString r.target) (hk : (k (.ok ())).Hands all none argvs)
    (he : ∀ target e, (k (.error e)).Hands False target argvs) :
    (thenDo (redirect r) k).Hands all (some (Bytes.ofString r.target)) argvs := by
  unfold redirect
  rw [thenDo_bind, thenDo_mk_pure]
  by_cases hnul : 0 ∈ Bytes.ofString r.target
  · have hname : targetName r = .error (.io .nulInName) := if_pos hnul
    rw [hname]
    exact .of_not (fun hall => h hall hnul) (he _ _)
  · have hname : targetName r = .ok (Bytes.ofString r.target) := if_neg hnul
    rw [hname]
    dsimp only
    rw [thenDo_bind, thenDo_attempt, Prog.thenDo_call]
    refine .opens (fun fd => ?_) fun e => he _ _
    dsimp only [Except.mapError]
    rw [thenDo_bind]
    exact hands_dup2 (hands_close hk) (he _)

theorem hands_pipeline (hne : all → p.stages ≠ []) (h : all → ∀ s ∈ p.stages, Handable env s)
    (htarget : all → ∀ r ∈ p.redirect, 0 ∉ Bytes.ofString r.target) :
    (thenDo (pipeline env p) concluded).Hands all (p.redirect.map (Bytes.ofString ·.target))
      (p.stages.map arguments) := by
  obtain ⟨stages, redirect⟩ := p
  unfold pipeline
  cases redirect with
  | none => exact hands_stages hne h
  | some r =>
    dsimp only
    rw [thenDo_bind]
    exact hands_redirect (fun hall => htarget hall r rfl) (hands_stages hne h)
      fun _ e => hands_concluded e

/-- The leader hands over the target and the arguments of the stages, and nothing else; it hands over
all of them if nothing keeps it from that. -/
theorem hands_leader (hne : all → p.stages ≠ []) (h : all → ∀ s ∈ p.stages, Handable env s)
    (htarget : all → ∀ r ∈ p.redirect, 0 ∉ Bytes.ofString r.target) :
    ((leader env p).run).Hands all (p.redirect.map (Bytes.ofString ·.target))
      (p.stages.map arguments) := by
  unfold leader resetSignals
  rw [Prog.run_eq_thenDo]
  simp only [Prog.thenDo_bind]
  refine .plain rfl (fun _ => trivial) fun _ => .plain rfl (fun _ => trivial) fun _ =>
    .plain rfl (fun _ => trivial) fun _ => .plain rfl (fun _ => trivial) fun _ =>
    .plain rfl (fun _ => trivial) fun _ => ?_
  rw [← Prog.run_eq_thenDo, run_report]
  exact hands_pipeline hne h htarget

end Launch

end JobShell
