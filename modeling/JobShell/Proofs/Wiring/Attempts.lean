import JobShell.Proofs.Wiring.Handed
import JobShell.Proofs.Wiring.Paths

/-!
# Attempts to execute the program of a stage

A process of a job that comes to execute the program of its stage tries the files that the name of
the program may stand for, and hands over the arguments of that stage each time. It becomes the
program and has written nothing, or it reports why not and ends.

* `Search.files`: the files that may be tried for a stage.
* `Doings.Faithful`: these files are tried with the arguments of the stage, and nothing else. A file
  whose format the system does not know goes to the command interpreter.
* `Search.Missed`: the system has refused each of the files, or has refused one for good.
* `Launch.Explains`: what a failure is due to.
* `Launch.Tries`: what has been done to execute the program of a stage; `Launch.tries_execute` says
  that nothing else can have been done.
-/

namespace JobShell

/-- The files that may be tried to execute a program with these arguments. -/
def Search.files (env argv : List Bytes) : List Bytes :=
  match argv with
  | [] => []
  | name :: _ =>
    if name.isEmpty then []
    else if Bytes.slash ∈ name then [name]
    else candidates ((Environment.get? env "PATH").getD defaultPath) name

namespace Doing

/-- The file it tries to execute, and with which arguments. -/
def attempt? : Doing → Option (Bytes × List Bytes)
  | called (.exec path args _) _ => some (path, args)
  | executed path args _ => some (path, args)
  | _ => none

/-- A program takes the place of its own. -/
def isStart : Doing → Bool
  | executed .. => true
  | _ => false

/-- It has to do with a program that is executed, with the report that there is none, or with the end
of the process. -/
def isFinal (d : Doing) : Bool := d.executes || d.write?.isSome || d.isLast

theorem idle {d : Doing} (h : d.executes = false) : d.attempt? = none ∧ d.isStart = false := by
  cases d with
  | called c reply => cases c <;> first | exact ⟨rfl, rfl⟩ | cases h
  | executed => cases h
  | _ => exact ⟨rfl, rfl⟩

end Doing

/-- The command interpreter is to be given this file, which the system has just refused for its
format, `last` being what has been done last. -/
def Search.Falls (argv : List Bytes) (last : Option Doing) (path : Bytes) (args : List Bytes) :
    Prop :=
  ∃ file env, last = some (.called (.exec file argv env) .ENOEXEC) ∧
    path = commandInterpreter ∧ args = commandInterpreter :: file :: argv.drop 1

namespace Doings

/-- One of these files is tried with these arguments each time, or the command interpreter is given
one. -/
def Faithful (files argv : List Bytes) : Option Doing → Doings → Prop
  | _, [] => True
  | last, d :: ds =>
    (∀ path args, d.attempt? = some (path, args) →
      path ∈ files ∧ args = argv ∨ Search.Falls argv last path args) ∧
    Faithful files argv (some d) ds

variable {files argv : List Bytes} {d : Doing} {ds : Doings}

theorem Faithful.mono (h : Faithful files argv none ds) (last : Option Doing) :
    Faithful files argv last ds := by
  cases ds with
  | nil => trivial
  | cons d ds =>
    refine ⟨fun path args hd => .inl ?_, h.2⟩
    rcases h.1 path args hd with hargs | ⟨_, _, hnone, -⟩
    · exact hargs
    · cases hnone

/-- No program is executed. -/
theorem faithful_of_none (h : ∀ d ∈ ds, d.attempt? = none) (last : Option Doing) :
    Faithful files argv last ds := by
  induction ds generalizing last with
  | nil => trivial
  | cons d ds ih =>
    obtain ⟨hd, hds⟩ := List.forall_mem_cons.1 h
    exact ⟨fun path args heq => (Option.some_ne_none _ (heq.symm.trans hd)).elim, ih hds _⟩

end Doings

/-- No program is found in these files: the system has refused each of them, or it has refused one,
or the command interpreter, with an error after which no other is tried. -/
inductive Search.Missed (files argv : List Bytes) (ds : Doings) : Prop where
  | everywhere (h : ∀ path ∈ files, ∃ env e, .called (.exec path argv env) e ∈ ds)
  | firmly {path : Bytes} {args env : List Bytes} {e : Errno}
      (h : .called (.exec path args env) e ∈ ds) (he : isPassable e = false)
      (hpath : path ∈ files ∧ e ≠ .ENOEXEC ∨ path = commandInterpreter) : Missed files argv ds

namespace Launch

/-- The program of a stage is not executed for this reason: an argument holds a NUL, there is none,
or the system has refused it in all that has been done. -/
inductive Explains (env : List Bytes) (stage : Stage) (ds : Doings) : LaunchFailure → Prop where
  | nul {a : String} (ha : a ∈ stage) (h : 0 ∈ Bytes.ofString a) :
      Explains env stage ds .nulInArgument
  | empty (h : stage = []) : Explains env stage ds .emptyCommand
  | missed {e : Errno} (h : Search.Missed (Search.files env (arguments stage)) (arguments stage) ds) :
      Explains env stage ds (.system e)

/-- What a process has done to execute the program of a stage, after `tried`. -/
structure Tries (env : List Bytes) (stage : Stage) (last : Option Doing) (tried ds : Doings) :
    Prop where
  faithful : ds.Faithful (Search.files env (arguments stage)) (arguments stage) last
  /-- Nothing is executed with an argument that holds a NUL. -/
  clean : ∀ d ∈ ds, d.executes → ∀ a ∈ stage, 0 ∉ Bytes.ofString a
  /-- A process that has become the program has reported nothing. -/
  silent : ∀ d ∈ ds, d.isStart → ds.writes = []
  /-- One that has not reports why. -/
  reports : (∀ d ∈ ds, d.isStart = false) →
    ∃ f, ds.Reports f ∧ (ds.writes ≠ [] → Explains env stage (tried ++ ds) f)
  final : ∀ d ∈ ds, d.isFinal

variable {stage : Stage} {f : LaunchFailure} {d : Doing} {last : Option Doing}
  {tried tried' ds : Doings} {o : Option Act} {e : Errno} {env : List Bytes} {k : Errno → Act}

theorem Explains.mono {ds' : Doings} (h : Explains env stage ds f) (hsub : ds ⊆ ds') :
    Explains env stage ds' f := by
  cases h with
  | nul ha h => exact .nul ha h
  | empty h => exact .empty h
  | missed h =>
    refine .missed ?_
    cases h with
    | everywhere h =>
      refine .everywhere fun path hpath => ?_
      obtain ⟨env, e, hmem⟩ := h path hpath
      exact ⟨env, e, hsub hmem⟩
    | firmly h he hpath => exact .firmly (hsub h) he hpath

/-- A call to execute a program that is refused comes before. -/
theorem Tries.refused {path : Bytes} {args env' : List Bytes}
    (h : Tries env stage (some (.called (.exec path args env') e))
      (tried ++ [.called (.exec path args env') e]) ds)
    (hclean : ∀ a ∈ stage, 0 ∉ Bytes.ofString a)
    (hargs : path ∈ Search.files env (arguments stage) ∧ args = arguments stage ∨
      Search.Falls (arguments stage) last path args) :
    Tries env stage last tried (.called (.exec path args env') e :: ds) where
  faithful := ⟨fun path' args' heq => by cases heq; exact hargs, h.faithful⟩
  clean _ _ _ := hclean
  silent := by
    refine List.forall_mem_cons.2 ⟨nofun, fun d hd hs => ?_⟩
    rw [Doings.writes_cons, h.silent d hd hs]
    rfl
  reports hnone := by
    obtain ⟨-, hnone⟩ := List.forall_mem_cons.1 hnone
    obtain ⟨f, hreports, hexplains⟩ := h.reports hnone
    refine ⟨f, hreports.cons rfl rfl, fun hw => ?_⟩
    rw [List.append_cons]
    rw [Doings.writes_cons] at hw
    exact hexplains hw
  final := List.forall_mem_cons.2 ⟨rfl, h.final⟩

theorem tries_nil (env : List Bytes) (stage : Stage) (last : Option Doing) (tried : Doings) :
    Tries env stage last tried [] where
  faithful := trivial
  clean := List.forall_mem_nil _
  silent := List.forall_mem_nil _
  reports _ := ⟨.emptyCommand, ⟨List.nil_prefix, List.forall_mem_nil _⟩, absurd rfl⟩
  final := List.forall_mem_nil _

theorem tries_killed (env : List Bytes) (stage : Stage) (last : Option Doing) (tried : Doings) :
    Tries env stage last tried [.killed] where
  faithful := ⟨nofun, trivial⟩
  clean := List.forall_mem_singleton.2 nofun
  silent := List.forall_mem_singleton.2 nofun
  reports _ := ⟨.emptyCommand, (Stopped.killed _).reports, absurd rfl⟩
  final := List.forall_mem_singleton.2 rfl

/-- The system executes the program. -/
theorem tries_executed {path : Bytes} {args env' : List Bytes}
    (hclean : ∀ a ∈ stage, 0 ∉ Bytes.ofString a)
    (hargs : path ∈ Search.files env (arguments stage) ∧ args = arguments stage ∨
      Search.Falls (arguments stage) last path args) :
    Tries env stage last tried [.executed path args env'] where
  faithful := ⟨fun path' args' heq => by cases heq; exact hargs, trivial⟩
  clean _ _ _ := hclean
  silent _ _ _ := rfl
  reports hnone := nomatch hnone _ List.mem_cons_self
  final := List.forall_mem_singleton.2 rfl

theorem Tries.mono (h : Tries env stage none tried ds) (last : Option Doing) :
    Tries env stage last tried ds :=
  { h with faithful := h.faithful.mono last }

/-- The failure is reported. -/
theorem tries_concluded (hf : Explains env stage tried f)
    (h : (concluded (.error f)).Path ds o) : Tries env stage last tried ds := by
  have hs := (stopped_concluded h).1
  refine ⟨Doings.faithful_of_none (fun d hd => (Doing.idle (hs.idle d hd)).1) _,
    fun d hd hx => ?_, fun d hd hst => ?_,
    fun _ => ⟨f, hs.reports, fun _ => hf.mono (List.subset_append_left _ _)⟩, ?_⟩
  · cases (hs.idle d hd).symm.trans hx
  · cases (Doing.idle (hs.idle d hd)).2.symm.trans hst
  · refine Act.Only.of_path (P := fun d => d.isFinal) h rfl ?_
    exact .call (fun _ => rfl) nofun fun _ => .exit rfl

/-! ## Looking for the program -/

/-- A program is executed, or something else is done if the system refuses it. -/
theorem tries_exec {path : Bytes} {args env' : List Bytes} {next : Errno → Act}
    (hclean : ∀ a ∈ stage, 0 ∉ Bytes.ofString a)
    (hargs : path ∈ Search.files env (arguments stage) ∧ args = arguments stage ∨
      Search.Falls (arguments stage) last path args)
    (hnext : ∀ e ds, (next e).Path ds o →
      Tries env stage (some (.called (.exec path args env') e))
        (tried ++ [.called (.exec path args env') e]) ds)
    (h : (Act.call (.exec path args env') next).Path ds o) : Tries env stage last tried ds := by
  cases h with
  | start => exact tries_nil env stage last tried
  | goes hd hrest =>
    cases hd with
    | calls e => exact (hnext e _ hrest).refused hclean hargs
  | ends hd =>
    cases hd with
    | executes => exact tries_executed hclean hargs
    | dies => exact tries_killed env stage last tried

/-- A file is executed, by the command interpreter if need be. What follows is due to the answer of
the system. -/
theorem tries_file {path : Bytes} (hclean : ∀ a ∈ stage, 0 ∉ Bytes.ofString a)
    (hpath : path ∈ Search.files env (arguments stage))
    (hk : ∀ tried' e ds, tried ⊆ tried' →
      (∃ e, .called (.exec path (arguments stage) env) e ∈ tried') →
      (Search.isPassable e = false →
        Search.Missed (Search.files env (arguments stage)) (arguments stage) tried') →
      (k e).Path ds o → Tries env stage none tried' ds)
    (h : ((Search.execute path (arguments stage) env).thenDo k).Path ds o) :
    Tries env stage none tried ds := by
  rw [Search.thenDo_execute] at h
  refine tries_exec hclean (.inl ⟨hpath, rfl⟩) (fun e ds hrest => ?_) h
  have hmem : .called (.exec path (arguments stage) env) e ∈
      tried ++ [.called (.exec path (arguments stage) env) e] := List.mem_concat_self
  split at hrest
  · rename_i he
    have he : e = .ENOEXEC := he
    subst he
    refine tries_exec hclean (.inr ⟨path, env, rfl, rfl, rfl⟩) (fun e' ds' hrest' => ?_) hrest
    refine (hk _ e' ds' (fun x hx => ?_) ⟨_, List.mem_append_left _ hmem⟩ (fun he' => ?_)
      hrest').mono _
    · exact List.mem_append_left _ (List.mem_append_left _ hx)
    · exact .firmly List.mem_concat_self he' (.inr rfl)
  · rename_i he
    have he : e ≠ .ENOEXEC := he
    refine (hk _ e ds (List.subset_append_left _ _) ⟨e, hmem⟩ (fun he' => ?_) hrest).mono _
    exact .firmly hmem he' (.inl ⟨hpath, he⟩)

/-- The files that have not been tried are tried one after another. -/
theorem tries_tryAll (hclean : ∀ a ∈ stage, 0 ∉ Bytes.ofString a)
    (hk : ∀ tried' e ds,
      Search.Missed (Search.files env (arguments stage)) (arguments stage) tried' →
      (k e).Path ds o → Tries env stage none tried' ds)
    {paths : List Bytes} {denied : Bool}
    (hpaths : paths ⊆ Search.files env (arguments stage))
    (htried : ∀ path ∈ Search.files env (arguments stage), path ∉ paths →
      ∃ e, .called (.exec path (arguments stage) env) e ∈ tried)
    (h : ((Search.tryAll (arguments stage) env denied e paths).thenDo k).Path ds o) :
    Tries env stage none tried ds := by
  induction paths generalizing tried denied e ds with
  | nil =>
    refine hk tried _ ds (.everywhere fun path hpath => ?_) h
    exact ⟨env, htried path hpath List.not_mem_nil⟩
  | cons path rest ih =>
    obtain ⟨hpath, hrest⟩ := List.cons_subset.1 hpaths
    unfold Search.tryAll at h
    rw [Prog.thenDo_bind] at h
    refine tries_file hclean hpath (fun tried' e' ds' hsub hself hmissed hnext => ?_) h
    split at hnext
    · refine ih hrest (fun path' hpath' hnot => ?_) hnext
      by_cases heq : path' = path
      · exact heq ▸ hself
      · obtain ⟨e, hmem⟩ := htried path' hpath' fun hmem =>
          (List.mem_cons.1 hmem).elim heq hnot
        exact ⟨e, hsub hmem⟩
    · rename_i hfirm
      exact hk tried' e' ds' (hmissed (Bool.not_eq_true _ ▸ hfirm)) hnext

theorem tries_run {name : Bytes} {rest : List Bytes} (hargv : arguments stage = name :: rest)
    (hclean : ∀ a ∈ stage, 0 ∉ Bytes.ofString a)
    (hk : ∀ tried' e ds,
      Search.Missed (Search.files env (arguments stage)) (arguments stage) tried' →
      (k e).Path ds o → Tries env stage none tried' ds)
    (h : ((Search.run (Environment.get? env "PATH") name (arguments stage) env).thenDo k).Path ds
      o) : Tries env stage none [] ds := by
  have hfiles : Search.files env (arguments stage) = if name.isEmpty then []
      else if Bytes.slash ∈ name then [name]
      else Search.candidates ((Environment.get? env "PATH").getD Search.defaultPath) name := by
    rw [hargv]
    rfl
  unfold Search.run at h
  split at h
  · rename_i hname
    refine hk [] _ ds (.everywhere ?_) h
    rw [hfiles, if_pos hname]
    exact List.forall_mem_nil _
  · rename_i hname
    rw [if_neg hname] at hfiles
    split at h
    · rename_i hslash
      rw [if_pos hslash] at hfiles
      refine tries_file hclean (by rw [hfiles]; exact List.mem_cons_self)
        (fun tried' e' ds' _ hself _ hnext => ?_) h
      refine hk tried' e' ds' (.everywhere ?_) hnext
      rw [hfiles]
      exact List.forall_mem_singleton.2 ⟨env, hself⟩
    · rename_i hslash
      rw [if_neg hslash] at hfiles
      refine tries_tryAll hclean hk (by rw [hfiles]; exact List.Subset.refl _)
        (fun path hpath hnot => ?_) h
      rw [hfiles] at hpath
      exact absurd hpath hnot

/-- A process that is to execute the program of a stage has done this for it, and nothing else. -/
theorem tries_execute (h : (thenDo (execute env stage) concluded).Path ds o) :
    Tries env stage none [] ds := by
  unfold execute at h
  rw [thenDo_bind, thenDo_mk_pure] at h
  rcases checkedArguments_cases stage with ⟨hclean, hargs⟩ | ⟨⟨a, ha, hnul⟩, hargs⟩
  · rw [hargs] at h
    dsimp only at h
    split at h
    · rename_i hnil
      exact tries_concluded (.empty (List.map_eq_nil_iff.1 hnil)) h
    · rename_i name rest hargv
      rw [thenDo_bind, thenDo_lift] at h
      exact tries_run hargv hclean (fun _ _ _ hmissed hpath => tries_concluded (.missed hmissed) hpath)
        h
  · rw [hargs] at h
    exact tries_concluded (.nul ha hnul) h

end Launch

end JobShell
