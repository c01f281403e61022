import JobShell.Proofs.Wiring.Programs

/-!
# What the leader of a job does

Whatever the system answers, the leader takes one of the paths of its program. Where the redirection
cannot be opened or a pipe cannot be made, the path is short.

* `Doing`: one thing a process does, with the answer it is given.
* `Act.Path`: a process with this program has done this so far, and this is what it has still to do.
* `Act.Only`: a program that does nothing but things of some kind.
* `Launch.Stopped`, `Launch.Halted`: what has been done where the redirection could not be opened,
  and where a pipe could not be made.
* `Launch.wires_leader`: the leader of every job does so.
-/

namespace JobShell

/-- One thing a process does, with the answer it is given. -/
inductive Doing where
  | called (c : Call) (reply : c.Reply)
  | forked (child : Act) (reply : Except Errno Pid)
  /-- Another program takes the place of its own. -/
  | executed (path : Bytes) (args env : List Bytes)
  | exited (code : UInt8)
  /-- A signal ends it. -/
  | killed
  /-- It takes a SIGINT, writes this and ends, whatever the answer. -/
  | interrupted (text : Bytes) (reply : Except Errno Nat)

/-- A call that leaves the tree of files as it is. -/
def Call.isCalm : Call → Bool
  | setGroup .. | dispose .. | unblock _ | close _ | dup2 .. | pipe => true
  | _ => false

namespace Doing

/-- What it opens, how, and the answer. -/
def open? : Doing → Option (Bytes × OpenMode × Nat × Except Errno Nat)
  | called (.open path mode bits) reply => some (path, mode, bits, reply)
  | _ => none

/-- The answer to its asking for a pipe. -/
def pipe? : Doing → Option (Except Errno (Nat × Nat))
  | called .pipe reply => some reply
  | _ => none

/-- The program of the process it starts. -/
def start? : Doing → Option Act
  | forked child (.ok _) => some child
  | _ => none

/-- What it writes, and where. -/
def write? : Doing → Option (Nat × Bytes)
  | called (.write fd text) _ => some (fd, text)
  | interrupted text _ => some (1, text)
  | _ => none

/-- It tries to execute a program. -/
def executes : Doing → Bool
  | called (.exec ..) _ | executed .. => true
  | _ => false

/-- The process does nothing more with its program. -/
def isLast : Doing → Bool
  | executed .. | exited _ | killed | interrupted .. => true
  | _ => false

/-- The exit code with which it ends the process. -/
def code? : Doing → Option UInt8
  | exited code => some code
  | interrupted .. => some 0
  | _ => none

/-- A signal ends it, or has it take its leave. -/
def isCutShort : Doing → Bool
  | killed | interrupted .. => true
  | _ => false

/-- It cannot change the tree of files. -/
def isCalm : Doing → Bool
  | called c _ => c.isCalm
  | interrupted .. => false
  | _ => true

/-- It opens no file and makes no pipe. -/
structure MakesNothing (d : Doing) : Prop where
  opens : d.open? = none
  pipe : d.pipe? = none

/-- It does not show in what is asked about the leader of a job, but for what it opens. -/
structure IsMinor (d : Doing) : Prop where
  pipe : d.pipe? = none
  start : d.start? = none
  write : d.write? = none
  executes : d.executes = false

end Doing

/-- What a process does, one thing after another. -/
abbrev Doings := List Doing

namespace Doings

def opens (ds : Doings) : List (Bytes × OpenMode × Nat × Except Errno Nat) :=
  ds.filterMap Doing.open?

def pipes (ds : Doings) : List (Except Errno (Nat × Nat)) := ds.filterMap Doing.pipe?

def starts (ds : Doings) : List Act := ds.filterMap Doing.start?

def writes (ds : Doings) : List (Nat × Bytes) := ds.filterMap Doing.write?

/-- A failure is reported on standard error, which ends the process if no signal does. -/
structure Reports (ds : Doings) (f : LaunchFailure) : Prop where
  once : ds.writes <+: [(2, Bytes.ofString (reportLine f.message))]
  ended : ∀ d ∈ ds, d.isLast → ds.getLast? = some d ∧
    (d = .killed ∨ d = .exited 1 ∧ ds.writes = [(2, Bytes.ofString (reportLine f.message))])

end Doings

/-! ## Paths -/

namespace Act

/-- A process with this program does this next, and has this program then, if it goes on with one of
its own. -/
inductive Does : Act → Doing → Option Act → Prop where
  | calls {c : Call} {next : c.Reply → Act} (reply : c.Reply) :
      Does (.call c next) (.called c reply) (some (next reply))
  | forks {child : Act} {next : Except Errno Pid → Act} (reply : Except Errno Pid) :
      Does (.fork child next) (.forked child reply) (some (next reply))
  | executes {path : Bytes} {args env : List Bytes} {next : Errno → Act} :
      Does (.call (.exec path args env) next) (.executed path args env) none
  | exits {code : UInt8} : Does (.exit code) (.exited code) none
  | dies {a : Act} : Does a .killed none

/-- The same for what it does one thing after another. -/
inductive Path : Act → Doings → Option Act → Prop where
  | start (a : Act) : Path a [] (some a)
  | goes {a b : Act} {d : Doing} {ds : Doings} {o : Option Act} (h : a.Does d (some b))
      (hrest : Path b ds o) : Path a (d :: ds) o
  | ends {a : Act} {d : Doing} (h : a.Does d none) : Path a [d] none

variable {a b : Act} {d : Doing} {ds : Doings} {o : Option Act} {P : Doing → Prop}

theorem Path.snoc (h : a.Path ds (some b)) (hd : b.Does d o) : a.Path (ds ++ [d]) o := by
  generalize ho : some b = o' at h
  induction h with
  | start a =>
    obtain rfl := Option.some.inj ho
    cases o with
    | none => exact .ends hd
    | some c => exact .goes hd (.start c)
  | goes hfirst _ ih => exact .goes hfirst (ih ho)
  | ends => cases ho

theorem Does.isLast_iff (h : a.Does d o) : d.isLast ↔ o = none := by
  cases h <;> simp [Doing.isLast]

/-- What a process does last with its program stands at the end. -/
theorem Path.of_isLast (h : a.Path ds o) (hmem : d ∈ ds) (hl : d.isLast) :
    ds.getLast? = some d ∧ o = none := by
  induction h with
  | start => cases hmem
  | goes hd hrest ih =>
    rcases List.mem_cons.1 hmem with rfl | hmem
    · cases hd.isLast_iff.1 hl
    · obtain ⟨hlast, ho⟩ := ih hmem
      refine ⟨?_, ho⟩
      rw [List.getLast?_cons, hlast]
      rfl
  | ends hd =>
    obtain rfl := List.mem_singleton.1 hmem
    exact ⟨rfl, rfl⟩

/-- A process that has nothing more to do with its program has done something last. -/
theorem Path.exists_last (h : a.Path ds none) : ∃ d, ds.getLast? = some d ∧ d.isLast := by
  generalize ho : none = o at h
  induction h with
  | start => cases ho
  | goes hd hrest ih =>
    obtain ⟨d, hlast, hl⟩ := ih ho
    refine ⟨d, ?_, hl⟩
    rw [List.getLast?_cons, hlast]
    rfl
  | ends hd => exact ⟨_, rfl, hd.isLast_iff.2 rfl⟩

theorem Path.of_call {c : Call} {next : c.Reply → Act} (h : (Act.call c next).Path ds o)
    (hc : ∀ path args env, c ≠ .exec path args env) :
    (ds = [] ∧ o = some (.call c next) ∨ ds = [.killed] ∧ o = none) ∨
      ∃ reply rest, ds = .called c reply :: rest ∧ (next reply).Path rest o := by
  cases h with
  | start => exact .inl (.inl ⟨rfl, rfl⟩)
  | goes hd hrest =>
    cases hd with
    | calls reply => exact .inr ⟨reply, _, rfl, hrest⟩
  | ends hd =>
    cases hd with
    | executes => exact absurd rfl (hc _ _ _)
    | dies => exact .inl (.inr ⟨rfl, rfl⟩)

theorem Path.of_fork {child : Act} {next : Except Errno Pid → Act}
    (h : (Act.fork child next).Path ds o) :
    (ds = [] ∧ o = some (.fork child next) ∨ ds = [.killed] ∧ o = none) ∨
      ∃ reply rest, ds = .forked child reply :: rest ∧ (next reply).Path rest o := by
  cases h with
  | start => exact .inl (.inl ⟨rfl, rfl⟩)
  | goes hd hrest =>
    cases hd with
    | forks reply => exact .inr ⟨reply, _, rfl, hrest⟩
  | ends hd =>
    cases hd with
    | dies => exact .inl (.inr ⟨rfl, rfl⟩)

theorem Path.of_exit {code : UInt8} (h : (Act.exit code).Path ds o) :
    ds = [] ∧ o = some (.exit code) ∨
      o = none ∧ ∃ d, ds = [d] ∧ (d = .killed ∨ d = .exited code) := by
  cases h with
  | start => exact .inl ⟨rfl, rfl⟩
  | goes hd => cases hd
  | ends hd =>
    cases hd with
    | exits => exact .inr ⟨rfl, _, rfl, .inr rfl⟩
    | dies => exact .inr ⟨rfl, _, rfl, .inl rfl⟩

/-- Whatever it is told, a process with this program does nothing but things of this kind. -/
inductive Only (P : Doing → Prop) : Act → Prop where
  | exit {code : UInt8} (h : P (.exited code)) : Only P (.exit code)
  | call {c : Call} {next : c.Reply → Act} (hc : ∀ reply, P (.called c reply))
      (hx : ∀ path args env, c = .exec path args env → P (.executed path args env))
      (h : ∀ reply, Only P (next reply)) : Only P (.call c next)
  | fork {child : Act} {next : Except Errno Pid → Act} (hc : ∀ reply, P (.forked child reply))
      (h : ∀ reply, Only P (next reply)) : Only P (.fork child next)

theorem Only.mono {Q : Doing → Prop} (h : a.Only P) (hPQ : ∀ d, P d → Q d) : a.Only Q := by
  induction h with
  | exit h => exact .exit (hPQ _ h)
  | call hc hx _ ih =>
    exact .call (fun r => hPQ _ (hc r)) (fun _ _ _ heq => hPQ _ (hx _ _ _ heq)) ih
  | fork hc _ ih => exact .fork (fun r => hPQ _ (hc r)) ih

theorem Only.of_path (h : a.Path ds o) (hk : P .killed) (ha : a.Only P) : ∀ d ∈ ds, P d := by
  induction h with
  | start => exact List.forall_mem_nil _
  | goes hd _ ih =>
    cases hd with
    | calls reply => cases ha with | call hc hx h => exact List.forall_mem_cons.2 ⟨hc _, ih (h _)⟩
    | forks reply => cases ha with | fork hc h => exact List.forall_mem_cons.2 ⟨hc _, ih (h _)⟩
  | ends hd =>
    refine List.forall_mem_singleton.2 ?_
    cases hd with
    | executes => cases ha with | call hc hx h => exact hx _ _ _ rfl
    | exits => cases ha with | exit h => exact h
    | dies => exact hk

end Act

/-! ## Failures -/

namespace Doings

variable {d : Doing} {ds : Doings} {f : LaunchFailure}

@[simp] theorem opens_cons (d : Doing) (ds : Doings) :
    opens (d :: ds) = d.open?.toList ++ ds.opens := by
  unfold opens
  cases h : d.open? <;> simp [h]

@[simp] theorem pipes_cons (d : Doing) (ds : Doings) :
    pipes (d :: ds) = d.pipe?.toList ++ ds.pipes := by
  unfold pipes
  cases h : d.pipe? <;> simp [h]

@[simp] theorem starts_cons (d : Doing) (ds : Doings) :
    starts (d :: ds) = d.start?.toList ++ ds.starts := by
  unfold starts
  cases h : d.start? <;> simp [h]

@[simp] theorem writes_cons (d : Doing) (ds : Doings) :
    writes (d :: ds) = d.write?.toList ++ ds.writes := by
  unfold writes
  cases h : d.write? <;> simp [h]

theorem Reports.cons (h : ds.Reports f) (hw : d.write? = none) (hl : d.isLast = false) :
    Reports (d :: ds) f := by
  have hwrites : writes (d :: ds) = ds.writes := by simp [hw]
  refine ⟨hwrites ▸ h.once, fun d' hmem hlast => ?_⟩
  rcases List.mem_cons.1 hmem with rfl | hmem
  · rw [hl] at hlast
    cases hlast
  · obtain ⟨hd, hend⟩ := h.ended d' hmem hlast
    refine ⟨?_, hwrites ▸ hend⟩
    rw [List.getLast?_cons, hd]
    rfl

theorem Reports.wrote (reply : Except Errno Nat) (hw : ds.writes = [])
    (hover : ∀ d ∈ ds, ds.getLast? = some d ∧ (d = .killed ∨ d = .exited 1)) :
    Reports (.called (.write 2 (Bytes.ofString (reportLine f.message))) reply :: ds) f := by
  have hwrites : writes (.called (.write 2 (Bytes.ofString (reportLine f.message))) reply :: ds) =
      [(2, Bytes.ofString (reportLine f.message))] := by
    simp [Doing.write?, hw]
  refine ⟨hwrites ▸ List.prefix_rfl, List.forall_mem_cons.2 ⟨nofun, fun d hmem _ => ?_⟩⟩
  obtain ⟨hd, hend⟩ := hover d hmem
  refine ⟨?_, hend.imp_right fun h => ⟨h, hwrites⟩⟩
  rw [List.getLast?_cons, hd]
  rfl

end Doings

namespace Launch

/-- Whatever it is told, a process with this program makes calls that do not wait for anything,
reports the failure and ends. -/
inductive Concludes (f : LaunchFailure) : Act → Prop where
  | reports : Concludes f (concluded (.error f))
  | calls {c : Call} {next : c.Reply → Act} (hc : c.isCalm) (hp : c ≠ .pipe)
      (h : ∀ reply, Concludes f (next reply)) : Concludes f (.call c next)

/-- Nothing has been done for the job, and the failure is reported. -/
structure Stopped (ds : Doings) (o : Option Act) (f : LaunchFailure) : Prop where
  pipes : ds.pipes = []
  starts : ds.starts = []
  idle : ∀ d ∈ ds, d.executes = false
  reports : ds.Reports f
  left : ∀ a, o = some a → a = .exit 1 ∨ Concludes f a

/-- A pipe could not be made: a stage has been started behind each pipe before it, nothing has been
done to the tree of files but for what has been opened before, and the failure is reported. -/
structure Halted (env : List Bytes) (ss : List Stage) (ds : Doings) (o : Option Act) (e : Errno) :
    Prop where
  stages : ∃ ends : List (Nat × Nat), ends.length + 1 < ss.length ∧
    ds.pipes = ends.map .ok ++ [.error e] ∧
    ds.starts = List.zipWith (fun stage (r, w) => (upstream env stage r w).run) ss ends
  idle : ∀ d ∈ ds, d.executes = false
  calm : ∀ d ∈ ds, d.isCalm ∨ d.open?.isSome ∨ d.write?.isSome
  reports : ds.Reports (.system e)
  left : ∀ a, o = some a → a = .exit 1 ∨ Concludes (.system e) a

variable {env : List Bytes} {ss : List Stage} {stage : Stage} {d : Doing} {ds : Doings}
  {o : Option Act} {f : LaunchFailure} {e : Errno}

theorem minor_call {c : Call} (hc : c.isCalm) (hp : c ≠ .pipe) (reply : c.Reply) :
    (Doing.called c reply).IsMinor := by
  cases c <;> first | cases hc; done | exact ⟨rfl, rfl, rfl, rfl⟩ | exact absurd rfl hp

theorem Stopped.killed (f : LaunchFailure) : Stopped [.killed] none f := by
  refine ⟨rfl, rfl, List.forall_mem_singleton.2 rfl, ⟨List.nil_prefix, ?_⟩, nofun⟩
  exact List.forall_mem_singleton.2 fun _ => ⟨rfl, .inl rfl⟩

theorem Stopped.cons (h : Stopped ds o f) (hd : d.IsMinor) (hl : d.isLast = false) :
    Stopped (d :: ds) o f where
  pipes := by simp [hd.pipe, h.pipes]
  starts := by simp [hd.start, h.starts]
  idle := List.forall_mem_cons.2 ⟨hd.executes, h.idle⟩
  reports := h.reports.cons hd.write hl
  left := h.left

theorem Halted.cons (h : Halted env ss ds o e) (hd : d.IsMinor) (hl : d.isLast = false)
    (hc : d.isCalm ∨ d.open?.isSome ∨ d.write?.isSome) : Halted env ss (d :: ds) o e where
  stages := by simpa [hd.pipe, hd.start] using h.stages
  idle := List.forall_mem_cons.2 ⟨hd.executes, h.idle⟩
  calm := List.forall_mem_cons.2 ⟨hc, h.calm⟩
  reports := h.reports.cons hd.write hl
  left := h.left

theorem Stopped.nil {a : Act} (h : Concludes f a) : Stopped [] (some a) f := by
  refine ⟨rfl, rfl, List.forall_mem_nil _, ⟨List.nil_prefix, List.forall_mem_nil _⟩, ?_⟩
  rintro b hb
  exact Option.some.inj hb ▸ .inr h

/-- The failure is reported, and nothing else is done. -/
theorem stopped_concluded (h : (concluded (.error f)).Path ds o) :
    Stopped ds o f ∧ ∀ d ∈ ds, d.isCalm ∨ d.open?.isSome ∨ d.write?.isSome := by
  rcases h.of_call nofun with (⟨rfl, rfl⟩ | ⟨rfl, rfl⟩) | ⟨reply, rest, rfl, hrest⟩
  · exact ⟨.nil .reports, List.forall_mem_nil _⟩
  · exact ⟨.killed f, List.forall_mem_singleton.2 (.inl rfl)⟩
  · rcases hrest.of_exit with ⟨rfl, rfl⟩ | ⟨rfl, d, rfl, rfl | rfl⟩
    · refine ⟨⟨rfl, rfl, by simp [Doing.executes], .wrote reply rfl (by simp), ?_⟩,
        by simp [Doing.write?]⟩
      rintro a ha
      exact .inl (Option.some.inj ha).symm
    · exact ⟨⟨rfl, rfl, by simp [Doing.executes], .wrote reply rfl (by simp), nofun⟩,
        by simp [Doing.write?, Doing.isCalm]⟩
    · exact ⟨⟨rfl, rfl, by simp [Doing.executes], .wrote reply rfl (by simp), nofun⟩,
        by simp [Doing.write?, Doing.isCalm]⟩

/-- A process that can do nothing else has done nothing else. -/
theorem Concludes.stopped {a : Act} (ha : Concludes f a) (h : a.Path ds o) : Stopped ds o f := by
  induction ha generalizing ds with
  | reports => exact (stopped_concluded h).1
  | @calls c next hc hp hnext ih =>
    have hx (path : Bytes) (args env : List Bytes) : c ≠ .exec path args env := by
      rintro rfl
      cases hc
    rcases h.of_call hx with (⟨rfl, rfl⟩ | ⟨rfl, rfl⟩) | ⟨reply, rest, rfl, hrest⟩
    · exact .nil (.calls hc hp hnext)
    · exact .killed f
    · exact (ih reply hrest).cons (minor_call hc hp reply) rfl

end Launch

/-! ## Executing -/

section

variable {k : Errno → Act} (hk : ∀ e, (k e).Only Doing.MakesNothing)
include hk

theorem Search.only_execute (path : Bytes) (args env : List Bytes) :
    ((Search.execute path args env).thenDo k).Only Doing.MakesNothing := by
  rw [thenDo_execute]
  refine .call (fun _ => ⟨rfl, rfl⟩) (fun _ _ _ _ => ⟨rfl, rfl⟩) fun e => ?_
  split
  · exact .call (fun _ => ⟨rfl, rfl⟩) (fun _ _ _ _ => ⟨rfl, rfl⟩) hk
  · exact hk e

theorem Search.only_tryAll (args env paths : List Bytes) (denied : Bool) (last : Errno) :
    ((Search.tryAll args env denied last paths).thenDo k).Only Doing.MakesNothing := by
  induction paths generalizing denied last with
  | nil => exact hk _
  | cons path rest ih =>
    unfold tryAll
    rw [Prog.thenDo_bind]
    refine only_execute (fun e => ?_) path args env
    split
    · exact ih _ _
    · exact hk e

theorem Search.only_run (path : Option Bytes) (name : Bytes) (args env : List Bytes) :
    ((Search.run path name args env).thenDo k).Only Doing.MakesNothing := by
  unfold Search.run
  split
  · exact hk _
  · split
    · exact only_execute hk _ _ _
    · exact only_tryAll hk _ _ _ _ _

end

namespace Launch

variable {env : List Bytes} {ss : List Stage} {ds : Doings} {o : Option Act} {e : Errno}
  {f : LaunchFailure}

theorem only_concluded (f : LaunchFailure) :
    (concluded (.error f)).Only Doing.MakesNothing :=
  .call (fun _ => ⟨rfl, rfl⟩) nofun fun _ => .exit ⟨rfl, rfl⟩

theorem only_execute (env : List Bytes) (stage : Stage) :
    (thenDo (execute env stage) concluded).Only Doing.MakesNothing := by
  unfold execute
  rw [thenDo_bind, thenDo_mk_pure]
  cases stage.mapM fun a => checkedArgument (Bytes.ofString a) with
  | error f => exact only_concluded f
  | ok args =>
    cases args with
    | nil => exact only_concluded _
    | cons name rest =>
      dsimp only
      rw [thenDo_bind, thenDo_lift]
      exact Search.only_run (fun e => only_concluded _) _ _ _ _

/-! ## The stages -/

theorem only_feed {stage : Stage} {k : Except LaunchFailure Unit → Act}
    (hk : ∀ r, (k r).Only fun d => d.open? = none) :
    (thenDo (feed env stage) k).Only fun d => d.open? = none := by
  unfold feed
  rw [thenDo_bind, thenDo_attempt, Prog.thenDo_call]
  refine .call (fun _ => rfl) nofun fun (ends : Except Errno (Nat × Nat)) => ?_
  cases ends with
  | error e => exact hk _
  | ok ends =>
    dsimp only [Except.mapError]
    rw [thenDo_bind, thenDo_attempt, Prog.thenDo_fork]
    refine .fork (fun _ => rfl) fun pid => ?_
    cases pid with
    | error e => exact hk _
    | ok pid =>
      dsimp only [Except.mapError]
      rw [thenDo_bind, thenDo_attempt, Prog.thenDo_call]
      refine .call (fun _ => rfl) nofun fun (copied : Except Errno Unit) => ?_
      cases copied with
      | error e => exact hk _
      | ok copied =>
        dsimp only [Except.mapError]
        rw [thenDo_bind, thenDo_regardless, Prog.thenDo_call]
        refine .call (fun _ => rfl) nofun fun _ => ?_
        dsimp only
        rw [thenDo_regardless, Prog.thenDo_call]
        exact .call (fun _ => rfl) nofun fun _ => hk _

theorem only_stages (env : List Bytes) (ss : List Stage) :
    (thenDo (stages env ss) concluded).Only fun d => d.open? = none := by
  induction ss with
  | nil => exact (only_concluded _).mono fun _ h => h.opens
  | cons stage rest ih =>
    cases rest with
    | nil => exact (only_execute env stage).mono fun _ h => h.opens
    | cons next rest =>
      unfold stages
      rw [thenDo_bind]
      refine only_feed fun r => ?_
      cases r with
      | error f => exact (only_concluded f).mono fun _ h => h.opens
      | ok u => exact ih

/-- A process that could not make a pipe has come past a call before it. -/
theorem Halted.past {c : Call} {next : c.Reply → Act} (h : (Act.call c next).Path ds o)
    (he : .error e ∈ ds.pipes) (hc : c.isCalm) (hp : c ≠ .pipe)
    (hrest : ∀ reply, ∀ rest : Doings, (next reply).Path rest o → .error e ∈ rest.pipes →
      Halted env ss rest o e) : Halted env ss ds o e := by
  have hx (path : Bytes) (args env : List Bytes) : c ≠ .exec path args env := by
    rintro rfl
    cases hc
  rcases h.of_call hx with (⟨rfl, -⟩ | ⟨rfl, -⟩) | ⟨reply, rest, rfl, hpath⟩
  · cases he
  · cases he
  · have hminor := minor_call hc hp reply
    refine (hrest reply rest hpath ?_).cons hminor rfl (.inl hc)
    simpa [hminor.pipe] using he

/-- The first pipe could not be made. -/
theorem Halted.pipe (hss : 1 < ss.length) (h : (concluded (.error (.system e))).Path ds o) :
    Halted env ss (.called .pipe (.error e) :: ds) o e := by
  obtain ⟨hs, hcalm⟩ := stopped_concluded h
  refine ⟨⟨[], hss, ?_, ?_⟩, List.forall_mem_cons.2 ⟨rfl, hs.idle⟩,
    List.forall_mem_cons.2 ⟨.inl rfl, hcalm⟩, hs.reports.cons rfl rfl, hs.left⟩
  · simp [Doing.pipe?, hs.pipes]
  · simp [Doing.start?, hs.starts]

/-- One more stage has been started before. -/
theorem Halted.feed {stage : Stage} {read write : Nat} {pid : Pid} (h : Halted env ss ds o e) :
    Halted env (stage :: ss) (.called .pipe (.ok (read, write)) ::
      .forked (upstream env stage read write).run (.ok pid) :: ds) o e := by
  obtain ⟨ends, hlen, hpipes, hstarts⟩ := h.stages
  refine ⟨⟨(read, write) :: ends, Nat.succ_lt_succ hlen, ?_, ?_⟩,
    List.forall_mem_cons.2 ⟨rfl, List.forall_mem_cons.2 ⟨rfl, h.idle⟩⟩,
    List.forall_mem_cons.2 ⟨.inl rfl, List.forall_mem_cons.2 ⟨.inl rfl, h.calm⟩⟩,
    (h.reports.cons rfl rfl).cons rfl rfl, h.left⟩
  · simp [Doing.pipe?, hpipes]
  · simp [Doing.start?, hstarts]

/-- A stage is started behind a new pipe, or there is no pipe to be had. -/
theorem halted_feed {stage : Stage} {k : Except LaunchFailure Unit → Act} (hss : ss ≠ [])
    (hk : ∀ f, k (.error f) = concluded (.error f))
    (hrest : ∀ rest : Doings, (k (.ok ())).Path rest o → .error e ∈ rest.pipes →
      Halted env ss rest o e)
    (h : (thenDo (feed env stage) k).Path ds o) (he : .error e ∈ ds.pipes) :
    Halted env (stage :: ss) ds o e := by
  have hfailed {f : LaunchFailure} {rest : Doings} (hrest : (k (.error f)).Path rest o) :
      rest.pipes = [] := by
    rw [hk] at hrest
    exact (stopped_concluded hrest).1.pipes
  unfold Launch.feed at h
  rw [thenDo_bind, thenDo_attempt, Prog.thenDo_call] at h
  rcases h.of_call nofun with (⟨rfl, -⟩ | ⟨rfl, -⟩) | ⟨(ends : Except Errno (Nat × Nat)), ds₁, rfl, h₁⟩
  · cases he
  · cases he
  cases ends with
  | error e' =>
    have h₁ : (k (.error (.system e'))).Path ds₁ o := h₁
    obtain rfl : e = e' := by simpa [Doing.pipe?, hfailed h₁] using he
    rw [hk] at h₁
    exact .pipe (by have := List.length_pos_iff.2 hss; simp; omega) h₁
  | ok ends =>
    obtain ⟨read, write⟩ := ends
    dsimp only [Except.mapError] at h₁
    rw [thenDo_bind, thenDo_attempt, Prog.thenDo_fork] at h₁
    have he₁ : .error e ∈ Doings.pipes ds₁ := by simpa [Doing.pipe?] using he
    rcases h₁.of_fork with (⟨rfl, -⟩ | ⟨rfl, -⟩) | ⟨pid, ds₂, rfl, h₂⟩
    · cases he₁
    · cases he₁
    have he₂ : .error e ∈ Doings.pipes ds₂ := by simpa [Doing.pipe?] using he₁
    cases pid with
    | error e' =>
      rw [hfailed (f := .system e') h₂] at he₂
      cases he₂
    | ok pid =>
      dsimp only [Except.mapError] at h₂
      rw [thenDo_bind, thenDo_attempt, Prog.thenDo_call] at h₂
      refine .feed (.past h₂ he₂ rfl nofun fun (copied : Except Errno Unit) ds₃ h₃ he₃ => ?_)
      cases copied with
      | error e' =>
        rw [hfailed (f := .system e') h₃] at he₃
        cases he₃
      | ok copied =>
        dsimp only [Except.mapError] at h₃
        rw [thenDo_bind, thenDo_regardless, Prog.thenDo_call] at h₃
        refine .past h₃ he₃ rfl nofun fun closed ds₄ h₄ he₄ => ?_
        dsimp only at h₄
        rw [thenDo_regardless, Prog.thenDo_call] at h₄
        exact .past h₄ he₄ rfl nofun fun _ => hrest

/-- The pipe before the last stage, or one before it, could not be made. -/
theorem halted_stages (h : (thenDo (stages env ss) concluded).Path ds o)
    (he : .error e ∈ ds.pipes) : Halted env ss ds o e := by
  induction ss generalizing ds with
  | nil =>
    have hs := (stopped_concluded h).1
    rw [hs.pipes] at he
    cases he
  | cons stage rest ih =>
    cases rest with
    | nil =>
      have hnone := (only_execute env stage).of_path h ⟨rfl, rfl⟩
      obtain ⟨d, hmem, hd⟩ := List.mem_filterMap.1 he
      cases (hnone d hmem).pipe.symm.trans hd
    | cons next rest =>
      unfold stages at h
      rw [thenDo_bind] at h
      exact halted_feed (List.cons_ne_nil next rest) (fun _ => rfl) (fun _ hpath => ih hpath) h he

/-! ## The redirection -/

theorem opens_eq_nil (h : ∀ d ∈ ds, d.open? = none) : ds.opens = [] :=
  List.filterMap_eq_nil_iff.2 h

theorem opens_concluded (h : (concluded (.error f)).Path ds o) : ds.opens = [] :=
  opens_eq_nil fun d hmem => ((only_concluded f).of_path h ⟨rfl, rfl⟩ d hmem).opens

/-- Once its target is open, the redirection is bound, and nothing else is opened. -/
theorem only_bound {fd target : Nat} {k : Except LaunchFailure Unit → Act}
    (hk : ∀ r, (k r).Only fun d => d.open? = none) :
    (thenDo (do attempt (.call (.dup2 fd target)); regardless (.call (.close fd))) k).Only
      fun d => d.open? = none := by
  rw [thenDo_bind, thenDo_attempt, Prog.thenDo_call]
  refine .call (fun _ => rfl) nofun fun (copied : Except Errno Unit) => ?_
  cases copied with
  | error e => exact hk _
  | ok copied =>
    dsimp only [Except.mapError]
    rw [thenDo_regardless, Prog.thenDo_call]
    exact .call (fun _ => rfl) nofun fun _ => hk _

section

variable {r : Redirect} {k : Except LaunchFailure Unit → Act}
  (hk : ∀ f, k (.error f) = concluded (.error f))
  (honly : ∀ r, (k r).Only fun d => d.open? = none)
  (h : (thenDo (redirect r) k).Path ds o)
include hk honly h

theorem stopped_redirect {path : Bytes} {mode : OpenMode} {bits : Nat}
    (he : (path, mode, bits, .error e) ∈ ds.opens) : Stopped ds o (.system e) := by
  unfold redirect at h
  rw [thenDo_bind, thenDo_mk_pure] at h
  cases hname : targetName r with
  | error f' =>
    rw [hname] at h
    have h : (k (.error f')).Path ds o := h
    rw [hk] at h
    rw [opens_concluded h] at he
    cases he
  | ok name =>
    rw [hname] at h
    dsimp only at h
    rw [thenDo_bind, thenDo_attempt, Prog.thenDo_call] at h
    rcases h.of_call nofun with (⟨rfl, -⟩ | ⟨rfl, -⟩) | ⟨(opened : Except Errno Nat), rest, rfl, hrest⟩
    · cases he
    · cases he
    · cases opened with
      | error e' =>
        have hrest : (k (.error (.system e'))).Path rest o := hrest
        rw [hk] at hrest
        have heq : e = e' := by
          have := opens_concluded hrest
          simp_all [Doing.open?]
        rw [heq]
        exact (stopped_concluded hrest).1.cons ⟨rfl, rfl, rfl, rfl⟩ rfl
      | ok fd =>
        have hnone := opens_eq_nil ((only_bound honly).of_path hrest rfl)
        simp [Doing.open?, hnone] at he

theorem halted_redirect (he : .error e ∈ ds.pipes)
    (hrest : ∀ rest : Doings, (k (.ok ())).Path rest o → .error e ∈ rest.pipes →
      Halted env ss rest o e) :
    Halted env ss ds o e ∧ ∃ fd,
      ds.opens = [(Bytes.ofString r.target, openMode r.kind, newFileBits, .ok fd)] := by
  have hfailed {f : LaunchFailure} {rest : Doings} (hrest : (k (.error f)).Path rest o) :
      rest.pipes = [] := by
    rw [hk] at hrest
    exact (stopped_concluded hrest).1.pipes
  unfold redirect at h
  rw [thenDo_bind, thenDo_mk_pure] at h
  cases hname : targetName r with
  | error f' =>
    rw [hname] at h
    rw [hfailed (f := f') h] at he
    cases he
  | ok name =>
    obtain rfl : name = Bytes.ofString r.target := by
      simp only [targetName] at hname
      split at hname <;> cases hname
      rfl
    rw [hname] at h
    dsimp only at h
    rw [thenDo_bind, thenDo_attempt, Prog.thenDo_call] at h
    rcases h.of_call (fun _ _ _ hx => by cases hx) with
      (⟨rfl, -⟩ | ⟨rfl, -⟩) | ⟨(opened : Except Errno Nat), ds₁, rfl, h₁⟩
    · cases he
    · cases he
    have he₁ : .error e ∈ Doings.pipes ds₁ := by simpa [Doing.pipe?] using he
    cases opened with
    | error e' =>
      rw [hfailed (f := .system e') h₁] at he₁
      cases he₁
    | ok fd =>
      have hnone := opens_eq_nil ((only_bound honly).of_path h₁ rfl)
      refine ⟨?_, fd, by simp [Doing.open?, hnone]⟩
      dsimp only [Except.mapError] at h₁
      rw [thenDo_bind, thenDo_attempt, Prog.thenDo_call] at h₁
      refine Halted.cons ?_ ⟨rfl, rfl, rfl, rfl⟩ rfl (.inr (.inl rfl))
      refine .past h₁ he₁ rfl (fun hx => by cases hx)
        fun (copied : Except Errno Unit) ds₂ h₂ he₂ => ?_
      cases copied with
      | error e' =>
        rw [hfailed (f := .system e') h₂] at he₂
        cases he₂
      | ok copied =>
        dsimp only [Except.mapError] at h₂
        rw [thenDo_regardless, Prog.thenDo_call] at h₂
        exact .past h₂ he₂ rfl (fun hx => by cases hx) fun _ => hrest

end

/-! ## The leader -/

/-- What has been done by the leader of a job whose redirection the system does not open, or for
which it does not make a pipe, and what it has still to do. -/
structure Opens (env : List Bytes) (p : Pipeline) (ds : Doings) (o : Option Act) : Prop where
  stopped : ∀ path mode bits e, p.redirect.isSome → (path, mode, bits, .error e) ∈ ds.opens →
    Stopped ds o (.system e)
  halted : ∀ e, .error e ∈ ds.pipes → Halted env p.stages ds o e ∧
    ∀ r, p.redirect = some r → ∃ fd,
      ds.opens = [(Bytes.ofString r.target, openMode r.kind, newFileBits, .ok fd)]

/-- The same, or the name of the target is not one that could be opened. -/
structure Wires (env : List Bytes) (p : Pipeline) (ds : Doings) (o : Option Act) : Prop
    extends Opens env p ds o where
  unnamed : ∀ r f, p.redirect = some r → targetName r = .error f → Stopped ds o f

/-- Where the name of the target is not one, nothing is opened. -/
theorem concludes_pipeline {p : Pipeline} {r : Redirect} (hr : p.redirect = some r)
    (hname : targetName r = .error f) : Concludes f (thenDo (pipeline env p) concluded) := by
  unfold pipeline
  rw [hr]
  dsimp only
  rw [thenDo_bind]
  unfold redirect
  rw [thenDo_bind, thenDo_mk_pure, hname]
  exact .reports

theorem concludes_leader {p : Pipeline} {r : Redirect} (hr : p.redirect = some r)
    (hname : targetName r = .error f) : Concludes f (leader env p).run := by
  unfold leader resetSignals
  rw [Prog.run_eq_thenDo]
  simp only [Prog.thenDo_bind]
  refine .calls rfl nofun fun _ => .calls rfl nofun fun _ => .calls rfl nofun fun _ =>
    .calls rfl nofun fun _ => .calls rfl nofun fun _ => ?_
  rw [← Prog.run_eq_thenDo, run_report]
  exact concludes_pipeline hr hname

theorem Opens.past {p : Pipeline} {c : Call} {next : c.Reply → Act}
    (h : (Act.call c next).Path ds o) (hc : c.isCalm) (hp : c ≠ .pipe)
    (hrest : ∀ reply, ∀ rest : Doings, (next reply).Path rest o → Opens env p rest o) :
    Opens env p ds o := by
  have hx (path : Bytes) (args env : List Bytes) : c ≠ .exec path args env := by
    rintro rfl
    cases hc
  rcases h.of_call hx with (⟨rfl, -⟩ | ⟨rfl, -⟩) | ⟨reply, rest, rfl, hpath⟩
  · exact ⟨nofun, nofun⟩
  · exact ⟨nofun, nofun⟩
  · have hw := hrest reply rest hpath
    have hminor := minor_call hc hp reply
    have hopen : (Doing.called c reply).open? = none := by
      cases c <;> first | rfl | cases hc
    refine ⟨fun path mode bits e hr hrefused => ?_, fun e he => ?_⟩
    · refine (hw.stopped path mode bits e hr ?_).cons hminor rfl
      simpa [hopen] using hrefused
    · obtain ⟨hhalted, hopens⟩ := hw.halted e (by simpa [hminor.pipe] using he)
      exact ⟨hhalted.cons hminor rfl (.inl hc), by simpa [hopen] using hopens⟩

theorem opens_pipeline {p : Pipeline} (h : (thenDo (pipeline env p) concluded).Path ds o) :
    Opens env p ds o := by
  unfold pipeline at h
  cases hr : p.redirect with
  | none =>
    rw [hr] at h
    refine ⟨fun _ _ _ e h => ?_, fun e he => ⟨halted_stages h he, fun r h => ?_⟩⟩
    · rw [hr] at h
      cases h
    · rw [hr] at h
      cases h
  | some r =>
    rw [hr] at h
    dsimp only at h
    rw [thenDo_bind] at h
    have honly {k : Except LaunchFailure Unit → Act}
        (hk : ∀ f, k (.error f) = concluded (.error f))
        (hok : k (.ok ()) = thenDo (stages env p.stages) concluded) :
        ∀ x, (k x).Only fun d => d.open? = none := by
      rintro (f | u)
      · rw [hk]
        exact (only_concluded f).mono fun _ h => h.opens
      · rw [hok]
        exact only_stages env p.stages
    refine ⟨fun path mode bits e _ he => ?_, fun e he => ?_⟩
    · exact stopped_redirect (fun _ => rfl) (honly (fun _ => rfl) rfl) h he
    · obtain ⟨hhalted, hopens⟩ : Halted env p.stages ds o e ∧ _ :=
        halted_redirect (fun _ => rfl) (honly (fun _ => rfl) rfl) h he
          fun _ hpath => halted_stages hpath
      refine ⟨hhalted, fun r' hr' => ?_⟩
      obtain rfl := Option.some.inj (hr.symm.trans hr')
      exact hopens

theorem opens_leader {p : Pipeline} (h : (leader env p).run.Path ds o) : Opens env p ds o := by
  unfold leader resetSignals at h
  rw [Prog.run_eq_thenDo] at h
  simp only [Prog.thenDo_bind] at h
  refine .past h rfl nofun fun _ _ h => ?_
  refine .past h rfl nofun fun _ _ h => ?_
  refine .past h rfl nofun fun _ _ h => ?_
  refine .past h rfl nofun fun _ _ h => ?_
  refine .past h rfl nofun fun _ _ h => ?_
  rw [← Prog.run_eq_thenDo, run_report] at h
  exact opens_pipeline h

/-- Whatever the leader of a job has done, it is this. -/
theorem wires_leader {p : Pipeline} (h : (leader env p).run.Path ds o) : Wires env p ds o :=
  { opens_leader h with unnamed := fun _ _ hr hname => (concludes_leader hr hname).stopped h }

end Launch

end JobShell
