import JobShell.Interp.Launch
import JobShell.Proofs.Wiring.Duty

/-!
# What the processes of a job execute their programs with

* `Plumbing.redirected`: the bindings after the redirection; `Plumbing.feeding`, `Plumbing.ending`:
  those a stage behind a pipe and the last stage are to have.
* `Duty.lead`: the duty of the leader of a job.
* `meets_leader`: the program of the leader meets it.
-/

namespace JobShell

/-! ## Bindings of the stages -/

namespace Plumbing

/-- The redirection of a pipeline is what has been opened. -/
def Opens (m : Plumbing) : Option Redirect → Prop
  | none => m.opened = none
  | some r => ∃ file, m.opened =
      some { path := Bytes.ofString r.target, mode := Launch.openMode r.kind, file }

/-- The bindings after the redirection. -/
def redirected (m : Plumbing) (r : Option Redirect) (t : Bindings) : Bindings :=
  match r, m.opened with
  | some r, some o => t.set r.kind.descriptor (some { file := o.file })
  | _, _ => t

/-- What a stage reads from: the pipe before it, if it is not the first. -/
def stdin (m : Plumbing) (t : Bindings) : Nat → Option Binding
  | 0 => t 0
  | k + 1 => m.pipes[k]?.map PipeEnds.reader

/-- The bindings of stage `k` if it is the last. -/
def ending (m : Plumbing) (t : Bindings) (k : Nat) : Bindings := t.set 0 (m.stdin t k)

/-- The bindings of stage `k` if there is one after it. -/
def feeding (m : Plumbing) (t : Bindings) (k : Nat) : Bindings :=
  (m.ending t k).set 1 (m.pipes[k]?.map PipeEnds.writer)

end Plumbing

/-- The duty of the leader of a job, started with bindings `t₀`: to start each stage but the last
with a program that follows its bindings, and to become the last stage. -/
def Duty.lead (t₀ : Bindings) (p : Pipeline) : Duty where
  leads := True
  child a t m := m.Opens p.redirect ∧ m.pipes.length = m.started.length + 1 ∧
    m.started.length + 1 < p.stages.length ∧
    a.Meets (.follow (m.feeding (m.redirected p.redirect t₀) m.started.length)) t m
  exec t m := m.Opens p.redirect ∧ m.pipes.length = m.started.length ∧
    m.started.length + 1 = p.stages.length ∧
    t = m.ending (m.redirected p.redirect t₀) m.started.length

/-! ## Programs in parts -/

namespace Prog

variable {α β : Type}

/-- What a process does that goes on with `k` after a piece of program. -/
def thenDo (p : Prog α) (k : α → Act) : Act := p k

theorem thenDo_bind (p : Prog α) (f : α → Prog β) (k : β → Act) :
    (p >>= f).thenDo k = p.thenDo fun a => (f a).thenDo k := rfl

theorem thenDo_call (c : Call) (k : c.Reply → Act) : (call c).thenDo k = .call c k := rfl

theorem thenDo_fork (child : Prog UInt8) (k : Except Errno Pid → Act) :
    (fork child).thenDo k = .fork child.run k := rfl

theorem run_eq_thenDo (p : Prog UInt8) : p.run = p.thenDo .exit := rfl

end Prog

namespace Launch

variable {α β : Type}

/-- The same for a piece of program that may fail. -/
def thenDo (p : Launch α) (k : Except LaunchFailure α → Act) : Act := Prog.thenDo p.run k

theorem thenDo_bind (p : Launch α) (f : α → Launch β) (k : Except LaunchFailure β → Act) :
    thenDo (p >>= f) k = thenDo p fun r => match r with
      | .ok a => thenDo (f a) k
      | .error e => k (.error e) := by
  show Prog.thenDo (ExceptT.run p >>= _) k = _
  rw [Prog.thenDo_bind]
  unfold thenDo
  congr 1
  funext r
  cases r <;> rfl

theorem thenDo_mk_pure (r : Except LaunchFailure α) (k : Except LaunchFailure α → Act) :
    thenDo (ExceptT.mk (pure r)) k = k r := rfl

theorem thenDo_lift (p : Prog α) (k : Except LaunchFailure α → Act) :
    thenDo (ExceptT.lift p) k = p.thenDo fun a => k (.ok a) := rfl

theorem thenDo_attempt (p : Prog (Except Errno α)) (k : Except LaunchFailure α → Act) :
    thenDo (attempt p) k = p.thenDo fun r => k (r.mapError .system) := rfl

theorem thenDo_regardless (p : Prog α) (k : Except LaunchFailure Unit → Act) :
    thenDo (regardless p) k = p.thenDo fun _ => k (.ok ()) := rfl

/-- What follows a launch: its failure is reported. -/
def concluded : Except LaunchFailure Empty → Act
  | .error e => .call (.write 2 (Bytes.ofString (reportLine e.message))) fun _ => .exit 1
  | .ok never => nomatch never

theorem run_report (p : Launch Empty) : (report p).run = thenDo p concluded := by
  show Prog.thenDo (ExceptT.run p) _ = _
  unfold thenDo
  congr 1
  funext r
  cases r with
  | error e => rfl
  | ok never => nomatch never

end Launch

/-! ## Executing -/

section

variable {d : Duty} {t : Bindings} {m : Plumbing}

theorem Search.thenDo_execute (path : Bytes) (args env : List Bytes) (k : Errno → Act) :
    (Search.execute path args env).thenDo k = .call (.exec path args env) fun (e : Errno) =>
      if e = Errno.ENOEXEC then
        .call (.exec commandInterpreter (commandInterpreter :: path :: args.drop 1) env) k
      else k e := by
  unfold execute
  rw [Prog.thenDo_bind, Prog.thenDo_call]
  congr 1
  funext e
  split <;> rfl

theorem Search.meets_execute {path : Bytes} {args env : List Bytes} {k : Errno → Act}
    (hx : d.exec t m) (hk : ∀ e, (k e).Meets d t m) :
    ((Search.execute path args env).thenDo k).Meets d t m := by
  rw [thenDo_execute]
  refine .exec hx fun e => ?_
  split
  · exact .exec hx hk
  · exact hk e

theorem Search.meets_tryAll {args env : List Bytes} {k : Errno → Act} (hx : d.exec t m)
    (hk : ∀ e, (k e).Meets d t m) (paths : List Bytes) (denied : Bool) (last : Errno) :
    ((Search.tryAll args env denied last paths).thenDo k).Meets d t m := by
  induction paths generalizing denied last with
  | nil => exact hk _
  | cons path rest ih =>
    unfold tryAll
    rw [Prog.thenDo_bind]
    refine meets_execute hx fun e => ?_
    split
    · exact ih _ _
    · exact hk e

theorem Search.meets_run {path : Option Bytes} {name : Bytes} {args env : List Bytes}
    {k : Errno → Act} (hx : d.exec t m) (hk : ∀ e, (k e).Meets d t m) :
    ((Search.run path name args env).thenDo k).Meets d t m := by
  unfold Search.run
  split
  · exact hk _
  · split
    · exact meets_execute hx hk
    · exact meets_tryAll hx hk _ _ _

namespace Launch

theorem meets_concluded_error (e : LaunchFailure) : (concluded (.error e)).Meets d t m :=
  .plain rfl fun _ => .exit

theorem meets_execute {env : List Bytes} {stage : Stage} (hx : d.exec t m) :
    (thenDo (execute env stage) concluded).Meets d t m := by
  unfold execute
  rw [thenDo_bind, thenDo_mk_pure]
  cases stage.mapM fun a => checkedArgument (Bytes.ofString a) with
  | error e => exact meets_concluded_error e
  | ok args =>
    cases args with
    | nil => exact meets_concluded_error _
    | cons name rest =>
      dsimp only
      rw [thenDo_bind, thenDo_lift]
      exact Search.meets_run hx fun e => meets_concluded_error _

end Launch

end

/-! ## The stages -/

namespace Plumbing

variable {m : Plumbing} {b : Bindings} {ends : PipeEnds}

theorem getElem?_pipes_new (h : m.pipes.length = m.started.length) :
    (m.pipes ++ [ends])[m.started.length]? = some ends := by
  rw [← h]
  exact List.getElem?_concat_length

/-- A pipe is made and its two ends are let go of, after one of them has been bound to `fd`. -/
theorem set_ends {t : Bindings} {r w fd : Nat} {x y z : Option Binding} (hr : t r = none)
    (hw : t w = none) (hfr : fd ≠ r) (hfw : fd ≠ w) :
    ((((t.set r x).set w y).set fd z).set r none).set w none = t.set fd z := by
  funext n
  unfold Bindings.set
  grind

/-- A new pipe does not change what the next stage reads from. -/
theorem stdin_new (h : m.pipes.length = m.started.length) :
    stdin { m with pipes := m.pipes ++ [ends] } b m.started.length =
      m.stdin b m.started.length := by
  cases hk : m.started.length with
  | zero => rfl
  | succ k =>
    have hlt : k < m.pipes.length := by omega
    exact congrArg (Option.map PipeEnds.reader) (List.getElem?_append_left hlt)

theorem isSome_stdin (h : m.pipes.length = m.started.length) (hb : (b 0).isSome) :
    (m.stdin b m.started.length).isSome := by
  cases hk : m.started.length with
  | zero => exact hb
  | succ k =>
    have hlt : k < m.pipes.length := by omega
    simp [stdin, hlt]

end Plumbing

namespace Launch

variable {env : List Bytes}

theorem meets_upstream {stage : Stage} {r w : Nat} {b : Binding} {t : Bindings} {m : Plumbing}
    (hrw : r ≠ w) (hw1 : w ≠ 1) (hw : t w = some b) :
    ((upstream env stage r w).run).Meets
      (.follow (((t.set r none).set 1 (some { file := b.file })).set w none)) t m := by
  unfold upstream
  rw [run_report, thenDo_bind, thenDo_regardless, Prog.thenDo_call]
  refine .close fun _ => ?_
  dsimp only
  rw [thenDo_bind, thenDo_attempt, Prog.thenDo_call]
  refine .dup2 hw1 (fun e => meets_concluded_error _) fun b' hb' => ?_
  rw [Bindings.set_of_ne hrw, hw] at hb'
  cases hb'
  show Act.Meets _ (thenDo _ concluded) _ _
  rw [thenDo_bind, thenDo_regardless, Prog.thenDo_call]
  exact .close fun _ => meets_execute rfl

/-- A stage is started behind a new pipe, which becomes the standard input of what follows. -/
theorem meets_feed {p : Pipeline} {t₀ b : Bindings} (hb0 : (b 0).isSome) (hb1 : (b 1).isSome)
    {stage : Stage} {m : Plumbing} {k : Except LaunchFailure Unit → Act}
    (hm : m.redirected p.redirect t₀ = b) (hopens : m.Opens p.redirect)
    (hpipes : m.pipes.length = m.started.length)
    (hlen : m.started.length + 1 < p.stages.length)
    (he : ∀ e t m, (k (.error e)).Meets (.lead t₀ p) t m)
    (hk : ∀ (ends : PipeEnds) (pid : Pid),
      (k (.ok ())).Meets (.lead t₀ p) (b.set 0 (some ends.reader))
        { m with pipes := m.pipes ++ [ends], started := m.started ++ [pid] }) :
    (thenDo (feed env stage) k).Meets (.lead t₀ p) (m.ending b m.started.length) m := by
  have h0 : (m.ending b m.started.length 0).isSome := m.isSome_stdin hpipes hb0
  have h1 : (m.ending b m.started.length 1).isSome := hb1
  unfold feed
  rw [thenDo_bind, thenDo_attempt, Prog.thenDo_call]
  refine .pipe trivial (fun e => he _ _ _) fun number r w rb wb hr hw hrw => ?_
  generalize hends : ({ number, read := rb.file, write := wb.file } : PipeEnds) = ends
  -- neither of the new descriptors is a standard stream
  have hr0 : r ≠ 0 := by rintro rfl; simp [hr] at h0
  have hr1 : r ≠ 1 := by rintro rfl; simp [hr] at h1
  have hw0 : w ≠ 0 := by rintro rfl; simp [hw] at h0
  have hw1 : w ≠ 1 := by rintro rfl; simp [hw] at h1
  dsimp only [Except.mapError]
  rw [thenDo_bind, thenDo_attempt, Prog.thenDo_fork]
  refine .fork trivial ⟨hopens, ?_, hlen, ?_⟩ (fun e => he _ _ _) fun pid => ?_
  · simp [hpipes]
  · have hgoal : Plumbing.feeding { m with pipes := m.pipes ++ [ends] } b m.started.length =
        (((((m.ending b m.started.length).set r (some rb)).set w (some wb)).set r
          none).set 1 (some { file := wb.file })).set w none := by
      rw [Bindings.set_comm hr1, Plumbing.set_ends hr hw hr1.symm hw1.symm]
      unfold Plumbing.feeding Plumbing.ending
      rw [Plumbing.stdin_new hpipes, Plumbing.getElem?_pipes_new hpipes, ← hends]
      rfl
    have hb : Plumbing.redirected { m with pipes := m.pipes ++ [ends] } p.redirect t₀ = b := hm
    rw [hb, hgoal]
    exact meets_upstream hrw hw1 Bindings.set_self
  · dsimp only [Except.mapError]
    rw [thenDo_bind, thenDo_attempt, Prog.thenDo_call]
    refine .dup2 hr0 (fun e => he _ _ _) fun rb' hrb => ?_
    rw [Bindings.set_of_ne hrw.symm, Bindings.set_self] at hrb
    cases hrb
    dsimp only [Except.mapError]
    rw [thenDo_bind, thenDo_regardless, Prog.thenDo_call]
    refine .close fun _ => ?_
    dsimp only
    rw [thenDo_regardless, Prog.thenDo_call]
    refine .close fun _ => ?_
    rw [Plumbing.set_ends hr hw hr0.symm hw0.symm]
    unfold Plumbing.ending
    rw [Bindings.set_set]
    have hread : ({ file := rb.file } : Binding) = ends.reader := by rw [← hends]; rfl
    rw [hread]
    exact hk ends pid

/-- The leader starts the stages that are left and becomes the last. -/
theorem meets_stages {p : Pipeline} {t₀ b : Bindings} (hb0 : (b 0).isSome) (hb1 : (b 1).isSome)
    (ss : List Stage) {m : Plumbing} (hm : m.redirected p.redirect t₀ = b)
    (hlen : m.started.length + ss.length = p.stages.length) (hopens : m.Opens p.redirect)
    (hpipes : m.pipes.length = m.started.length) :
    (thenDo (stages env ss) concluded).Meets (.lead t₀ p) (m.ending b m.started.length) m := by
  induction ss generalizing m with
  | nil => exact meets_concluded_error _
  | cons stage rest ih =>
    cases rest with
    | nil =>
      refine meets_execute ⟨hopens, hpipes, hlen, ?_⟩
      rw [hm]
    | cons next rest =>
      unfold stages
      rw [thenDo_bind]
      rw [List.length_cons, List.length_cons] at hlen
      refine meets_feed hb0 hb1 hm hopens hpipes (by omega)
        (fun e _ _ => meets_concluded_error e) ?_
      intro ends pid
      have hnext := ih (m := { m with
        pipes := m.pipes ++ [ends], started := m.started ++ [pid] }) hm
        (by simp; omega) hopens (by simp [hpipes])
      rw [List.length_append, List.length_singleton, Plumbing.ending, Plumbing.stdin,
        Plumbing.getElem?_pipes_new hpipes] at hnext
      exact hnext

/-- The redirection is opened, and the leader goes on with it bound to its standard stream. -/
theorem meets_redirect {p : Pipeline} {r : Redirect} {t₀ : Bindings} (h0 : (t₀ 0).isSome)
    (h1 : (t₀ 1).isSome) {k : Except LaunchFailure Unit → Act}
    (he : ∀ e t m, (k (.error e)).Meets (.lead t₀ p) t m)
    (hk : ∀ file, (k (.ok ())).Meets (.lead t₀ p) (t₀.set r.kind.descriptor (some { file }))
      { opened := some
          { path := Bytes.ofString r.target, mode := openMode r.kind, file } }) :
    (thenDo (redirect r) k).Meets (.lead t₀ p) t₀ {} := by
  have hd : (t₀ r.kind.descriptor).isSome := by cases r.kind <;> assumption
  unfold redirect
  rw [thenDo_bind, thenDo_mk_pure]
  cases hname : targetName r with
  | error e => exact he _ _ _
  | ok name =>
    obtain rfl : name = Bytes.ofString r.target := by
      simp only [targetName] at hname
      split at hname <;> cases hname
      rfl
    dsimp only
    rw [thenDo_bind, thenDo_attempt, Prog.thenDo_call]
    refine .opens trivial rfl (fun e => he _ _ _) fun fd b hfd => ?_
    have hne : r.kind.descriptor ≠ fd := by
      rintro rfl
      simp [hfd] at hd
    dsimp only [Except.mapError]
    rw [thenDo_bind, thenDo_attempt, Prog.thenDo_call]
    refine .dup2 hne.symm (fun e => he _ _ _) fun b' hb' => ?_
    rw [Bindings.set_self] at hb'
    cases hb'
    dsimp only [Except.mapError]
    rw [thenDo_regardless, Prog.thenDo_call]
    refine .close fun _ => ?_
    have hset : ((t₀.set fd (some b)).set r.kind.descriptor (some { file := b.file })).set fd none =
        t₀.set r.kind.descriptor (some { file := b.file }) := by
      rw [Bindings.set_comm hne.symm, Bindings.set_set, ← hfd,
        Bindings.set_comm hne, Bindings.set_eq_self]
    rw [hset]
    exact hk b.file

/-- The leader starts the stages once the redirection has been seen to. -/
theorem meets_stages_all {p : Pipeline} {t₀ b : Bindings} (hb0 : (b 0).isSome)
    (hb1 : (b 1).isSome) {m : Plumbing} (hm : m.redirected p.redirect t₀ = b)
    (hopens : m.Opens p.redirect) (hpipes : m.pipes = []) (hstarted : m.started = []) :
    (thenDo (stages env p.stages) concluded).Meets (.lead t₀ p) b m := by
  have h : (thenDo (stages env p.stages) concluded).Meets _ _ _ :=
    meets_stages hb0 hb1 p.stages hm (by simp [hstarted]) hopens
    (by simp [hpipes, hstarted])
  rwa [hstarted, List.length_nil, Plumbing.ending, Plumbing.stdin, Bindings.set_eq_self] at h

theorem meets_pipeline {p : Pipeline} {t₀ : Bindings} (h0 : (t₀ 0).isSome) (h1 : (t₀ 1).isSome) :
    (thenDo (pipeline env p) concluded).Meets (.lead t₀ p) t₀ {} := by
  obtain ⟨ss, r⟩ := p
  unfold pipeline
  cases r with
  | none => exact meets_stages_all h0 h1 rfl rfl rfl rfl
  | some r =>
    dsimp only
    rw [thenDo_bind]
    refine meets_redirect h0 h1 (fun e _ _ => meets_concluded_error e) fun file => ?_
    have hset {n : Nat} (hn : (t₀ n).isSome) :
        (t₀.set r.kind.descriptor (some { file }) n).isSome := by
      unfold Bindings.set
      split
      · rfl
      · exact hn
    exact meets_stages_all (p := ⟨ss, some r⟩) (hset h0) (hset h1) rfl ⟨file, rfl⟩ rfl rfl

/-- The program of the leader meets its duty. -/
theorem meets_leader {p : Pipeline} {t₀ : Bindings} (h0 : (t₀ 0).isSome) (h1 : (t₀ 1).isSome) :
    ((leader env p).run).Meets (.lead t₀ p) t₀ {} := by
  unfold leader resetSignals
  rw [Prog.run_eq_thenDo]
  simp only [Prog.thenDo_bind]
  refine .plain rfl fun _ => .plain rfl fun _ => .plain rfl fun _ => .plain rfl fun _ =>
    .plain rfl fun _ => ?_
  rw [← Prog.run_eq_thenDo, run_report]
  exact meets_pipeline h0 h1

end Launch

end JobShell
