import JobShell.Proofs.Isolation.Redirection

/-!
# The stream that a redirection is bound to

* `World.Comes`: what becomes of a process that meets a duty, and of its descriptors, when it does
  something. `Machine.Meets.comes`: so it is with every incident.
* `Machine.Wired`: the descriptors of the leader of a job and of its first stage, before they
  execute their programs.
* `Machine.Wired.binds`: when the stage executes its program that the redirection is for, the file
  that has been opened is its standard stream.
-/

namespace JobShell

/-- What has been made for a job once one of its processes has done this. -/
def Plumbing.did (m : Plumbing) (w : World) : Option Doing → Plumbing
  | some (.called (.open path mode _) (.ok _)) =>
    { m with opened := some { path, mode, file := w.nextFile } }
  | some (.called .pipe (.ok _)) =>
    { m with pipes := m.pipes ++
        [{ number := w.nextPipe, read := w.nextFile, write := w.nextFile + 1 }] }
  | some (.forked _ (.ok _)) => { m with started := m.started ++ [w.nextPid] }
  | _ => m

theorem Doings.forks_then {ds : Doings} (hlast : ds.any Doing.isLast = false)
    (d? : Option Doing) : (ds.then d?).forks = ds.forks ++ (d?.bind Doing.fork?).toList := by
  cases d? with
  | none => rw [then_none, Option.bind_none, Option.toList_none, List.append_nil]
  | some d =>
    rw [then_some hlast, forks, List.filterMap_append]
    cases hd : d.fork? <;> simp [forks, hd]

theorem Doings.exists_forks_then (ds : Doings) (d? : Option Doing) :
    ∃ rest, (ds.then d?).forks = ds.forks ++ rest := by
  unfold Doings.then
  split
  · exact ⟨[], (List.append_nil _).symm⟩
  · exact ⟨_, List.filterMap_append⟩

theorem Doing.eq_of_fork? {d : Doing} {child : Act} {pid : Pid} (h : d.fork? = some (child, pid)) :
    d = .forked child (.ok pid) := by
  unfold fork? at h
  split at h
  · obtain ⟨rfl, rfl⟩ := Prod.mk.inj (Option.some.inj h)
    rfl
  · cases h

namespace World

variable {w w' : World} {p : Process} {pid : Pid} {d : Duty} {t : Bindings} {m : Plumbing}
  {d? : Option Doing} {e : Errno}

theorem after_eq_did (m : Plumbing) (w : World) (p : Process) :
    m.after w p = m.did w (w.does? p) := by
  unfold Plumbing.after does? Process.due?
  cases hf : p.farewell? with
  | some text =>
    dsimp only
    cases w.write p 1 text <;> rfl
  | none =>
    unfold calls?
    rw [if_neg (by exact Bool.false_ne_true)]
    cases hprogram : p.program with
    | none => rfl
    | some a =>
      cases a with
      | exit => rfl
      | fork => rfl
      | call c next =>
        cases c with
        | «open» path mode bits =>
          dsimp only
          show _ = m.did w (some (.called (.open path mode bits) (w.open_ p path mode bits).2))
          cases (w.open_ p path mode bits).2 <;> rfl
        | pipe =>
          dsimp only
          show _ = m.did w (some (.called .pipe (w.makePipe p).2))
          cases (w.makePipe p).2 <;> rfl
        | _ =>
          dsimp only
          cases w.perform p _ with
          | done | become => rfl
          | wait =>
            dsimp only
            cases p.interrupted <;> rfl

/-- A process executes a program if that is what it does. -/
theorem executes_of_does? {path : Bytes} {args env : List Bytes} (htidy : p.tidy)
    (h : w.does? p = some (.executed path args env)) : w.executes p = true := by
  have hadvances := w.advances p
  rw [h] at hadvances
  generalize (w.advance p).1 = w' at hadvances
  cases hadvances with
  | executes hprogram hperform =>
    rcases exec_cases (w := w) htidy path args env with ⟨e, hexec, -⟩ | ⟨w', -, hok, -⟩
    · cases hexec.symm.trans hperform
    · unfold executes
      rw [hprogram]
      exact hok

theorem does?_of_executes (htidy : p.tidy) (h : w.executes p = true) :
    ∃ path args env, w.does? p = some (.executed path args env) := by
  unfold executes at h
  split at h
  · rename_i path args env next hprogram
    rcases exec_cases (w := w) htidy path args env with ⟨e, -, hok⟩ | ⟨w', hexec, -⟩
    · cases hok.symm.trans h
    · have hperform : w.perform p (.exec path args env) = .become w' := hexec
      refine ⟨path, args, env, ?_⟩
      rw [does?_of_due? hprogram, calls?, (Process.of_due? hprogram).2]
      simp only [hperform]
  · cases h

/-- What becomes of a process that meets a duty and holds `t` when it does this. -/
inductive Comes (d : Duty) (w w' : World) (pid : Pid) (t : Bindings) (m : Plumbing)
    (d? : Option Doing) : Prop where
  | gone (h : w'.grip? pid = none) (hx : ∀ path args env, d? ≠ some (.executed path args env))
  | goes {t' : Bindings} (h : w'.Goes d pid t' (m.did w d?))
      (hx : ∀ path args env, d? ≠ some (.executed path args env))
      (hfork : ∀ child q, d? = some (.forked child (.ok q)) → ∃ a, d.child a t m ∧
        w'.grip? w.nextPid = some { pid := w.nextPid, program := some a, bindings := t })
  | executes (hx : d.exec t m) (hd : ∃ path args env, d? = some (.executed path args env))
      (h : ∃ a, w'.grip? pid = some { pid, program := a, bindings := t.kept })

/-- A process that does nothing goes on meeting its duty. -/
theorem Comes.of_none (h : w'.Goes d pid t m) : w.Comes d w' pid t m none :=
  .goes h (by rintro _ _ _ ⟨⟩) (by rintro _ _ ⟨⟩)

theorem comes_advance (hs : w.Sound) (hp : w.process? p.pid = some p)
    (hknown : p.pid < w.nextPid) {a : Act} (hprogram : p.program = some a)
    (hm : a.Meets d p.bindings m) :
    w.Comes d (w.advance p).1 p.pid p.bindings m (w.does? p) := by
  have hmoves := moves_advance hs hp hprogram hm
  have hstarted := hmoves.started_cases hknown
  rw [after_eq_did] at hmoves hstarted
  have hx (hex : w.executes p = false) (path : Bytes) (args env : List Bytes) :
      w.does? p ≠ some (.executed path args env) := by
    intro hd
    cases (executes_of_does? (hs.tidy_process hp) hd).symm.trans hex
  have hfork (child : Act) (q : Pid) (hd : w.does? p = some (.forked child (.ok q))) :
      ∃ a, d.child a p.bindings m ∧ (w.advance p).1.grip? w.nextPid =
        some { pid := w.nextPid, program := some a, bindings := p.bindings } := by
    rw [hd] at hstarted
    rcases hstarted with heq | ⟨-, -, -, h⟩
    · exact absurd heq (by simp [Plumbing.did])
    · exact h
  have hexecutes := does?_of_executes (w := w) (hs.tidy_process hp)
  generalize w.executes p = ex at hmoves hx hexecutes
  generalize hdid : m.did w (w.does? p) = m' at hmoves
  cases hmoves with
  | ends hk hg => exact .gone hg (hx rfl)
  | goes hk ht hg => exact .goes (hdid ▸ hg) (hx rfl) hfork
  | executes hk hexec hg => exact .executes hexec (hexecutes rfl) hg
  | opens _ _ _ _ _ _ hg => exact .goes (hdid ▸ hg) (hx rfl) hfork
  | pipes _ _ _ _ hg => exact .goes (hdid ▸ hg) (hx rfl) hfork
  | forks _ _ _ _ hg => exact .goes (hdid ▸ hg) (hx rfl) hfork

theorem comes_step (hs : w.Sound) (hknown : pid < w.nextPid) (h : w.Goes d pid t m) :
    w.Comes d (w.step pid).1 pid t m (w.doing? pid) := by
  obtain ⟨a, hg, hm⟩ := h
  have hspares := spares_takeSignals hs.keyed signalCount pid
  have hsound := sound_takeSignals hs signalCount pid
  have hrest := rest_takeSignals signalCount w pid
  rcases w.doing?_cases pid with ⟨hstep, ⟨hd, -⟩ | ⟨hd, hnone⟩⟩ | ⟨p, hp, hstep, hd⟩
  · rw [hstep, hd]
    rcases hspares.self with hsame | hnone
    · exact .of_none ⟨a, hsame.trans hg, hm⟩
    · exact .gone hnone (by rintro _ _ _ ⟨⟩)
  · rw [hstep]
    refine .gone (by rw [grip?, hnone]; rfl) fun path args env => ?_
    rw [hd]
    cases w.process? pid <;> rintro ⟨⟩
  · rw [hstep, hd]
    generalize w.takeSignals signalCount pid = w₁ at *
    have hnext : w₁.nextPid = w.nextPid := congrArg (·.nextPid) hrest
    have hafter : w₁.grip? pid = some p.grip := by
      rw [grip?, hp]
      rfl
    rcases hspares.self with hsame | hnone
    · have hgrip : p.grip = { pid, program := some a, bindings := t } :=
        Option.some.inj (hafter.symm.trans (hsame.trans hg))
      obtain rfl : p.pid = pid := congrArg Grip.pid hgrip
      obtain rfl : p.bindings = t := congrArg Grip.bindings hgrip
      have hprogram : p.program = some a := congrArg Grip.program hgrip
      have hcomes := comes_advance hsound hp (hnext ▸ hknown) hprogram hm
      have hdid (d? : Option Doing) : m.did w₁ d? = m.did w d? := by
        have hfile : w₁.nextFile = w.nextFile := congrArg (·.nextFile) hrest
        have hpipe : w₁.nextPipe = w.nextPipe := congrArg (·.nextPipe) hrest
        unfold Plumbing.did
        rw [hfile, hpipe, hnext]
      cases hcomes with
      | gone h hx => exact .gone h hx
      | goes h hx hfork => exact .goes (hdid _ ▸ h) hx (hnext ▸ hfork)
      | executes hx hd h => exact .executes hx hd h
    · cases hafter.symm.trans hnone

theorem comes_denied {doing : Doing} (hk : w.Keyed) (h : w.Goes d pid t m)
    (hd : w.denied? pid e = some (doing, w')) : w.Comes d w' pid t m (some doing) := by
  obtain ⟨a, hg, hm⟩ := h
  obtain ⟨p, a', b, hp, hprogram, hdenied, rfl⟩ := denied?_eq_some hd
  have hpid := hk.pid_eq hp
  have hself : w.grip? pid = some p.grip := by
    rw [grip?, hp]
    rfl
  have hgrip : p.grip = { pid, program := some a, bindings := t } :=
    Option.some.inj (hself.symm.trans hg)
  obtain rfl : a' = a :=
    Option.some.inj (hprogram.symm.trans (congrArg Grip.program hgrip))
  have hgoes {b : Act} (hb : b.Meets d t m) :
      (w.setProcess { p with program := some b }).Goes d pid t m := by
    refine ⟨b, ?_, hb⟩
    rw [grip?_setProcess, if_pos hpid]
    have hset : ({ p with program := some b } : Process).grip =
        { p.grip with program := some b } := rfl
    rw [hset, hgrip]
  unfold Act.denied? at hdenied
  split at hdenied <;> cases hdenied
  · cases hm with
    | opens _ _ he => exact .goes (hgoes (he e)) (by rintro _ _ _ ⟨⟩) (by rintro _ _ ⟨⟩)
    | plain hc => cases hc
  · cases hm with
    | pipe _ he => exact .goes (hgoes (he e)) (by rintro _ _ _ ⟨⟩) (by rintro _ _ ⟨⟩)
    | plain hc => cases hc
  · cases hm with
    | fork _ _ he => exact .goes (hgoes (he e)) (by rintro _ _ _ ⟨⟩) (by rintro _ _ ⟨⟩)

theorem grip?_eq_own? (w : World) (pid : Pid) :
    w.grip? pid = (w.own? pid).map Process.grip := by
  unfold grip? own?
  cases w.process? pid <;> rfl

theorem grip?_of_own? (h : w'.own? pid = w.own? pid) : w'.grip? pid = w.grip? pid := by
  rw [grip?_eq_own?, grip?_eq_own?, h]

end World

namespace Machine

variable {m m' m₁ m₂ : Machine} {i : Incident} {is : List Incident} {pid leader : Pid} {d : Duty}
  {t t₀ : Bindings} {made : Plumbing} {pl : Pipeline} {r : Redirect} {mask : Nat}

/-- What becomes of a process that meets a duty at an incident. -/
theorem Meets.comes (hm : m.Meets i m') (hs : m.world.Sound) (hn : m.Numbered) (hpid : pid ≠ m.pid)
    (hknown : pid < m.world.nextPid) (h : m.world.Goes d pid t made) :
    m.world.Comes d m'.world pid t made (m.doing? pid i) := by
  by_cases hturn : i = .happens (.turn pid)
  · subst hturn
    have hsame : m.doing? pid (.happens (.turn pid)) = m.world.doing? pid := if_pos rfl
    rw [hsame]
    cases hm with
    | happens hm => cases hm with | turn => exact World.comes_step hs hknown h
  by_cases hdenied : ∃ e, i = .denied pid e
  · obtain ⟨e, rfl⟩ := hdenied
    cases hm with
    | denied hq hd =>
      have hsame : m.doing? pid (.denied pid e) = (m.world.denied? pid e).map Prod.fst :=
        if_pos rfl
      rw [hsame, hd]
      exact World.comes_denied hs.keyed h hd
  · have hdenied (e : Errno) (heq : i = .denied pid e) : False := hdenied ⟨e, heq⟩
    obtain ⟨a, hg, hmeets⟩ := h
    rw [doing?_eq_none hturn hdenied]
    have hgrip := World.grip?_of_own? (hm.own hn hpid hknown hturn hdenied)
    exact .of_none ⟨a, hgrip.trans hg, hmeets⟩

/-- The leader of a job and its first stage hold what they should, before they have executed their
programs. -/
structure Wired (m : Machine) (pl : Pipeline) (r : Redirect) (t₀ : Bindings) (leader : Pid)
    (is : List Incident) (m' : Machine) : Prop where
  leads : (m.doings leader is).any Doing.isLast = false → ∃ t made,
    m'.world.Goes (.lead t₀ pl) leader t made ∧
    made.started = (m.doings leader is).forks.map Prod.snd ∧
    made.opened.map Opened.file = m.opened? leader is
  feeds : r.kind = .input → ∀ child q, (m.doings leader is).forks.head? = some (child, q) →
    ∃ id, m.opened? leader is = some id ∧
      ((m.doings q is).any Doing.isLast = false → ∃ goal t,
        goal 0 = some { file := id } ∧ m'.world.Goes (.follow goal) q t {})

/-- What a process is given at an incident is what has been made for the job then. -/
theorem opened_did (m : Machine) (pid : Pid) (i : Incident) (made : Plumbing) :
    (made.did m.world (m.doing? pid i)).opened.map Opened.file =
      (m.opens? pid i).or (made.opened.map Opened.file) := by
  unfold opens? Plumbing.did
  split <;> simp_all

variable {a : Act} {ds : Doings}

theorem started_did (hr : m.Runs pid a ds) (hm : m.Meets i m') (made : Plumbing) :
    (made.did m.world (m.doing? pid i)).started =
      made.started ++ ((m.doing? pid i).bind Doing.fork?).toList.map Prod.snd := by
  have hnew (child : Act) (q : Pid) (hd : m.doing? pid i = some (.forked child (.ok q))) :
      q = m.world.nextPid := (hr.forked hm hd).1
  generalize m.doing? pid i = d? at hnew
  cases d? with
  | none => exact (List.append_nil _).symm
  | some d =>
    cases d with
    | called c reply =>
      unfold Plumbing.did
      split
      · exact (List.append_nil _).symm
      · exact (List.append_nil _).symm
      · rename_i heq
        cases heq
      · exact (List.append_nil _).symm
    | forked child reply =>
      cases reply with
      | error e => exact (List.append_nil _).symm
      | ok q =>
        obtain rfl := hnew child q rfl
        rfl
    | _ => exact (List.append_nil _).symm

/-- A process that has not done its last goes on meeting its duty. -/
theorem Runs.goes (hr : m.Runs pid a ds) (hm : m.Meets i m') (hs : m.world.Sound)
    (hlast : (ds.then (m.doing? pid i)).any Doing.isLast = false)
    (h : m.world.Goes d pid t made) : ∃ t',
    m'.world.Goes d pid t' (made.did m.world (m.doing? pid i)) ∧
    ∀ child q, m.doing? pid i = some (.forked child (.ok q)) → ∃ b, d.child b t made ∧
      m'.world.grip? m.world.nextPid =
        some { pid := m.world.nextPid, program := some b, bindings := t } := by
  obtain ⟨-, hd⟩ := Doings.of_any_isLast_then hlast
  cases hm.comes hs hr.kindred.toNumbered hr.other hr.known h with
  | gone hgone =>
    obtain ⟨p, hp⟩ := (hr.meets hm).travels.alive hlast
    rw [World.grip?, hp] at hgone
    cases hgone
  | goes h hx hfork => exact ⟨_, h, hfork⟩
  | executes hx hexecuted =>
    obtain ⟨path, args, env, heq⟩ := hexecuted
    exact absurd rfl (hd _ heq)

theorem Wired.leads_meets (hr : m.Runs leader a []) (hs : m.world.Sound)
    (hpre : m.meets? is = some m₁) (hm : m₁.Meets i m₂)
    (hdirected : m.Directed r mask leader is m₁) (hw : m.Wired pl r t₀ leader is m₁)
    (hlast : (m.doings leader (is ++ [i])).any Doing.isLast = false) : ∃ t made,
    m₂.world.Goes (.lead t₀ pl) leader t made ∧
    made.started = (m.doings leader (is ++ [i])).forks.map Prod.snd ∧
    made.opened.map Opened.file = m.opened? leader (is ++ [i]) := by
  have hr₁ := hr.course hpre
  rw [doings_concat leader i hpre] at hlast ⊢
  rw [opened?_concat leader i hpre]
  obtain ⟨hgoes, hd⟩ := Doings.of_any_isLast_then hlast
  obtain ⟨t, made, hg, hstarted, hopened⟩ := hw.leads hgoes
  obtain ⟨t', hg', -⟩ := hr₁.goes hm (sound_of_meets? hs hpre) hlast hg
  refine ⟨t', _, hg', ?_, ?_⟩
  · rw [Doings.forks_then hgoes, List.map_append, ← hstarted, started_did hr₁ hm]
  · rw [opened_did, hopened]
    cases hbefore : m.opened? leader is with
    | none => rw [Option.or_none, Option.none_or]
    | some id =>
      have hsome : m.opened? leader is ≠ none := by
        rw [hbefore]
        exact Option.some_ne_none id
      rw [hdirected.opens?_eq_none hr₁ hm hsome hgoes, Option.none_or, Option.some_or]

/-- The first stage of a job is to read what has been opened. -/
theorem feeding_input {o : Opened} (hkind : r.kind = .input)
    (ho : made.opened = some o) :
    made.feeding (made.redirected (some r) t₀) 0 0 = some { file := o.file } := by
  unfold Plumbing.feeding Plumbing.ending Plumbing.stdin Plumbing.redirected
  rw [ho]
  simp only [hkind]
  rfl

theorem Wired.feeds_meets (hr : m.Runs leader a []) (hs : m.world.Sound)
    (hredirect : pl.redirect = some r) (hpre : m.meets? is = some m₁) (hm : m₁.Meets i m₂)
    (hw : m.Wired pl r t₀ leader is m₁) (hkind : r.kind = .input) {child : Act} {q : Pid}
    (hq : (m.doings leader (is ++ [i])).forks.head? = some (child, q)) :
    ∃ id, m.opened? leader (is ++ [i]) = some id ∧
      ((m.doings q (is ++ [i])).any Doing.isLast = false → ∃ goal t,
        goal 0 = some { file := id } ∧ m₂.world.Goes (.follow goal) q t {}) := by
  have hr₁ := hr.course hpre
  have hsound := sound_of_meets? hs hpre
  rw [opened?_concat leader i hpre]
  cases hbefore : (m.doings leader is).forks.head? with
  | some first =>
    -- it has been started before
    obtain ⟨child', q'⟩ := first
    have hsame : (m.doings leader (is ++ [i])).forks.head? = some (child', q') := by
      obtain ⟨rest, hrest⟩ := Doings.exists_forks_then (m.doings leader is) (m₁.doing? leader i)
      rw [doings_concat leader i hpre, hrest, List.head?_append, hbefore, Option.some_or]
    obtain ⟨rfl, rfl⟩ := Prod.mk.inj (Option.some.inj (hsame.symm.trans hq))
    obtain ⟨id, hid, hgoes⟩ := hw.feeds hkind _ _ hbefore
    refine ⟨id, by rw [hid, Option.some_or], fun hlast => ?_⟩
    obtain ⟨-, hq₁⟩ := hr.crew hpre (List.mem_of_mem_head? hbefore)
    rw [doings_concat _ i hpre] at hlast
    obtain ⟨goal, t, hgoal, hg⟩ := hgoes (Doings.of_any_isLast_then hlast).1
    obtain ⟨t', ⟨b, hg', hb⟩, -⟩ := hq₁.goes hm hsound hlast hg
    exact ⟨goal, t', hgoal, b, hg', hb.follow {}⟩
  | none =>
    -- it is started now
    have hnil := List.head?_eq_none_iff.1 hbefore
    rw [doings_concat leader i hpre] at hq
    have hgoes : (m.doings leader is).any Doing.isLast = false := by
      by_contra hany
      rw [Doings.then, if_pos (Bool.not_eq_false _ ▸ hany), hnil] at hq
      cases hq
    have hd : m₁.doing? leader i = some (.forked child (.ok q)) := by
      rw [Doings.forks_then hgoes, hnil, List.nil_append] at hq
      cases hfork : (m₁.doing? leader i).bind Doing.fork? with
      | none =>
        rw [hfork] at hq
        cases hq
      | some first =>
        rw [hfork] at hq
        obtain rfl : first = (child, q) := Option.some.inj hq
        obtain ⟨d, hd, hfork⟩ := Option.bind_eq_some_iff.1 hfork
        rw [hd, Doing.eq_of_fork? hfork]
    obtain ⟨t, made, hg, hstarted, hopened⟩ := hw.leads hgoes
    have hlast := Doings.any_isLast_then hgoes (d := .forked child (.ok q)) Bool.false_ne_true
    rw [← hd] at hlast
    obtain ⟨t', -, hfork⟩ := hr₁.goes hm hsound hlast hg
    obtain ⟨b, ⟨hopens, -, -, hmeets⟩, hgrip⟩ := hfork child q hd
    obtain ⟨rfl, -⟩ := hr₁.forked hm hd
    rw [hnil] at hstarted
    rw [hredirect] at hopens hmeets
    rw [hstarted] at hmeets
    obtain ⟨file, hfile⟩ := hopens
    rw [hfile] at hopened
    refine ⟨file, by rw [← hopened]; rfl, fun _ => ⟨_, t, ?_, b, hgrip, hmeets.follow {}⟩⟩
    exact feeding_input hkind hfile

theorem Launched.wired (hl : Launched pl leader [] m) (hs : m.world.Sound)
    (hredirect : pl.redirect = some r)
    (hmask : ∀ q, m.world.process? leader = some q → q.umask = mask)
    (hgrip : m.world.grip? leader =
      some { pid := leader, program := some (Launch.leader m.env pl).run, bindings := t₀ })
    (h0 : (t₀ 0).isSome) (h1 : (t₀ 1).isSome) (h : m.meets? is = some m') :
    m.Wired pl r t₀ leader is m' := by
  have hstart : m.Wired pl r t₀ leader [] m :=
    ⟨fun _ => ⟨t₀, {}, ⟨_, hgrip, Launch.meets_leader h0 h1⟩, rfl, rfl⟩, nofun⟩
  refine meets?_induction (P := fun is m' => m.Wired pl r t₀ leader is m') hstart ?_ h
  intro is i m₁ m₂ hpre hw hm
  have hmeets := meets_of_meet? (hl.runs.course hpre).kindred.keyed hm
  have hdirected := hl.directed hredirect hmask hpre
  exact ⟨hw.leads_meets hl.runs hs hpre hmeets hdirected,
    fun hkind _ _ => hw.feeds_meets hl.runs hs hredirect hpre hmeets hkind⟩

/-- The stage that is to use the redirection has it at the stream it is for. -/
theorem ending_descriptor {o : Opened} {k : Nat} (hk : r.kind = .input → k = 0)
    (ho : made.opened = some o) :
    made.ending (made.redirected (some r) t₀) k r.kind.descriptor = some { file := o.file } := by
  unfold Plumbing.ending Plumbing.redirected
  rw [ho]
  obtain ⟨kind, target⟩ := r
  cases kind with
  | input =>
    rw [hk rfl]
    rfl
  | truncate | append => rfl

/-- A process finds what it has been bound to. -/
theorem descriptor?_of_kept {fd id : Nat} {b : Option Act}
    (hg : m.world.grip? pid = some { pid, program := b, bindings := t.kept })
    (ht : t fd = some { file := id }) : m.world.descriptor? pid fd = some id := by
  rw [World.descriptor?_eq, hg, Option.bind_some]
  show (t.kept fd).map Binding.file = some id
  rw [Bindings.kept, ht]
  rfl

end Machine

/-- The process of a job that its redirection is for: that of the first stage, or of the last. -/
def Redirect.stage? (r : Redirect) (pl : Pipeline) (leader : Pid) (ds : Doings) : Option Pid :=
  if r.kind = .input ∧ pl.stages.length ≠ 1 then ds.forks.head?.map Prod.snd else some leader

namespace Machine

variable {m m₁ m₂ : Machine} {i : Incident} {is : List Incident} {q leader : Pid}
  {t₀ : Bindings} {pl : Pipeline} {r : Redirect} {a : Act} {path : Bytes} {args env : List Bytes}

/-- A stage executes its program with what has been opened for it at its standard stream. -/
theorem Wired.binds (hw : m.Wired pl r t₀ leader is m₁) (hr : m.Runs leader a [])
    (hs : m.world.Sound) (hredirect : pl.redirect = some r) (hpre : m.meets? is = some m₁)
    (hm : m₁.Meets i m₂) (hq : r.stage? pl leader (m.doings leader is) = some q)
    (hlast : (m.doings q is).any Doing.isLast = false)
    (hd : m₁.doing? q i = some (.executed path args env)) :
    ∃ id, m.opened? leader is = some id ∧
      m₂.world.descriptor? q r.kind.descriptor = some id := by
  have hr₁ := hr.course hpre
  have hn := hr₁.kindred.toNumbered
  have hsound := sound_of_meets? hs hpre
  unfold Redirect.stage? at hq
  split at hq
  · rename_i hfirst
    obtain ⟨⟨child, q'⟩, hhead, rfl⟩ := Option.map_eq_some_iff.1 hq
    obtain ⟨id, hid, hgoes⟩ := hw.feeds hfirst.1 child q' hhead
    obtain ⟨goal, t, hgoal, hg⟩ := hgoes hlast
    obtain ⟨-, hq₁⟩ := hr.crew hpre (List.mem_of_mem_head? hhead)
    refine ⟨id, hid, ?_⟩
    cases hm.comes hsound hn hq₁.other hq₁.known hg with
    | gone _ hx | goes _ hx => exact absurd hd (hx path args env)
    | executes hx _ h =>
      obtain ⟨b, hb⟩ := h
      obtain rfl : t = goal := hx
      rw [hfirst.1]
      exact descriptor?_of_kept hb hgoal
  · rename_i hlead
    obtain rfl := Option.some.inj hq
    obtain ⟨t, made, hg, hstarted, hopened⟩ := hw.leads hlast
    cases hm.comes hsound hn hr₁.other hr₁.known hg with
    | gone _ hx | goes _ hx => exact absurd hd (hx path args env)
    | executes hx _ h =>
      obtain ⟨b, hb⟩ := h
      obtain ⟨hopens, -, hlen, rfl⟩ := hx
      rw [hredirect] at hopens hb
      obtain ⟨file, hfile⟩ := hopens
      rw [hfile] at hopened
      refine ⟨file, hopened.symm, descriptor?_of_kept hb (ending_descriptor ?_ hfile)⟩
      intro hkind
      have hone : pl.stages.length = 1 := by
        by_contra hne
        exact hlead ⟨hkind, hne⟩
      omega

end Machine

end JobShell
