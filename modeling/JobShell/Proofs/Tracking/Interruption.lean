import JobShell.Interp.Shell

/-!
# A wait that is interrupted

* `Reply`: what the system replies to one call that waits for a child. `Reply.Interrupts`: the call
  is made again after it; `Reply.Decides`: the wait is over.
* `Shell.waits`: the calls that the interpreter makes while it is given one reply after another.
* `Shell.need_of_asks`: its own step is such a call, with the reply that its children give.
* `Shell.outlasts_interruptions`: the wait ends with the first reply that decides it, whatever has
  come before.
-/

namespace JobShell

/-- What the system tells of a child. -/
inductive News where
  | exited (pid : Pid) (code : Int)
  | signaled (pid : Pid) (signal : Signal) (dumped : Bool)
  | stopped (pid : Pid) (signal : Signal)
  /-- A child that is traced has come to this point. -/
  | traced (pid : Pid) (signal : Signal) (event : Int)
  | tracedCall (pid : Pid)
  | continued (pid : Pid)
  | alive
  deriving DecidableEq, Repr

/-- How the child has ended, if it has. -/
def News.termination : News → Option Status
  | exited _ code => some (.exited code)
  | signaled _ signal _ => some (.signaled signal)
  | _ => none

/-- What the system replies to a call that waits. -/
abbrev Reply := Except Errno News

/-- What the wait makes of a reply. -/
def WaitAnswer.ofReply : Reply → WaitAnswer
  | .ok news => news.termination.elim changed ended
  | .error e => failed e

/-- The reply for a child that has ended so. -/
def Ending.reply (pid : Pid) (dumped : Bool) : Ending → Reply
  | exited code => .ok (.exited pid code.toNat)
  | killed n =>
    match Signal.ofNumber? n with
    | some signal => .ok (.signaled pid signal dumped)
    | none => .error .EINVAL

namespace Reply

/-- A signal has interrupted the call, or the child has not ended. -/
inductive Interrupts : Reply → Prop where
  | signal : Interrupts (.error .EINTR)
  | news {n : News} (h : n.termination = none) : Interrupts (.ok n)

/-- The wait is over, with this result. -/
inductive Decides : Reply → Except Errno Status → Prop where
  | exited (pid : Pid) (code : Int) : Decides (.ok (.exited pid code)) (.ok (.exited code))
  | signaled (pid : Pid) (signal : Signal) (dumped : Bool) :
      Decides (.ok (.signaled pid signal dumped)) (.ok (.signaled signal))
  | failed {e : Errno} (he : e ≠ .EINTR) : Decides (.error e) (.error e)

variable {r : Reply} {result : Except Errno Status}

theorem interrupts_iff : r.Interrupts ↔ (WaitAnswer.ofReply r).verdict? = none := by
  constructor
  · rintro (_ | h)
    · rfl
    · rw [WaitAnswer.ofReply, h]
      rfl
  · intro h
    cases r with
    | ok n =>
      refine .news ?_
      cases hn : n.termination with
      | none => rfl
      | some status =>
        rw [WaitAnswer.ofReply, hn] at h
        cases h
    | error e =>
      by_cases he : e = .EINTR
      · exact he ▸ .signal
      · rw [WaitAnswer.ofReply, WaitAnswer.verdict?, if_neg he] at h
        cases h

theorem decides_iff : r.Decides result ↔ (WaitAnswer.ofReply r).verdict? = some result := by
  constructor
  · rintro (_ | _ | he)
    · rfl
    · rfl
    · exact if_neg he
  · intro h
    cases r with
    | ok n =>
      cases n with
      | exited | signaled =>
        obtain rfl := Option.some.inj h
        constructor
      | _ => cases h
    | error e =>
      by_cases he : e = .EINTR
      · rw [WaitAnswer.ofReply, WaitAnswer.verdict?, if_pos he] at h
        cases h
      · rw [WaitAnswer.ofReply, WaitAnswer.verdict?, if_neg he] at h
        obtain rfl := Option.some.inj h
        exact .failed he

end Reply

theorem WaitAnswer.ofReply_reply (e : Ending) (pid : Pid) (dumped : Bool) :
    ofReply (e.reply pid dumped) = ofEnding e := by
  cases e with
  | exited code => rfl
  | killed n =>
    simp only [Ending.reply, ofEnding, Ending.status]
    cases Signal.ofNumber? n <;> rfl

theorem Ending.decides_reply (e : Ending) (pid : Pid) (dumped : Bool) :
    (e.reply pid dumped).Decides e.status := by
  rw [Reply.decides_iff, WaitAnswer.ofReply_reply, WaitAnswer.verdict?_ofEnding]

/-! ## The calls of a wait -/

/-- A call that waits: the child that it asks for, and what is replied. -/
structure WaitCall where
  asked : Pid
  reply : Reply

/-- What has come of some replies: the calls that they have answered, the interpreter after these,
and the replies that it has not asked for. -/
structure Waited where
  calls : List WaitCall
  shell : Shell
  left : List Reply

namespace Shell

/-- The child that the interpreter asks for next. -/
def asks? (s : Shell) : Option Pid :=
  match s.handlers, s.phase with
  | [], .waiting pid => some pid
  | _, _ => none

/-- The interpreter is given these replies, one after another, as long as it asks for a child. -/
def waits (s : Shell) : List Reply → Waited
  | [] => { calls := [], shell := s, left := [] }
  | r :: rest =>
    match s.asks? with
    | none => { calls := [], shell := s, left := r :: rest }
    | some pid =>
      let later := (s.heard (.ofReply r)).waits rest
      { later with calls := ⟨pid, r⟩ :: later.calls }

/-- What its children give as a reply to a call that asks for one of them, and the children that are
left; `none` as long as it runs. -/
def replies? (s : Shell) (pid : Pid) (dumped : Bool) : Option (Reply × Children) :=
  match s.children.waitFor pid with
  | (.alive, _) => none
  | (.absent, cs) => some (.error .ECHILD, cs)
  | (.collected q e, cs) => some (e.reply q dumped, cs)

/-- The interpreter after a call that its children reply to, if they do. -/
def collects? (s : Shell) (dumped : Bool) : Option Shell :=
  s.asks?.bind fun pid => (s.replies? pid dumped).map fun (r, children) =>
    { s with children }.heard (.ofReply r)

variable {s : Shell} {pid : Pid} {r last : Reply} {before before' rest : List Reply}
  {result : Except Errno Status} {dumped : Bool}

theorem of_asks? (h : s.asks? = some pid) : s.handlers = [] ∧ s.phase = .waiting pid := by
  unfold asks? at h
  split at h
  · rename_i h0 hphase
    obtain rfl := Option.some.inj h
    exact ⟨h0, hphase⟩
  · cases h

theorem absent_waitFor {cs cs' : Children} (h : cs.waitFor pid = (.absent, cs')) : cs' = cs := by
  unfold Children.waitFor at h
  split at h
  · exact (Prod.mk.inj h).2.symm
  · split at h <;> cases h

/-- The step of an interpreter that waits is one call, and its children reply. -/
theorem need_of_asks (h : s.asks? = some pid) (dumped : Bool) :
    s.need = (s.collects? dumped).elim .blocked .step := by
  obtain ⟨home, tracker, lastStatus, phase, handlers, children, signals⟩ := s
  obtain ⟨rfl, rfl⟩ : handlers = [] ∧ phase = .waiting pid := of_asks? h
  rw [collects?, h, Option.bind_some, replies?, need]
  dsimp only
  rw [lineNeed]
  dsimp only
  rcases hwait : children.waitFor pid with ⟨result, cs⟩
  cases result with
  | alive => rfl
  | absent =>
    obtain rfl := absent_waitFor hwait
    rfl
  | collected q e =>
    dsimp only [Option.map_some, Option.elim_some]
    rw [WaitAnswer.ofReply_reply]

/-! ## Interruptions -/

theorem heard_of_interrupts (s : Shell) (h : r.Interrupts) : s.heard (.ofReply r) = s := by
  rw [heard, Reply.interrupts_iff.1 h]

theorem heard_of_decides (s : Shell) (h : r.Decides result) :
    s.heard (.ofReply r) = { s with phase := .collected result } := by
  rw [heard, Reply.decides_iff.1 h]

/-- After each interruption the same child is asked for, by the same interpreter. -/
theorem waits_append (h : s.asks? = some pid) (hbefore : ∀ r ∈ before, r.Interrupts)
    (rest : List Reply) : s.waits (before ++ rest) =
      { s.waits rest with calls := before.map (WaitCall.mk pid) ++ (s.waits rest).calls } := by
  induction before with
  | nil => rfl
  | cons r before ih =>
    rw [List.forall_mem_cons] at hbefore
    rw [List.cons_append, waits, h]
    dsimp only
    rw [heard_of_interrupts s hbefore.1, ih hbefore.2]
    rfl

/-- A wait that has been interrupted goes on as before. -/
theorem waits_of_interrupts (h : s.asks? = some pid) (hbefore : ∀ r ∈ before, r.Interrupts) :
    s.waits before = { calls := before.map (WaitCall.mk pid), shell := s, left := [] } := by
  have hall := waits_append h hbefore []
  rw [List.append_nil] at hall
  rw [hall, waits, List.append_nil]

theorem waits_of_decides (h : s.asks? = some pid) (hlast : last.Decides result)
    (rest : List Reply) : s.waits (last :: rest) =
      { calls := [⟨pid, last⟩], shell := { s with phase := .collected result }, left := rest } := by
  rw [waits, h]
  dsimp only
  rw [heard_of_decides s hlast]
  cases rest with
  | nil => rfl
  | cons r rest =>
    rw [waits, asks?, (of_asks? h).1]

/-- A reply that decides is the result of the wait, whatever has come before and would come then. -/
theorem await_of_decides (hbefore : ∀ r ∈ before, r.Interrupts) (hlast : last.Decides result)
    (rest : List Reply) : await ((before ++ last :: rest).map .ofReply) =
      some (result, rest.map .ofReply) := by
  rw [List.map_append, List.map_cons]
  refine await_append (fun a ha => ?_) (Reply.decides_iff.1 hlast)
  obtain ⟨r, hr, rfl⟩ := List.mem_map.1 ha
  exact Reply.interrupts_iff.1 (hbefore r hr)

/-- The interpreter waits for a child. Signals interrupt it and it is told of a child that goes on,
as often as may be, until a reply says how the child has ended or is another error: this is the
result, every call up to it has asked for that child, and no further one is made. However often it
has been interrupted, it is as it was, and so are its children and what they reply. -/
theorem outlasts_interruptions (h : s.asks? = some pid) (hlast : last.Decides result)
    (hbefore : ∀ r ∈ before, r.Interrupts) (hbefore' : ∀ r ∈ before', r.Interrupts)
    (rest : List Reply) :
    s.waits (before ++ last :: rest) =
      { calls := (before ++ [last]).map (WaitCall.mk pid)
        shell := { s with phase := .collected result }
        left := rest } ∧
    await ((before ++ last :: rest).map .ofReply) = some (result, rest.map .ofReply) ∧
    (s.waits (before' ++ last :: rest)).shell = (s.waits (before ++ last :: rest)).shell ∧
    (∀ dumped, (s.waits before').shell.collects? dumped = (s.waits before).shell.collects? dumped) ∧
    ∀ e cs, s.children.waitFor pid = (.collected pid e, cs) → (s.waits before).shell.need =
      .step { s with children := cs, phase := .collected e.status } := by
  have hwaits {before : List Reply} (hbefore : ∀ r ∈ before, r.Interrupts) :
      s.waits (before ++ last :: rest) =
        { calls := before.map (WaitCall.mk pid) ++ [⟨pid, last⟩]
          shell := { s with phase := .collected result }
          left := rest } := by
    rw [waits_append h hbefore, waits_of_decides h hlast]
  refine ⟨?_, await_of_decides hbefore hlast rest, ?_, fun dumped => ?_, fun e cs hwait => ?_⟩
  · rw [hwaits hbefore, List.map_append]
    rfl
  · rw [hwaits hbefore, hwaits hbefore']
  · rw [waits_of_interrupts h hbefore, waits_of_interrupts h hbefore']
  · rw [waits_of_interrupts h hbefore, need_of_asks h false, collects?, h, Option.bind_some, replies?,
      hwait]
    exact congrArg Need.step (heard_of_decides { s with children := cs } (e.decides_reply pid false))

/-- It waits for a child that has been killed; another one runs. -/
def waitingShell : Shell where
  phase := .waiting 7
  children := [{ pid := 7, ending := some (.killed Signal.kill) }, { pid := 8 }]

/-- A signal, a stopped child, another signal. -/
def interruptions : List Reply :=
  [.error .EINTR, .ok (.stopped 7 ⟨Signal.stop, by decide⟩), .error .EINTR]

def killedReply : Reply := .ok (.signaled 7 ⟨Signal.kill, by decide⟩ false)

theorem outlasts_interruptions_stoppedChild :
    let waited := waitingShell.waits (interruptions ++ killedReply :: [.error .ECHILD])
    waited.calls.map WaitCall.asked = [7, 7, 7, 7] ∧ waited.left = [.error .ECHILD] ∧
    waited.shell.phase = .collected (.ok (.signaled ⟨Signal.kill, by decide⟩)) ∧
    (waitingShell.waits [.ok (.continued 7)]).shell.collects? false =
      (waitingShell.waits interruptions).shell.collects? false ∧
    (waitingShell.waits interruptions).shell.need = .step { waitingShell with
      children := [{ pid := 8 }]
      phase := .collected (.ok (.signaled ⟨Signal.kill, by decide⟩)) } := by
  have hasks : waitingShell.asks? = some 7 := rfl
  have hbefore : ∀ r ∈ interruptions, r.Interrupts := by
    rintro r (_ | ⟨_, _ | ⟨_, _ | ⟨_, h⟩⟩⟩)
    · exact .signal
    · exact .news rfl
    · exact .signal
    · cases h
  have hbefore' : ∀ r ∈ [(.ok (.continued 7) : Reply)], Reply.Interrupts r :=
    List.forall_mem_singleton.2 (.news rfl)
  obtain ⟨hwaits, -, -, hcollects, hneed⟩ :=
    outlasts_interruptions hasks (.signaled 7 ⟨Signal.kill, by decide⟩ false) hbefore hbefore'
      [.error .ECHILD]
  refine ⟨?_, ?_, ?_, hcollects false, hneed (.killed Signal.kill) [{ pid := 8 }] rfl⟩
  · exact congrArg (fun w => w.calls.map WaitCall.asked) hwaits
  · exact congrArg Waited.left hwaits
  · exact congrArg (fun w => w.shell.phase) hwaits

end Shell

end JobShell
