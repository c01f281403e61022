import JobShell.System.Execution

/-!
# Running the processes

`World.step` lets one process take its signals and make one call. `World.round` gives each process a
turn of at most `turn` calls, in the order of their numbers; when nobody can go on, the clock moves
to the time the first sleeper wakes. `World.runUntil` repeats rounds.
-/

namespace JobShell

namespace World

/-- What the system does for a call. -/
def perform (w : World) (p : Process) : (c : Call) → Outcome c.Reply
  | .open path mode bits => .of (w.open_ p path mode bits)
  | .close fd => .of (w.close p fd)
  | .read fd count => w.read p fd count
  | .write fd text => w.write p fd text
  | .seek fd offset whence => .of (w.seek p fd offset whence)
  | .truncate fd size => .of (w.truncateFile p fd size)
  | .pipe => .of (w.makePipe p)
  | .copyAbove fd least => .of (w.copyAbove p fd least)
  | .dup2 fd target => .of (w.dup2 p fd target)
  | .stat path follow => .done w (w.stat p path follow)
  | .fstat fd => .done w (w.fstat p fd)
  | .access path want => .done w (w.access p path want)
  | .list path => .done w (w.list p path)
  | .chdir path => .of (w.chdir p path)
  | .getcwd => .done w (w.getcwd p)
  | .mkdir path bits => .ofChange w (w.mkdir p path bits)
  | .rmdir path => .ofChange w (w.rmdir p path)
  | .unlink path => .ofChange w (w.unlink p path)
  | .rename old new => .ofChange w (w.rename p old new)
  | .link old new => .ofChange w (w.link p old new)
  | .symlink target path => .ofChange w (w.symlink p target path)
  | .readlink path => .done w (w.readlink p path)
  | .chmod path bits => .ofChange w (w.chmod p path bits)
  | .touch path time => .ofChange w (w.touch p path time)
  | .umask bits => .of (w.setUmask p bits)
  | .self => .done w p.pid
  | .parent => .done w p.parent
  | .setGroup pid group => .of (w.setGroup p pid group)
  | .wait which block => w.wait p which block
  | .kill pid signal => .of (w.kill p pid signal)
  | .dispose signal d => .of (w.dispose p signal d)
  | .disposition signal => .done w (p.signals.disposition signal)
  | .unblock signal => .done (w.setProcess { p with signals := p.signals.unblock signal }) ()
  | .caught => .of (w.takeCaught p)
  | .sleep nanos => w.sleep p nanos
  | .now => .done w w.clock
  | .exec path args env => w.exec p path args env

/-- What signal `n`, taken now, does to a process. -/
def takeSignal (w : World) (p : Process) (n : Nat) : World :=
  let p := { p with signals := p.signals.take n }
  match p.signals.disposition n with
  | .ignored => w.setProcess p
  | .handled => w.setProcess { p with caught := p.caught ++ [n], interrupted := true }
  | .default =>
    match Signal.effect n with
    | .ends => (w.setProcess p).finish p.pid (.killed n)
    | .stops => w.setProcess { p with stopped := true }
    | .continues => w.setProcess p
    | .nothing => w.setProcess p

/-- The process takes the signals that wait for it, at most `n` of them. -/
def takeSignals : Nat → World → Pid → World
  | 0, w, _ => w
  | n + 1, w, pid =>
    match w.process? pid with
    | none => w
    | some p =>
      if p.stopped then w
      else match p.signals.next? [] with
      | none => w
      | some s => takeSignals n (w.takeSignal p s) pid

/-- A process that has taken a SIGINT writes its farewell and ends with exit code 0, whether or not
the text could be written; whether it got on. -/
def quit (w : World) (p : Process) (text : Bytes) : World × Bool :=
  match w.write p 1 text with
  | .done w _ => (w.finish p.pid (.exited 0), true)
  | _ => (w, false)

/-- The next call of a process; whether it got on. -/
def proceed (w : World) (p : Process) : World × Bool :=
  match p.program with
  | none => (w, false)
  | some (.exit code) => (w.finish p.pid (.exited code), true)
  | some (.fork child next) =>
    let (pid, w) := w.fork p child
    (w.modifyProcess p.pid fun q => { q with program := some (next (.ok pid)) }, true)
  | some (.call c next) =>
    match w.perform p c with
    | .done w reply =>
      (w.modifyProcess p.pid fun q => { q with program := some (next reply) }, true)
    | .become w => (w, true)
    | .wait w =>
      match c.interrupted?, p.interrupted with
      | some reply, true =>
        (w.modifyProcess p.pid fun q =>
          { q with program := some (next reply), interrupted := false, wake := none }, true)
      | _, _ => (w, false)

/-- One step of a process that has taken its signals: the handler of a SIGINT goes before the program;
whether it got on. -/
def advance (w : World) (p : Process) : World × Bool :=
  match p.farewell? with
  | some text => w.quit p text
  | none => w.proceed p

/-- Number of signals there are. -/
def signalCount : Nat := 64

/-- One step of a process: its signals, then one call. -/
def step (w : World) (pid : Pid) : World × Bool :=
  let w := w.takeSignals signalCount pid
  match w.process? pid with
  | none => (w, true)
  | some p => if p.stopped then (w, false) else w.advance p

/-- At most `n` steps of a process, as long as it gets on. -/
def steps : Nat → World → Pid → World × Bool
  | 0, w, _ => (w, true)
  | n + 1, w, pid =>
    match w.step pid with
    | (w, false) => (w, false)
    | (w, true) => ((steps n w pid).1, true)

/-- Number of calls a process makes in its turn. -/
def turn : Nat := 64

/-- Nanoseconds a round takes. -/
def roundTime : Nat := 20000

/-- The processes that are not driven from outside. -/
def runners (w : World) : List Pid :=
  (w.processes.toList.filter (·.2.program.isSome)).map (·.1)

/-- A turn for each process; whether one of them got on. -/
def round (w : World) : World × Bool :=
  let (w, moved) := w.runners.foldl (fun (w, moved) pid =>
    let (w, m) := w.steps turn pid
    (w, moved || m)) (w, false)
  ({ w with clock := w.clock + roundTime }, moved)

def nextWake (w : World) : Option Nat :=
  w.processes.foldl (fun t _ p =>
    if p.stopped then t
    else match t, p.wake with
      | none, u => u
      | some t, some u => some (min t u)
      | some t, none => some t) none

/-- One round, or the step of the clock to the next waking; `none` if nothing can happen any more. -/
def next? (w : World) : Option World :=
  match w.round with
  | (w, true) => some w
  | (w, false) => w.nextWake.map fun t => { w with clock := max t w.clock }

/-- Rounds until `done` holds or nothing can happen any more, at most `n`. -/
def runUntil (done : World → Bool) : Nat → World → World
  | 0, w => w
  | n + 1, w =>
    if done w then w
    else match w.next? with
      | some w => runUntil done n w
      | none => w

end World

end JobShell
