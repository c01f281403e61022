import JobShell.Scripting.Source
import JobShell.Scripting.Variables
import JobShell.Tools.Desk

/-!
# The state of a command interpreter

`Sh` is a piece of its work: calls to the system with the state, which may stop early (`Stop`) to
leave a loop, a function or the interpreter itself. What goes wrong is told with the name of the
script, the line, and the builtin at work.
-/

namespace JobShell.Scripting

structure Job where
  number : Nat := 0
  /-- Its processes and how they ended. -/
  processes : List (Pid × Option Ending)
  /-- Its end has been asked for. -/
  waited : Bool := false

def Job.isDone (j : Job) : Bool := j.processes.all (·.2.isSome)

structure State where
  /-- The name in complaints and in `$0`. -/
  name : Bytes
  params : List Bytes := []
  vars : Variables := []
  /-- For each function being run, the variables it has hidden, the innermost first. -/
  hidden : List (List (Bytes × Option Variable)) := []
  options : List Char := []
  /-- The exit code of the last command. -/
  status : Nat := 0
  /-- The exit code of the last command substitution of the command at work. -/
  substituted : Nat := 0
  functions : Table Bytes (Nat × Cmd) := []
  aliases : Table Bytes Bytes := []
  /-- Commands that have been found. -/
  found : Table Bytes Bytes := []
  /-- What to do on signals; 0 stands for the end. An empty text ignores the signal. -/
  traps : Table Nat Bytes := []
  /-- What is done with signals, as far as it is known; `none` for one that stays ignored. -/
  modes : Table Nat (Option Disposition) := []
  /-- Signals that wait for their traps. -/
  got : List Nat := []
  jobs : List Job := []
  lastBackground : Option Pid := none
  self : Pid
  parent : Pid
  line : Nat := 0
  /-- The line up to which the commands have been read. -/
  readLine : Nat := 1
  /-- The builtin at work. -/
  builtin : Option Bytes := none
  /-- Texts that stood in lines after commands. -/
  texts : Table Nat Word := []
  nextText : Nat := 0
  directory : Bytes := []
  /-- Number of functions around. -/
  depth : Nat := 0
  /-- Number of loops around. -/
  loops : Nat := 0
  /-- Output of the builtin at work. -/
  output : Bytes := []
  /-- Not a child of another interpreter. -/
  isRoot : Bool := true
  /-- An interrupt is handled so as to end the interpreter after the running command. -/
  minds : Bool := true
  /-- The word `getopts` looks at next, from 1 on, and how far it is inside the one before. -/
  optionIndex : Nat := 1
  optionOffset : Nat := 0
  /-- The descriptor the commands are read from, if it is not standard input. -/
  script : Option Nat := none
  /-- Descriptors put aside while others take their places, the latest first. -/
  aside : List (List (Nat × Option Nat)) := []
  /-- The exit code before the trap at work. -/
  before : Option Nat := none

/-- Why the work stops early. The exit code is in the state. -/
inductive Stop where
  | leave
  /-- A fault that has been told. -/
  | fault
  | break_ (loops : Nat)
  | resume (loops : Nat)
  | return_

abbrev Sh (α : Type) : Type := ExceptT Stop (StateT State Prog) α

namespace Sh

def prog {α : Type} (p : Prog α) : Sh α := ExceptT.lift (StateT.lift p)

def call (c : Call) : Sh c.Reply := prog (Prog.call c)

def runWith {α : Type} (p : Sh α) (s : State) : Prog (Except Stop α × State) := p.run.run s

def outcome {α : Type} (p : Sh α) : Sh (Except Stop α) := fun s => do
  let (r, s) ← runWith p s
  return (.ok r, s)

/-- Does `last` after `p` even if that stops early. -/
def finally_ {α : Type} (p : Sh α) (last : Sh Unit) : Sh α := do
  let r ← outcome p
  last
  MonadExcept.ofExcept r

/-- Repeats `body` from state to state until it gives a result. -/
def iterate {σ α : Type} (s : σ) (body : σ → Sh (σ ⊕ α)) : Sh α := fun st =>
  Prog.iterate (s, st) fun (s, st) => do
    match ← runWith (body s) st with
    | (.ok (.inl s), st) => return .inl (s, st)
    | (.ok (.inr a), st) => return .inr (.ok a, st)
    | (.error e, st) => return .inr (.error e, st)

/-! ## Output -/

/-- Writes all of a text; whether it could be written. -/
def writeAll (fd : Nat) (text : Bytes) : Sh Bool :=
  iterate text fun text => do
    if text.isEmpty then return .inr true
    match ← call (.write fd text) with
    | .ok n => return .inl (text.drop n)
    | .error .EINTR => return .inl text
    | .error _ => return .inr false

def put (text : Bytes) : Sh Unit := modify fun s => { s with output := s.output ++ text }

def putLine (text : Bytes) : Sh Unit := put (text ++ [Bytes.newline])

def putString (s : String) : Sh Unit := put (Bytes.ofString s)

/-- Writes the output of the builtin; whether it could be written. -/
def flush : Sh Bool := do
  let text := (← get).output
  modify ({ · with output := [] })
  writeAll 1 text

def warn (text : Bytes) : Sh Unit := do
  let s ← get
  let builtin := (s.builtin.map (· ++ Bytes.ofString ": ")).getD []
  let _ ← writeAll 2 (s.name ++ Bytes.ofString s!": {s.line}: " ++ builtin ++ text ++ [Bytes.newline])

def warnString (text : String) : Sh Unit := warn (Bytes.ofString text)

def fail {α : Type} (text : Bytes) : Sh α := do
  warn text
  let _ ← flush
  modify ({ · with status := 2 })
  throw .fault

def failString {α : Type} (text : String) : Sh α := fail (Bytes.ofString text)

/-- `what: text`. -/
def about (what : Bytes) (text : String) : Bytes := what ++ Bytes.ofString s!": {text}"

def badNumber {α : Type} (s : Bytes) : Sh α := fail (Bytes.ofString "Illegal number: " ++ s)

/-! ## Options and variables -/

def hasOption (c : Char) : Sh Bool := return (← get).options.contains c

def valueOf (name : String) : Sh (Option Bytes) := return (← get).vars.valueOf name

def assign (name value : Bytes) : Sh Unit := do
  let s ← get
  if s.vars.isReadOnly name then fail (about name "is read only")
  let vars := s.vars.assign name value
  let vars := if s.options.contains 'a' then vars.mark name true false else vars
  set { s with vars }
  if name = Bytes.ofString "OPTIND" then
    modify ({ · with optionOffset := 0, optionIndex := max 1 ((Bytes.toNat? value).getD 1) })
  if name = Bytes.ofString "PATH" then modify ({ · with found := [] })

/-- Gives a variable a value, if the name is one. -/
def assignNamed (name value : Bytes) : Sh Unit := do
  unless Name.isName name do fail (about name "bad variable name")
  assign name value

def hide (name : Bytes) : Sh Unit := modify fun s =>
  match s.hidden with
  | frame :: rest =>
    if frame.any (·.1 = name) then s
    else { s with hidden := ((name, s.vars.get? name) :: frame) :: rest }
  | [] => s

/-- Opens a frame of hidden variables, runs `p` and brings them back. -/
def withHidden {α : Type} (p : Sh α) : Sh α := do
  modify fun s => { s with hidden := [] :: s.hidden }
  finally_ p do
    modify fun s =>
      match s.hidden with
      | frame :: rest =>
        { s with
          hidden := rest
          vars := frame.foldl (fun vs (name, old) =>
            match old with
            | some v => Table.set vs name v
            | none => vs.erase name) s.vars }
      | [] => s

/-! ## Signals -/

def signalCount : Nat := 65

def signalName (n : Nat) : String :=
  if n = 0 then "EXIT"
  else if n = 16 then "16"
  else if n ≤ 31 then Signal.names.getD (n - 1) ""
  else if n = 34 then "RTMIN"
  else if n = 64 then "RTMAX"
  else if n < 34 then toString n
  else if n ≤ 49 then s!"RTMIN+{n - 34}"
  else s!"RTMAX-{64 - n}"

/-- The signal of a number or a name, in which case does not count; numbers from `least` on. -/
def signal? (least : Nat) (s : Bytes) : Option Nat :=
  match Bytes.toNat? s with
  | some n => if n < signalCount then some n else none
  | none =>
    (List.range signalCount).find? fun n =>
      n ≥ least && s.map Class.toUpper = Bytes.ofString (signalName n)

def wanted (s : State) (n : Nat) : Disposition :=
  if n = Signal.child then .handled
  else match s.traps.get? n with
    | some [] => .ignored
    | some _ => .handled
    | none => if n = Signal.interrupt && s.isRoot && s.minds then .handled else .default

/-- Does with a signal what is wanted now; one that was ignored from the start stays so. -/
def setSignal (n : Nat) : Sh Unit := do
  let mode : Option Disposition ← match (← get).modes.get? n with
    | some m => pure m
    | none =>
      match ← call (.disposition n) with
      | .ignored => pure (if n = Signal.child then some .ignored else none)
      | d => pure (some d)
  let d := wanted (← get) n
  match mode with
  | none => modify fun s => { s with modes := s.modes.set n none }
  | some m =>
    modify fun s => { s with modes := s.modes.set n (some d) }
    unless m = d do
      let _ ← call (.dispose n d)

def interrupted {α : Type} : Sh α := do
  let _ ← call (.dispose Signal.interrupt .default)
  let _ ← call (.kill (← call .self) Signal.interrupt)
  let _ ← call .self
  prog (Prog.exit 130)

/-- Takes the signals that have arrived; whether one of them is an interrupt that ends the
interpreter. -/
def takeSignals : Sh Bool := do
  let caught ← call .caught
  if caught.isEmpty then return false
  let s ← get
  let trapped := caught.filter fun n => s.traps.get? n ≠ none && n ∉ s.got
  modify ({ · with got := s.got ++ trapped })
  return caught.any fun n => n = Signal.interrupt && s.traps.get? n = none

/-- Takes the signals that have arrived; an interrupt without a trap ends the interpreter. -/
def poll : Sh Unit := do
  if ← takeSignals then interrupted

/-! ## Children -/

def note (pid : Pid) (e : Ending) : Sh Unit := modify fun s =>
  { s with jobs := s.jobs.map fun j =>
      { j with processes := j.processes.map fun (p, old) => (p, if p = pid then some e else old) } }

/-- The text for a signal that ended a process, if that is told. -/
def endingText? : Ending → Option String
  | .exited _ => none
  | .killed n =>
    if n = Signal.interrupt || n = Signal.pipe then none
    else some (Signal.meaning n)

def tellEnding (e : Ending) : Sh Unit := do
  match endingText? e with
  | some text =>
    let _ ← writeAll 2 (Bytes.ofString (text ++ "\n"))
  | none => return

def codeOf : Ending → Nat
  | .exited c => c.toNat
  | .killed n => 128 + n

def jobCode (j : Job) : Nat := ((j.processes.getLast?.bind (·.2)).map codeOf).getD 0

/-- Collects children that have ended, without waiting. -/
def collect : Sh Unit :=
  iterate () fun _ => do
    match ← call (.wait none false) with
    | .ok (some (pid, e)) =>
      note pid e
      return .inl ()
    | _ => return .inr ()

/-- Waits until all processes of a job have ended, and tells which were ended by signals; the exit
code of the last one. An interrupt without a trap ends the interpreter afterwards. -/
def waitForeground (pids : List Pid) : Sh Nat := do
  modify fun s => { s with jobs := { processes := pids.map (·, none) } :: s.jobs }
  let (last, stop) : Nat × Bool ← iterate (pids, 0, false) fun (left, last, stop) => do
    if left.isEmpty then return .inr (last, stop)
    match ← call (.wait none true) with
    | .ok (some (pid, e)) =>
      note pid e
      if pid ∈ left then tellEnding e
      let last := if some pid = pids.getLast? then codeOf e else last
      return .inl (left.filter (· ≠ pid), last, stop)
    | .ok none => return .inr (last, stop)
    | .error .EINTR => return .inl (left, last, (← takeSignals) || stop)
    | .error _ => return .inr (last, stop)
  modify fun s => { s with jobs := s.jobs.filter fun j => j.processes.map (·.1) ≠ pids }
  if stop || (← takeSignals) then interrupted
  return last

end Sh

end JobShell.Scripting
