import JobShell.Scripting.Builtins.Values

/-!
# Builtins on jobs and signals

`trap`, `kill`, `wait`, `jobs`, `hash`, `type`, `ulimit`, `times`.
-/

namespace JobShell.Scripting.Builtins

open Sh

/-! ## Signals -/

def setTrap (n : Nat) (action : Option Bytes) : Sh Unit := do
  modify fun s =>
    { s with
      traps := match action with
        | some a => s.traps.set n a
        | none => s.traps.erase n }
  unless n = 0 do setSignal n

def trap (args : List Bytes) : Sh Nat := do
  let (_, args) ← Options.ofBuiltin "" args
  let s ← get
  match args with
  | [] =>
    for n in List.range signalCount do
      if let some action := s.traps.get? n then
        putLine (Bytes.ofString "trap -- " ++ Finding.quoted action ++
          Bytes.ofString s!" {signalName n}")
    return 0
  | first :: rest =>
    let plain := rest.isEmpty || (Bytes.toNat? first).any (· < signalCount)
    let (action, names) := if plain then (none, args) else (some first, rest)
    let action := if action = some [0x2d] then none else action
    for name in names do
      match signal? 0 name with
      | some n => setTrap n action
      | none =>
        let _ ← writeAll 2 (Bytes.ofString "trap: " ++ name ++ Bytes.ofString ": bad trap\n")
        return 1
    return 0

def killUsage {α : Type} : Sh α :=
  failString ("Usage: kill [-s sigspec | -signum | -sigspec] [pid | job]... or\n" ++
    "kill -l [exitstatus]")

/-- The job of `%number`, or the latest for `%%` and the like. -/
def jobOf (s : Bytes) : Sh Job := do
  let jobs := (← get).jobs
  let found := match s with
    | [0x25] | [0x25, 0x25] | [0x25, 0x2b] => jobs.head?
    | [0x25, 0x2d] => jobs[1]?
    | 0x25 :: digits => (Bytes.toNat? digits).bind fun n => jobs.find? (·.number = n)
    | _ => none
  match found with
  | some j => return j
  | none => fail (Bytes.ofString "No such job: " ++ s)

def listSignals (args : List Bytes) : Sh Nat := do
  match args with
  | [] =>
    putString "0\n"
    for n in List.range (signalCount - 1) do putString (signalName (n + 1) ++ "\n")
    return 0
  | s :: _ =>
    let n ← count s
    let n := if n > 128 then n - 128 else n
    if 0 < n && n < signalCount then
      putString (signalName n ++ "\n")
      return 0
    else fail (Bytes.ofString "invalid signal number or exit status: " ++ s)

def kill (args : List Bytes) : Sh Nat := do
  match args with
  | [] => killUsage
  | first :: rest =>
    let direct := match first with
      | 0x2d :: name => signal? 1 name
      | _ => none
    let (signal, lists, targets) ← match direct with
      | some n => pure (some n, false, rest)
      | none => do
        if first.head? = some 0x2d then
          let (options, rest) ← Options.ofBuiltin "ls:" args
          let mut signal : Option Nat := none
          for (c, value) in options do
            if c = 's' then
              match signal? 1 value with
              | some n => signal := some n
              | none => fail (Bytes.ofString "invalid signal number or name: " ++ value)
          pure (signal, options.any (·.1 = 'l'), rest)
        else pure (none, false, args)
    if lists then
      if signal.isSome then killUsage
      return ← listSignals targets
    if targets.isEmpty then killUsage
    let mut code := 0
    for target in targets do
      let pid : Int ← match target with
        | 0x25 :: _ => do pure (-(((← jobOf target).processes.head?.map (·.1)).getD 0))
        | 0x2d :: digits => do pure (-((← count digits) : Int))
        | digits => do pure ((← count digits) : Int)
      match ← call (.kill pid (signal.getD Signal.terminate)) with
      | .ok () => pure ()
      | .error e =>
        warnString s!"{e.reason}\n"
        code := 1
    return code

/-! ## Jobs -/

/-- Waits until a job has ended, or all have; `false` if a signal with a trap came first. -/
def waitUntil (told : List Pid) (done : State → Bool) : Sh Bool := do
  iterate () fun _ => do
    poll
    if !(← get).got.isEmpty then return .inr false
    if done (← get) then return .inr true
    match ← call (.wait none true) with
    | .ok (some (pid, e)) =>
      note pid e
      if pid ∈ told then tellEnding e
      return .inl ()
    | .ok none => return .inr true
    | .error .EINTR => return .inl ()
    | .error _ => return .inr true

/-- The exit code when a signal has interrupted `wait`. -/
def interruptedCode : Sh Nat := return 128 + ((← get).got.headD 0)

def markWaited (n : Nat) : Sh Unit := modify fun s =>
  { s with jobs := s.jobs.map fun j => if j.number = n then { j with waited := true } else j }

/-- Waits for the jobs of the arguments; the exit code of the last. -/
def waitEach : Nat → List Bytes → Sh Nat
  | code, [] => return code
  | code, arg :: rest => do
    let job ← match arg with
      | 0x25 :: _ => do pure (some (← jobOf arg))
      | digits => do
        let pid : Pid := (← count digits : Nat)
        pure ((← get).jobs.find? fun j => j.processes.getLast?.any (·.1 = pid))
    match job with
    | none => waitEach code rest
    | some job =>
      let current (s : State) : Option Job := s.jobs.find? (·.number = job.number)
      if ← waitUntil (job.processes.map (·.1)) fun s => (current s).all (·.isDone) then
        markWaited job.number
        waitEach (((current (← get)).map jobCode).getD 0) rest
      else interruptedCode

def wait (args : List Bytes) : Sh Nat := do
  let (_, args) ← Options.ofBuiltin "" args
  if args.isEmpty then
    if ← waitUntil [] fun s => s.jobs.all (·.isDone) then
      modify fun s => { s with jobs := s.jobs.map ({ · with waited := true }) }
      return 0
    else interruptedCode
  else waitEach 127 args

def jobText (j : Job) : String :=
  if !j.isDone then "Running"
  else match j.processes.getLast?.bind (·.2) with
    | some (.exited c) => if c = 0 then "Done" else s!"Done({c.toNat})"
    | some (.killed n) => Signal.meaning n
    | none => "Done"

def jobs (args : List Bytes) : Sh Nat := do
  let (options, _) ← Options.ofBuiltin "lp" args
  collect
  let all := (← get).jobs
  -- A job that has ended is forgotten when it has been shown; the next one is the latest then.
  let mut place := 0
  for j in all do
    if options.any (·.1 = 'p') then
      putLine (((j.processes.head?).map fun p => Bytes.ofInt p.1).getD [])
    else
      let mark := if place = 0 then "+" else if place = 1 then "-" else " "
      let text := s!"[{j.number}] {mark} {jobText j}"
      putString (text ++ String.ofList (List.replicate (33 - text.length) ' ') ++ "\n")
    unless j.isDone do place := place + 1
  modify fun s => { s with jobs := s.jobs.filter (!·.isDone) }
  return 0

/-! ## Other tables -/

def commandSlot (name : Bytes) : Nat :=
  ((16 * ((name.head?).elim 0 (·.toNat)) + name.foldl (fun n b => n + b.toNat) 0) &&& 0x7fff) % 31

def hash (args : List Bytes) : Sh Nat := do
  let (options, args) ← Options.ofBuiltin "r" args
  unless options.isEmpty do
    modify ({ · with found := [] })
    return 0
  if args.isEmpty then
    for (_, path) in (← get).found.mergeSort fun a b => commandSlot a.1 ≤ commandSlot b.1 do
      putLine path
    return 0
  let mut code := 0
  for name in args do
    match ← Finding.find name false (← valueOf "PATH") with
    | .missing e =>
      warn (about name (Finding.executeText e))
      code := 1
    | _ => pure ()
  return code

def type_ (args : List Bytes) : Sh Nat := do
  let mut code := 0
  for name in args do
    let c ← Finding.describe true (← valueOf "PATH") name
    code := code ||| c
  return code

def times (_ : List Bytes) : Sh Nat := do
  putString "0m0.000000s 0m0.000000s\n0m0.000000s 0m0.000000s\n"
  return 0

def ulimit (args : List Bytes) : Sh Nat := do
  let (options, args) ← Options.ofBuiltin "HSatfdscmlpnvwr" args
  if args.isEmpty then
    putString (if (options.getLast?).any (·.1 = 'c') then "0\n" else "unlimited\n")
  return 0

def foreground (_ : List Bytes) : Sh Nat := failString "job (null) not created under job control"

end JobShell.Scripting.Builtins
