import JobShell.Scripting.Builtins.Jobs
import JobShell.Scripting.Builtins.Output
import JobShell.Scripting.Builtins.Places
import JobShell.Scripting.Decision

/-!
# Running commands

`Evaluation.step` runs one command, given how the commands inside it are run; `Evaluation.run` ties
the knot. A command that is the last of its process replaces it, if nothing is left to be done after
it. What fails where it is not tested ends the interpreter if the option `-e` is on.
-/

namespace JobShell.Scripting

structure Standing where
  /-- Nothing follows it in its process. -/
  last : Bool := false
  /-- Its failure is looked at. -/
  tested : Bool := false

namespace Standing

def inner (f : Standing) : Standing := { f with last := false }

end Standing

namespace Evaluation

open Sh

abbrev Run : Type := Standing → Cmd → Sh Unit

def setStatus (n : Nat) : Sh Unit := modify ({ · with status := n })

def leave {α : Type} : Sh α := throw .leave

/-! ## Commands in a text -/

/-- Reads the next command of a text that nothing follows; `none` at the end. Says also whether the
text ends with it. -/
def nextOf (source : Source) : Sh (Option (Cmd × Bool × Source)) := do
  let s ← get
  match Grammar.nextCommand.run { source with aliases := s.aliases, nextText := s.nextText } with
  | .ok (c, source) =>
    modify fun s =>
      { s with
        texts := source.texts ++ s.texts, nextText := source.nextText, readLine := source.line }
    let atEnd := match source.back with
      | some .eof => true
      | _ => false
    return c.map fun c => (c, atEnd, { source with texts := [] })
  | .error (.wrong line text) =>
    modify ({ · with line })
    failString s!"Syntax error: {text}"
  | .error .more => return none

def runText (run : Run) (last : Bool) (text : Bytes) : Sh Unit := do
  let ran ← iterate (({ rest := text, closed := true } : Source), false) fun (source, ran) => do
    match ← nextOf source with
    | none => return .inr ran
    | some (c, atEnd, source) =>
      run { last := last && atEnd } c
      return .inl (source, true)
  unless ran do setStatus 0

/-! ## Traps and the end -/

def runTraps (run : Run) : Sh Unit :=
  iterate () fun _ => do
    poll
    let s ← get
    match s.got.mergeSort (· ≤ ·) with
    | [] => return .inr ()
    | n :: rest =>
      set { s with got := rest, before := some s.status }
      if let some action := s.traps.get? n then runText run false action
      modify fun t => { t with status := s.status, before := s.before }
      return .inl ()

/-- Runs the trap for the end, if there is one; the exit code. -/
def finish (run : Run) : Sh UInt8 := do
  let s ← get
  match s.traps.get? 0 with
  | some action =>
    set { s with traps := s.traps.erase 0, before := some s.status, builtin := none }
    match ← outcome (runText run false action) with
    | .error .leave => pure ()
    | .error .fault => pure ()
    | _ => setStatus s.status
  | none => pure ()
  return (← get).status.toUInt8

/-- A process that does `body` and ends. -/
def whole (run : Run) (body : Sh Unit) (s : State) : Prog UInt8 := do
  let ended : Sh UInt8 := do
    match ← outcome body with
    | .error .fault => setStatus 2
    | _ => pure ()
    finish run
  match ← runWith ended s with
  | (.ok code, _) => return code
  | (.error _, s) => return s.status.toUInt8

/-! ## Children -/

/-- What a child does first: it has no traps, no jobs and no script. -/
def becomeChild : Sh Unit := do
  let s ← get
  set { s with traps := s.traps.filter (·.2.isEmpty), jobs := [], isRoot := false, got := [], before := none
               script := none }
  for (n, action) in s.traps do
    unless action.isEmpty || n = 0 do setSignal n
  if let some fd := s.script then
    let _ ← call (.close fd)

/-- What a child in the background does next: interrupts do not reach it. -/
def becomeBackground (first : Bool) : Sh Unit := do
  for n in [Signal.interrupt, Signal.quit] do
    modify fun s => { s with modes := s.modes.set n none }
    let _ ← call (.dispose n .ignored)
  if first then
    let _ ← call (.close 0)
    let _ ← call (.open (Bytes.ofString "/dev/null") .reading 0)

/-- A new process that does `body`. -/
def spawn (run : Run) (body : Sh Unit) : Sh Pid := do
  let s ← get
  match ← prog (Prog.fork (whole run body s)) with
  | .ok pid => return pid
  | .error _ => failString "Cannot fork"

/-- A new process that does `body` as a child. -/
def spawnChild (run : Run) (body : Sh Unit) : Sh Pid := spawn run do
  becomeChild
  body

/-- Keeps a job in the background, without those whose end has been asked for. -/
def addJob (pids : List Pid) : Sh Unit := modify fun s =>
  let jobs := s.jobs.filter fun j => !(j.isDone && j.waited)
  let number := ((List.range (jobs.length + 1)).map (· + 1)).find? fun n => !jobs.any (·.number = n)
  { s with
    jobs := { number := number.getD 0, processes := pids.map (·, none) } :: jobs
    lastBackground := pids.getLast? }

def pipe : Sh (Nat × Nat) := do
  match ← call .pipe with
  | .ok ends => return ends
  | .error _ => failString "Pipe call failed"

def move (fd target : Nat) : Sh Unit := do
  unless fd = target do
    let _ ← call (.dup2 fd target)
    let _ ← call (.close fd)

def readAll (fd : Nat) : Sh Bytes :=
  iterate ([] : List Bytes) fun pieces => do
    match ← call (.read fd 4096) with
    | .ok [] => return .inr pieces.reverse.flatten
    | .ok piece => return .inl (piece :: pieces)
    | .error .EINTR => return .inl pieces
    | .error _ => return .inr pieces.reverse.flatten

def substitute (run : Run) (c : Cmd) : Sh Bytes := do
  match c with
  | .nothing =>
    modify ({ · with substituted := 0 })
    return []
  | c =>
    let (input, output) ← pipe
    let pid ← spawnChild run do
      let _ ← call (.close input)
      move output 1
      run { last := true } c
    let _ ← call (.close output)
    let text ← readAll input
    let _ ← call (.close input)
    let code ← waitForeground [pid]
    modify ({ · with substituted := code })
    return text

/-! ## Redirections -/

/-- A redirection whose words have been expanded. -/
inductive Opening where
  | file (fd : Nat) (mode : FileMode) (path : Bytes)
  /-- A copy of a descriptor; `none` closes. -/
  | copy (fd : Nat) (source : Option Nat)
  | text (fd : Nat) (text : Bytes)

/-- The complaint about a word that should be the number of a descriptor, or `-`. -/
def badDescriptor {α : Type} : Sh α := do
  modify fun s => { s with line := s.readLine }
  failString "Syntax error: Bad fd number"

def expandRedir (run : Run) : Redir → Sh Opening
  | .file fd mode target => return .file fd mode (← Expansion.text (substitute run) target)
  | .copy fd target => do
    match ← Expansion.text (substitute run) target with
    | [0x2d] => return .copy fd none
    | [d] =>
      match Bytes.digit? d with
      | some n => return .copy fd (some n)
      | none => badDescriptor
    | _ => badDescriptor
  | .here fd doc => do
    let w := ((← get).texts.get? doc).getD []
    return .text fd (← Expansion.hereText (substitute run) w)

def openText (creating : Bool) (e : Errno) : String :=
  if e = .ENOENT || e = .ENOTDIR then
    if creating then "Directory nonexistent" else "No such file"
  else e.reason

/-- Bytes a pipe takes without a reader. -/
def pipeSize : Nat := 4096

def openText_ (run : Run) (text : Bytes) : Sh Nat := do
  let (input, output) ← pipe
  if text.length ≤ pipeSize then
    let _ ← writeAll output text
  else
    let _ ← spawn run do
      let _ ← call (.close input)
      let _ ← writeAll output text
      setStatus 0
  let _ ← call (.close output)
  return input

/-- The mode a file is opened with; a file that is not to be overwritten has to be new. -/
def openMode (mode : FileMode) (fresh : Bool) : OpenMode :=
  match mode with
  | .read => .reading
  | .append => .appending
  | .readWrite => { read := true, write := true, create := true }
  | _ => if fresh then { write := true, create := true, exclusive := true } else .truncating

def openFile (mode : FileMode) (path : Bytes) : Sh Nat := do
  let creating := mode ≠ .read
  let refuse (e : Errno) : Sh Nat :=
    fail (Bytes.ofString (if creating then "cannot create " else "cannot open ") ++ path ++
      Bytes.ofString s!": {openText creating e}")
  let mut fresh := false
  if mode = .write then
    if ← hasOption 'C' then
      match ← call (.stat path true) with
      | .ok info => if info.kind = .file then return ← refuse .EEXIST
      | .error _ => fresh := true
  match ← call (.open path (openMode mode fresh) 0o666) with
  | .ok fd => return fd
  | .error e => refuse e

def putAside (fd : Nat) : Sh Unit := do
  let known := ((← get).aside.headD []).any (·.1 = fd)
  unless known do
    let kept ← match ← call (.copyAbove fd 10) with
      | .ok copy =>
        let _ ← call (.close fd)
        pure (some copy)
      | .error .EBADF => pure none
      | .error e =>
        let _ ← call (.close fd)
        fail (Bytes.ofString s!"{fd}: {e.reason}")
    modify fun s =>
      { s with aside := match s.aside with
        | frame :: rest => ((fd, kept) :: frame) :: rest
        | [] => [] }

/-- Makes one redirection; `keep` puts aside what it replaces. -/
def redirect (run : Run) (keep : Bool) (o : Opening) : Sh Unit := do
  let place (fd opened : Nat) : Sh Unit := do
    unless fd = opened do
      if keep then putAside fd
      match ← call (.dup2 opened fd) with
      | .ok () =>
        let _ ← call (.close opened)
      | .error e =>
        let _ ← call (.close opened)
        fail (Bytes.ofString s!"{opened}: {e.reason}")
  match o with
  | .file fd mode path => place fd (← openFile mode path)
  | .text fd text => place fd (← openText_ run text)
  | .copy fd none =>
    if keep then putAside fd
    let _ ← call (.close fd)
  | .copy fd (some source) =>
    unless fd = source do
      if keep then putAside fd
      match ← call (.dup2 source fd) with
      | .ok () => pure ()
      | .error e => fail (Bytes.ofString s!"{source}: {e.reason}")

def restore (forget : Bool) : Sh Unit := do
  match (← get).aside with
  | [] => return
  | frame :: rest =>
    modify ({ · with aside := rest })
    for (fd, kept) in frame do
      match kept with
      | none =>
        unless forget do
          let _ ← call (.close fd)
      | some copy =>
        unless forget do
          let _ ← call (.dup2 copy fd)
        let _ ← call (.close copy)

/-- Makes redirections; whether that was possible. A fault in one is told and gives status 2. -/
def redirectAll (run : Run) (os : List Opening) : Sh Bool := do
  match ← outcome (os.forM (redirect run true)) with
  | .ok () => return true
  | .error .fault => return false
  | .error e => throw e

/-- Does `p` with redirections, which are undone afterwards; `failed` if one is not possible. -/
def withRedirs (run : Run) (os : List Opening) (failed p : Sh Unit) : Sh Unit := do
  modify fun s => { s with aside := [] :: s.aside }
  finally_ (do if ← redirectAll run os then p else failed) (restore false)

/-! ## Builtins that run commands -/

def plainBuiltins : Table String (List Bytes → Sh Nat) :=
  [("[", Decision.bracket), ("alias", Builtins.alias_), ("bg", Builtins.foreground),
   ("cd", Builtins.cd), ("chdir", Builtins.cd), ("echo", Builtins.echo),
   ("export", Builtins.export_), ("fg", Builtins.foreground), ("getopts", Builtins.getopts),
   ("hash", Builtins.hash), ("jobs", Builtins.jobs), ("kill", Builtins.kill),
   ("local", Builtins.local_), ("printf", Builtins.printf), ("pwd", Builtins.pwd),
   ("read", Builtins.read), ("readonly", Builtins.readonly), ("set", Builtins.set_),
   ("shift", Builtins.shift), ("test", Decision.test), ("times", Builtins.times),
   ("trap", Builtins.trap), ("type", Builtins.type_), ("ulimit", Builtins.ulimit),
   ("umask", Builtins.umask), ("unalias", Builtins.unalias), ("unset", Builtins.unset),
   ("wait", Builtins.wait), (":", fun _ => return 0), ("true", fun _ => return 0),
   ("false", fun _ => return 1)]

/-- Number of loops `break` and `continue` are about. -/
def loopCount (args : List Bytes) : Sh Nat := do
  match args.head? with
  | none => return min 1 (← get).loops
  | some s =>
    let n ← Builtins.count s
    if n = 0 then badNumber s
    return min n (← get).loops

def exit (args : List Bytes) : Sh Nat := do
  match args.head? with
  | some s => setStatus (← Builtins.count s)
  | none =>
    if let some n := (← get).before then setStatus n
  leave

def return_ (args : List Bytes) : Sh Nat := do
  match args.head? with
  | some s => setStatus (← Builtins.count s)
  | none =>
    if let some n := (← get).before then setStatus n
  throw .return_

/-- Reads a file for `.`: one without a slash is looked for. -/
def scriptPath (name : Bytes) : Sh Bytes := do
  if Bytes.slash ∈ name then return name
  let path := ((← valueOf "PATH").map (Finding.candidates · name)).getD []
  let rec search : List Bytes → Sh Bytes
    | [] => fail (about name "not found")
    | p :: rest => do
      match ← call (.stat p true) with
      | .ok info => if info.kind = .file then return p else search rest
      | .error _ => search rest
  search path

/-- Runs the commands of a file; `return` ends them. -/
def source (run : Run) (args : List Bytes) : Sh Nat := do
  let (_, args) ← Options.ofBuiltin "" args
  match args with
  | [] => return 0
  | name :: _ =>
    let path ← scriptPath name
    match ← call (.open path .reading 0) with
    | .error e => fail (Bytes.ofString "cannot open " ++ path ++ Bytes.ofString s!": {openText false e}")
    | .ok fd =>
      let text ← readAll fd
      let _ ← call (.close fd)
      modify fun s => { s with status := 0, builtin := some path }
      match ← outcome (runText run false text) with
      | .ok () => pure ()
      | .error .return_ => pure ()
      | .error e => throw e
      return (← get).status

/-- What `command` is asked for. -/
inductive Request where
  | run (path : Option Bytes) (args : List Bytes)
  | describe (words : Bool) (path : Option Bytes) (name : Bytes)

/-- Reads the arguments of `command`. -/
def request (args : List Bytes) : Sh Request := do
  let (options, args) ← Options.ofBuiltin "pvV" args
  let path := if options.any (·.1 = 'p') then some Finding.standardPath else none
  match options.find? (fun o => o.1 = 'v' || o.1 = 'V'), args with
  | some o, name :: _ => return .describe (o.1 = 'V') path name
  | _, args => return .run path args

/-- What a builtin does; the exit code. -/
def builtin (run : Run) (name : Bytes) (args : List Bytes) : Sh Nat := do
  let is (s : String) : Bool := name = Bytes.ofString s
  if is "eval" then
    runText run false (Bytes.join [0x20] args)
    return (← get).status
  else if is "." then source run args
  else if is "exit" then exit args
  else if is "return" then return_ args
  else if is "break" || is "continue" then
    let n ← loopCount args
    if n = 0 then return 0
    setStatus 0
    throw (if is "break" then .break_ n else .resume n)
  else if is "exec" then
    match args with
    | [] => return 0
    | name :: _ =>
      match ← if Bytes.slash ∈ name then pure (Found.program [name])
        else Finding.program (← valueOf "PATH") name with
      | .program paths => Finding.execute paths args
      | .missing e =>
        warn (about name (Finding.executeText e))
        setStatus (if e = .ENOENT then 127 else 126)
        leave
      | _ => leave
  else
    match plainBuiltins.find? (is ·.1) with
    | some (_, p) => p args
    | none => return 127

def runBuiltin (run : Run) (name : Bytes) (args : List Bytes) : Sh Unit := do
  let outer := (← get).builtin
  modify ({ · with builtin := some name })
  finally_ (do
    let code ← builtin run name args
    if ← flush then setStatus code
    else
      warn (about name "I/O error")
      setStatus (code ||| 1)) do
    modify ({ · with builtin := outer })

/-! ## Simple commands -/

/-- Writes a command with its values before it is run, if that is asked for. -/
def trace (assigns : List (Bytes × Bytes)) (words : List Bytes) : Sh Unit := do
  if ← hasOption 'x' then
    let mark := (← valueOf "PS4").getD []
    let all := assigns.map (fun (n, v) => Variables.binding n v) ++ words
    let _ ← writeAll 2 (mark ++ Bytes.join [0x20] all ++ [Bytes.newline])

def callFunction (run : Run) (f : Standing) (body : Cmd) (args : List Bytes) : Sh Unit := do
  let s ← get
  set { s with params := args, loops := 0, depth := s.depth + 1, optionIndex := 1, optionOffset := 0 }
  let r ← outcome (run f.inner body)
  modify fun t =>
    { t with
      params := s.params, loops := s.loops, depth := s.depth, optionIndex := s.optionIndex
      optionOffset := s.optionOffset }
  match r with
  | .ok () => return
  | .error .return_ => return
  | .error e => throw e

/-- A simple command whose words are known. -/
structure Ready where
  words : List Bytes
  /-- What it stands for, as far as that matters before its redirections; none for no words. -/
  kind : Option Found
  /-- `command` stood in front; the directories it looks in. -/
  viaCommand : Bool := false
  path : Option Bytes := none
  /-- To be described instead of run. -/
  described : Option (Bool × Bytes) := none
  /-- The first builtin is a special one. -/
  special : Bool := false

def firstFields (run : Run) : List Word → Sh (List Bytes × List Word)
  | [] => return ([], [])
  | w :: rest => do
    match ← Expansion.fields (substitute run) w with
    | [] => firstFields run rest
    | fs => return (fs, rest)

/-- The fields of an argument. An assignment that a builtin takes is one field. -/
def argument (run : Run) (assigning : Bool) (w : Word) : Sh (List Bytes) := do
  match assigning, w.assignment? with
  | true, some (name, value) =>
    return [Variables.binding name (← Expansion.value (substitute run) value)]
  | _, _ => Expansion.fields (substitute run) w

def ready (run : Run) (words : List Word) : Sh Ready := do
  let (first, rest) ← firstFields run words
  match first with
  | [] => return { words := [], kind := none }
  | name :: _ =>
    let kind ← Finding.find name true (← valueOf "PATH")
    let assigning := match kind with
      | .builtin b => Finding.takesAssignments b
      | _ => false
    let more ← rest.mapM (argument run assigning)
    let all := first ++ more.flatten
    match kind with
    | .builtin b =>
      if b = Bytes.ofString "command" then
        modify ({ · with builtin := some b })
        let r ← request all.tail
        modify ({ · with builtin := none })
        match r with
        | .describe long path name =>
          return { words := all, kind := some kind, path, described := some (long, name) }
        | .run _ [] => return { words := all, kind := some kind, described := none }
        | .run path (name :: args) =>
          return { words := name :: args, viaCommand := true, path
                   kind := some (← Finding.find name false (← match path with
                     | some p => pure (some p)
                     | none => valueOf "PATH")) }
      else return { words := all, kind := some kind, special := Finding.isSpecial b }
    | kind => return { words := all, kind := some kind }

/-- Assigns the values in front of a command, hidden again after it if `hidden`. -/
def assignAll (run : Run) (hidden : Bool) (mark : Bool) (assigns : List (Bytes × Word)) :
    Sh (List (Bytes × Bytes)) :=
  assigns.mapM fun (name, w) => do
    let v ← Expansion.value (substitute run) w
    if hidden then hide name
    assign name v
    if hidden || mark then modify fun s => { s with vars := s.vars.mark name true false }
    return (name, v)

def runProgram (run : Run) (f : Standing) (r : Ready) : Sh Unit := do
  let name := r.words.headD []
  let paths ← if Bytes.slash ∈ name then pure (Found.program [name])
    else Finding.program (← match r.path with
      | some p => pure (some p)
      | none => valueOf "PATH") name
  match paths with
  | .missing e =>
    warn (about name (Finding.executeText e))
    setStatus 127
  | .program paths =>
    if f.last && (← get).traps.all (·.2.isEmpty) then Finding.execute paths r.words
    else
      let pid ← spawnChild run (Finding.execute paths r.words)
      setStatus (← waitForeground [pid])
  | _ => return

/-- Runs a command whose words are known, its redirections made. -/
def perform (run : Run) (f : Standing) (r : Ready) : Sh Unit := do
  match r.kind with
  | none => setStatus (← get).substituted
  | some (.function _ body) => callFunction run f body (r.words.drop 1)
  | some (.builtin name) =>
    let go : Sh Unit :=
      match r.described with
      | some (long, target) => do
        let path ← match r.path with
          | some p => pure (some p)
          | none => valueOf "PATH"
        let code ← Finding.describe long path target
        if ← flush then setStatus code else setStatus 1
      | none =>
        if name = Bytes.ofString "command" then setStatus 0
        else runBuiltin run name (r.words.drop 1)
    match ← outcome go with
    | .ok () => return
    | .error .fault =>
      if r.special then throw .fault
      modify ({ · with status := 2, output := [] })
    | .error e => throw e
  | some _ => runProgram run f r

def simple (run : Run) (f : Standing) (line : Nat) (assigns : List (Bytes × Word))
    (words : List Word) (redirs : List Redir) : Sh Unit := do
  modify ({ · with line, substituted := 0 })
  let r ← ready run words
  let os ← redirs.mapM (expandRedir run)
  let executes := r.words.length > 1 && r.words.head? = some (Bytes.ofString "exec")
  let keepsRedirs := r.words.head? = some (Bytes.ofString "exec")
  let hidden := r.kind.isSome && !r.special
  let body : Sh Unit := do
    modify fun s => { s with aside := [] :: s.aside }
    let isExec := match r.kind with
      | some (.builtin b) => keepsRedirs && b = Bytes.ofString "exec"
      | _ => false
    finally_ (do
      if ← redirectAll run os then
        let values ← assignAll run hidden executes assigns
        trace values r.words
        perform run f r
      else
        setStatus 2
        if r.special then throw .fault) (restore isExec)
  if hidden then withHidden body else body

/-! ## Compound commands -/

/-- Runs the body of a loop; whether the loop is over. -/
def turn (body : Sh Unit) : Sh Bool := do
  match ← outcome body with
  | .ok () => return false
  | .error (.break_ 1) => return true
  | .error (.break_ (n + 1)) => throw (.break_ n)
  | .error (.resume 1) => return false
  | .error (.resume (n + 1)) => throw (.resume n)
  | .error e => throw e

/-- Does `p` inside a loop. -/
def inLoop (p : Sh Unit) : Sh Unit := do
  modify fun s => { s with loops := s.loops + 1 }
  finally_ p (modify fun s => { s with loops := s.loops - 1 })

def whileLoop (run : Run) (f : Standing) (negated : Bool) (test body : Cmd) : Sh Unit := inLoop do
  let code ← iterate 0 fun code => do
    let ended ← turn (run { tested := true } test)
    if ended then return .inr 0
    if ((← get).status = 0) = negated then return .inr code
    if ← turn (run f.inner body) then return .inr (← get).status
    return .inl (← get).status
  setStatus code

def forLoop (run : Run) (f : Standing) (name : Bytes) (values : List Bytes) (body : Cmd) : Sh Unit :=
  inLoop do
    let code ← iterate (values, 0) fun (values, code) => do
      match values with
      | [] => return .inr code
      | v :: rest =>
        assign name v
        if ← turn (run f.inner body) then return .inr (← get).status
        return .inl (rest, (← get).status)
    setStatus code

def chosen (run : Run) (subject : Bytes) : List (List Word × Cmd) → Sh (Option Cmd)
  | [] => return none
  | (patterns, body) :: rest => do
    let rec matches_ : List Word → Sh Bool
      | [] => return false
      | p :: more => do
        if Pattern.isMatch (← Expansion.pattern (substitute run) p) subject then return true
        else matches_ more
    if ← matches_ patterns then return some body else chosen run subject rest

/-- Starts the processes of a pipeline, `input` being the read end of the pipe before; their
numbers. -/
def startStages (run : Run) (f : Standing) (background : Bool) (input : Option Nat) :
    List Cmd → List Pid → Sh (List Pid)
  | [], pids => return pids.reverse
  | c :: rest, pids => do
    let ends ← if rest.isEmpty then pure none else do pure (some (← pipe))
    let pid ← spawnChild run do
      if background then becomeBackground pids.isEmpty
      if let some (r, _) := ends then
        let _ ← call (.close r)
      if let some fd := input then move fd 0
      if let some (_, w) := ends then move w 1
      run { f with last := true } c
    if let some fd := input then
      let _ ← call (.close fd)
    if let some (_, w) := ends then
      let _ ← call (.close w)
    startStages run f background (ends.map (·.1)) rest (pid :: pids)

def inSubshell (run : Run) (f : Standing) (background : Bool) (c : Cmd) (redirs : List Redir) :
    Sh Unit := do
  let os ← redirs.mapM (expandRedir run)
  let body (f : Standing) : Sh Unit := do
    os.forM (redirect run false)
    run { f with last := true } c
  if !background && f.last && (← get).traps.all (·.2.isEmpty) then
    body f
    leave
  let pid ← spawnChild run do
    if background then becomeBackground true
    body { f with tested := f.tested && !background }
  if background then
    addJob [pid]
    setStatus 0
  else setStatus (← waitForeground [pid])

/-- Whether a failure of a command itself may end the interpreter. -/
def isChecked : Cmd → Bool
  | .simple .. => true
  | .pipeline .. => true
  | .background .. => true
  | .subshell .. => true
  | _ => false

def act (run : Run) (f : Standing) (c : Cmd) : Sh Unit := do
  match c with
  | .nothing => return
  | .simple line assigns words redirs => simple run f line assigns words redirs
  | .not c =>
    run { tested := true } c
    modify fun s => { s with status := if s.status = 0 then 1 else 0 }
  | .and a b =>
    run { tested := true } a
    if (← get).status = 0 then run f b
  | .or a b =>
    run { tested := true } a
    if (← get).status ≠ 0 then run f b
  | .seq a b =>
    run f.inner a
    run f b
  | .pipeline cs background =>
    let pids ← startStages run f background none cs []
    if background then
      addJob pids
      setStatus 0
    else setStatus (← waitForeground pids)
  | .background line c redirs =>
    modify ({ · with line })
    inSubshell run f true c redirs
  | .subshell line c redirs =>
    modify ({ · with line })
    inSubshell run f false c redirs
  | .redirected line c redirs =>
    modify ({ · with line })
    let os ← redirs.mapM (expandRedir run)
    let failed : Sh Unit := do
      setStatus 2
      if !f.tested && (← hasOption 'e') then leave
    withRedirs run os failed (run f.inner c)
  | .cond test yes no =>
    run { tested := true } test
    if (← get).status = 0 then run f yes
    else match no with
      | .nothing => setStatus 0
      | no => run f no
  | .loop negated test body => whileLoop run f negated test body
  | .each line name words body =>
    modify ({ · with line })
    let values := (← words.mapM (Expansion.fields (substitute run))).flatten
    forLoop run f name values body
  | .choice line subject branches =>
    modify ({ · with line })
    let s ← Expansion.text (substitute run) subject
    match ← chosen run s branches with
    | none => setStatus 0
    | some .nothing => setStatus 0
    | some body => run f body
  | .define name line body =>
    modify fun s => { s with functions := s.functions.set name (line, body), status := 0 }

def step (run : Run) (f : Standing) (c : Cmd) : Sh Unit := do
  if ← hasOption 'n' then return
  match c with
  | .nothing => if f.last then leave
  | c =>
    runTraps run
    act run f c
    if isChecked c && !f.tested && (← hasOption 'e') && (← get).status ≠ 0 then leave
    runTraps run
    if f.last then leave

/-- Runs a command; commands are at most `n` deep in one another. -/
def runWithin : Nat → Run
  | 0, _, _ => leave
  | n + 1, f, c => step (fun f c => runWithin n f c) f c

def run : Run := runWithin (Nat.pow 2 60)

end Evaluation

end JobShell.Scripting
