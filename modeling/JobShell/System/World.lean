import JobShell.System.Call
import JobShell.System.Children
import JobShell.System.Descriptors
import JobShell.System.Lookup

/-!
# The state of the system

Files, open files, pipes and processes, and a clock in nanoseconds. An open file is shared by the
descriptors that were copied from one another, over forks too. The ends of a pipe are open files; a
pipe has a reader or a writer while a process has such an end open. A process that has ended stays
in its parent's table of children until it is collected.
-/

namespace JobShell

/-- What an open file refers to. -/
inductive Object where
  | inode (i : Ino)
  | readEnd (pipe : Nat)
  | writeEnd (pipe : Nat)
  /-- A text made when the file was opened. -/
  | text (content : Bytes)
  deriving Repr

structure OpenFile where
  object : Object
  offset : Nat := 0
  readable : Bool := false
  writable : Bool := false
  append : Bool := false
  deriving Repr

structure Process where
  pid : Pid
  parent : Pid
  group : Pid
  /-- What it still has to do; `none` for a process that is driven from outside. -/
  program : Option Act
  /-- The name of its program. -/
  name : Bytes := []
  /-- The file of its program, once it has executed one. -/
  image : Option Ino := none
  descriptors : Descriptors := []
  /-- Descriptors closed when another program is executed. -/
  closing : List Nat := []
  directory : Place
  umask : Nat := 0o022
  signals : Signals := {}
  /-- Handled signals that have arrived and not been taken. -/
  caught : List Nat := []
  /-- What a handled SIGINT makes the process write to its standard output before it ends with exit
  code 0; without it a handled signal is only noted. -/
  farewell : Option Bytes := none
  /-- A handled signal has arrived since the last call was completed. -/
  interrupted : Bool := false
  children : Children := []
  stopped : Bool := false
  /-- When its sleep is over. -/
  wake : Option Nat := none
  /-- Number of descriptors it may use. -/
  limit : Nat := 1024

structure Installed where
  image : Image
  /-- The library it loads first. -/
  library : Bytes := Bytes.ofString "libc.so.6"

structure World where
  tree : FileTree := FileTree.empty
  files : Std.TreeMap Nat OpenFile := ∅
  pipes : Std.TreeMap Nat Bytes := ∅
  processes : Std.TreeMap Pid Process := ∅
  nextFile : Nat := 1
  nextPipe : Nat := 1
  nextPid : Pid := 100
  clock : Nat := 0
  /-- The user all processes belong to. -/
  user : User := 1000
  /-- The programs that are installed, by name. -/
  programs : Bytes → Option Installed := fun _ => none

/-- What a process that has taken a SIGINT writes before it ends, if that is what it does. -/
def Process.farewell? (p : Process) : Option Bytes :=
  if Signal.interrupt ∈ p.caught then p.farewell else none

namespace World

variable (w : World)

def process? (pid : Pid) : Option Process := w.processes[pid]?

def setProcess (p : Process) : World := { w with processes := w.processes.insert p.pid p }

def modifyProcess (pid : Pid) (f : Process → Process) : World :=
  match w.process? pid with
  | some p => w.setProcess (f p)
  | none => w

def file? (id : Nat) : Option OpenFile := w.files[id]?

def setFile (id : Nat) (f : OpenFile) : World := { w with files := w.files.insert id f }

def addFile (f : OpenFile) : Nat × World :=
  (w.nextFile, { w with files := w.files.insert w.nextFile f, nextFile := w.nextFile + 1 })

/-- A new empty pipe: its read end and its write end. -/
def addPipe : Nat × Nat × World :=
  let pipe := w.nextPipe
  let w := { w with pipes := w.pipes.insert pipe [], nextPipe := pipe + 1 }
  let (r, w) := w.addFile { object := .readEnd pipe, readable := true }
  let (o, w) := w.addFile { object := .writeEnd pipe, writable := true }
  (r, o, w)

def pipeContent (pipe : Nat) : Bytes := (w.pipes[pipe]?).getD []

/-- Whether a process has an open file that satisfies `p`. -/
def isHeld (p : OpenFile → Bool) : Bool :=
  w.processes.any fun _ q => q.descriptors.any fun (_, id) => (w.file? id).any p

def hasReader (pipe : Nat) : Bool := w.isHeld fun f => match f.object with
  | .readEnd n => n = pipe
  | _ => false

def hasWriter (pipe : Nat) : Bool := w.isHeld fun f => match f.object with
  | .writeEnd n => n = pipe
  | _ => false

def isBeingWritten (i : Ino) : Bool := w.isHeld fun f => match f.object with
  | .inode n => n = i && f.writable
  | _ => false

def inodeOf (file : Nat) : Option Ino :=
  match w.file? file with
  | some { object := .inode i, .. } => some i
  | _ => none

/-- Whether a process runs the program in an inode. -/
def isBeingRun (i : Ino) : Bool := w.processes.any fun _ q => q.image = some i

/-- Signal `n` sent to a process. A stopped process goes on when it is told to, whatever it does
with that signal. -/
def raise (pid : Pid) (n : Nat) : World :=
  w.modifyProcess pid fun p =>
    { p with
      signals := p.signals.raise n
      stopped := p.stopped && n ≠ Signal.resume && n ≠ Signal.kill }

/-- The first process, which takes over the children of those that end. -/
def adopter : Pid := 1

/-- A process ends: its descriptors are closed, its children are taken over, and its parent is told,
unless the parent ignores such news and never collects it. -/
def finish (pid : Pid) (e : Ending) : World :=
  match w.process? pid with
  | none => w
  | some p =>
    let w := { w with processes := w.processes.erase pid }
    let w := p.children.foldl (fun w c =>
      w.modifyProcess c.pid fun q => { q with parent := adopter }) w
    let w := w.modifyProcess p.parent fun q =>
      if q.signals.disposition Signal.child = .ignored then
        { q with children := q.children.filter (·.pid ≠ pid) }
      else { q with children := q.children.finish pid e }
    w.raise p.parent Signal.child

/-- A new process, a copy of `p` that runs `program`. -/
def fork (p : Process) (program : Act) : Pid × World :=
  let pid := w.nextPid
  let child : Process :=
    { p with
      pid, parent := p.pid, program := some program, children := [], wake := none, caught := []
      interrupted := false, signals := p.signals.onFork }
  let w := { w with nextPid := pid + 1 }
  let w := w.setProcess child
  (pid, w.modifyProcess p.pid fun q => { q with children := q.children.add pid })

end World

end JobShell
