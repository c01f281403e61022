import JobShell.Interp.ReadLoop
import JobShell.Scratch.Directory

/-!
# The interpreter in a scratch directory

`Scene.of` puts an interpreter into a fresh scratch directory: its standard streams are bound, and
a supervisor is its parent, which learns how it ends and may hold a pipe to its standard input.
-/

namespace JobShell

inductive InputKind where
  | file
  /-- A directory. -/
  | directory
  /-- A pipe whose write end the supervisor holds. -/
  | held
  deriving DecidableEq, Repr

structure Scene where
  machine : Machine
  /-- The root of the scratch files. -/
  root : Ino
  stdout : Ino
  stderr : Ino

namespace Scene

def supervisor : Pid := 4000

def interpreter : Pid := 4001

/-- A file without a name. -/
def unnamed (w : World) (content : Bytes) : Ino × World :=
  let (i, tree) := w.tree.add { node := .file content, mode := 0o600, owner := w.user }
  (i, { w with tree })

/-- An open file on a named file of the system. -/
def device (w : World) (path : String) : Object :=
  match (Scratch.viewOf w.tree FileTree.root).findBytes (Bytes.ofString path) with
  | .ok (.inode i) => .inode i
  | _ => .text []

/-- The open file for standard input, and the one the supervisor holds. -/
def openInput (w : World) (root : Ino) (kind : InputKind) (text : Bytes) :
    Nat × Option Nat × World :=
  match kind with
  | .file =>
    let (i, w) := unnamed w text
    let (file, w) := w.addFile { object := .inode i, readable := true }
    (file, none, w)
  | .directory =>
    let (file, w) := w.addFile { object := .inode root, readable := true }
    (file, none, w)
  | .held =>
    let pipe := w.nextPipe
    let (r, o, w) := w.addPipe
    (r, some o, { w with pipes := w.pipes.insert pipe text })

/-- The open file for standard output, on the file `out` if it is captured. -/
def openOutput (w : World) (out : Ino) : OutputKind → Nat × World
  | .captured => w.addFile { object := .inode out, writable := true, append := true }
  | .full => w.addFile { object := device w "/dev/full", writable := true }
  | .broken =>
    let (_, o, w) := w.addPipe
    (o, w)

def of (programs : Table String Installed) (setup : Setup) (input : InputKind) (handlers : Bool) :
    Scene :=
  let (root, tree) := Scratch.treeOf programs.keys setup.items
  let w : World :=
    { tree, user := Scratch.user, nextPid := interpreter + 1
      programs := fun name => (Utf8.decodeString name).bind programs.get? }
  let (stdout, w) := unnamed w []
  let (stderr, w) := unnamed w []
  let (f0, held, w) := openInput w root input setup.stdin
  let (f1, w) := openOutput w stdout setup.output
  let (f2, w) := w.addFile { object := .inode stderr, writable := true, append := true }
  let signals := if handlers then Signals.initial.install else Signals.initial
  let w := w.setProcess
    { pid := interpreter, parent := supervisor, group := supervisor, program := none
      name := Bytes.ofString "interpreter", descriptors := [(0, f0), (1, f1), (2, f2)]
      directory := .inode root, umask := setup.umask, signals
      farewell := if handlers then some Shell.farewell else none }
  let w := w.setProcess
    { pid := supervisor, parent := World.adopter, group := supervisor, program := none
      descriptors := held.toList.map (3, ·), directory := .inode root
      children := [{ pid := interpreter }] }
  let env := Scratch.environment setup.settings
  { machine :=
      { world := w, pid := interpreter, env
        shell := { home := Environment.get? env "HOME", signals } }
    root, stdout, stderr }

def contentOf (w : World) (i : Ino) : Bytes :=
  match w.tree.node? i with
  | some (.file content) => content
  | _ => []

def horizon : Nat := Nat.pow 10 9

end Scene

end JobShell
