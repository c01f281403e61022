import JobShell.Scratch.Installation
import JobShell.System.NameCalls
import JobShell.Interp.SignalControl

/-!
# Scratch directories

A run of the interpreter takes place in a fresh directory, the root of the scratch files, inside
another fresh directory. `Setup` says what the directory holds at the start and how the processes
are set up; `changes` lists what it holds at the end and did not hold before.
-/

namespace JobShell

inductive ScratchItem where
  | file (path text : Bytes) (mode : Nat)
  | directory (path : Bytes) (mode : Nat)
  | link (path target : Bytes)
  deriving Repr

namespace ScratchItem

def path : ScratchItem → Bytes
  | file p _ _ | directory p _ | link p _ => p

end ScratchItem

inductive OutputKind where
  /-- A file that is appended to. -/
  | captured
  /-- A device that is full. -/
  | full
  /-- A pipe that nobody reads. -/
  | broken
  deriving DecidableEq, Repr

structure Setup where
  items : List ScratchItem := []
  umask : Nat := 0o022
  /-- Changes of the environment: a value, or none to take the variable away. -/
  settings : List (String × Option Bytes) := []
  stdin : Bytes := []
  output : OutputKind := .captured

namespace Scratch

/-- The directory that holds the root of the scratch files. -/
def base : Bytes := Bytes.ofString "/tmp/scratch"

def root : Bytes := base ++ Bytes.ofString "/root"

/-- What stands for the root in texts. -/
def rootMark : Bytes := Bytes.ofString "$ROOT"

/-- What stands for the directory around the root in answers. -/
def baseMark : Bytes := Bytes.ofString "$BASE"

def fill (s : Bytes) : Bytes := Bytes.replace rootMark root s

/-- A text with the marks put in for the root and the directory around it. -/
def conceal (s : Bytes) : Bytes := Bytes.replace base baseMark (Bytes.replace root rootMark s)

/-- The user of the processes. -/
def user : User := 1000

/-- What is seen from a directory when the files are set up. -/
def viewOf (tree : FileTree) (dir : Ino) : View :=
  { tree, user := 0, here := .inode dir, shown := fun _ => none, inodeOf := fun _ => none }

/-- The directory that names lead to from `dir`; missing ones are made. -/
def enter (tree : FileTree) (dir : Ino) : List Bytes → Ino × FileTree
  | [] => (dir, tree)
  | name :: rest =>
    match (viewOf tree dir).findBytes name with
    | .ok (.inode i) => enter tree i rest
    | _ =>
      let (i, tree) := tree.createDirectory dir name 0o755 user
      enter tree i rest

/-- Makes an item below `dir`. -/
def make (dir : Ino) (tree : FileTree) (item : ScratchItem) : FileTree :=
  let names := (Path.parse item.path).names
  let (parent, tree) := enter tree dir names.dropLast
  let name := names.getLast?.getD []
  match item with
  | .file _ text mode =>
    match (viewOf tree parent).findBytes name with
    | .ok (.inode i) => tree.modify i fun n => { n with node := .file text, mode }
    | _ => (tree.create parent name { node := .file text, mode, owner := user }).2
  | .directory _ mode =>
    let (i, tree) := enter tree parent [name]
    tree.modify i fun n => { n with mode }
  | .link _ target => (tree.create parent name { node := .link target, mode := 0o777, owner := user }).2

/-- The files before a run, and the root of the scratch files. -/
def treeOf (programs : List String) (items : List ScratchItem) : Ino × FileTree :=
  let (root, tree) := enter (Installation.tree programs) FileTree.root (Path.parse root).names
  (root, items.foldl (make root) tree)

def environment (settings : List (String × Option Bytes)) : List Bytes :=
  let start : Table String Bytes :=
    [("PATH", Bytes.ofString "/usr/bin:/bin"), ("LC_ALL", Bytes.ofString "C")]
  let env := settings.foldl (fun (env : Table String Bytes) (name, value) => match value with
    | some v => Table.set env name (fill v)
    | none => Table.erase env name) start
  env.map fun (name, value) => Bytes.ofString (name ++ "=") ++ value

inductive Remnant where
  | file (path : Bytes) (mode : Nat) (text : Bytes)
  | directory (path : Bytes) (mode : Nat)
  | link (path : Bytes)
  deriving Repr

def Remnant.path : Remnant → Bytes
  | file p _ _ | directory p _ | link p => p

/-- What stands below a directory, found `fuel` directories deep; `path` is the directory's. -/
def walk (tree : FileTree) : Nat → Bytes → Ino → List Remnant
  | 0, _, _ => []
  | fuel + 1, path, dir =>
    (tree.entries dir).flatMap fun (name, i) =>
      let path := if path.isEmpty then name else path ++ Bytes.slash :: name
      match tree.get? i with
      | some { node := .file text, mode, .. } => [.file path mode text]
      | some { node := .directory .., mode, .. } => .directory path mode :: walk tree fuel path i
      | some { node := .link _, .. } => [.link path]
      | _ => []

/-- A path that came with the items, as a directory: an item's own, or one above an item. -/
def isGivenDirectory (items : List ScratchItem) (path : Bytes) : Bool :=
  items.any fun item =>
    let names := (Path.parse item.path).names
    let below := match item with
      | .directory .. => names
      | _ => names.dropLast
    (Path.parse path).names.isPrefixOf below

def isGiven (items : List ScratchItem) : Remnant → Bool
  | .file path _ text => items.any fun
    | .file p t _ => (Path.parse p).names = (Path.parse path).names && t = text
    | _ => false
  | .directory path _ => isGivenDirectory items path
  | .link path => items.any fun
    | .link p _ => (Path.parse p).names = (Path.parse path).names
    | _ => false

/-- What is below the root at the end of a run and did not come with the items, in the order of
paths. -/
def changes (items : List ScratchItem) (tree : FileTree) (root : Ino) : List Remnant :=
  let found := (walk tree tree.next [] root).filter (!isGiven items ·)
  found.mergeSort fun a b => Bytes.compare a.path b.path != .gt

end Scratch

end JobShell
