import Std.Data.TreeMap
import JobShell.Table
import JobShell.System.Path

/-!
# The tree of files

Inodes by number; a directory binds names to numbers and knows the directory above it. An inode
that no directory names any more keeps its content for those who have it open. `FileTree.allows`
is the permission check of a user; user 0 is allowed everything but to execute what nobody may.
-/

namespace JobShell

abbrev Ino := Nat

abbrev User := Nat

inductive Device where
  | null
  | zero
  | full
  deriving DecidableEq, Repr

inductive Node where
  | file (content : Bytes)
  | directory (parent : Ino) (entries : Table Bytes Ino)
  | link (target : Bytes)
  | device (d : Device)
  /-- The directory that shows the processes. -/
  | processes
  deriving DecidableEq, Repr

structure Inode where
  node : Node
  /-- Permission bits. -/
  mode : Nat
  owner : User
  /-- Number of names. -/
  links : Nat := 1
  /-- When the content was last changed. -/
  modified : Nat := 0
  deriving Repr

structure FileTree where
  inodes : Std.TreeMap Ino Inode
  next : Ino

namespace FileTree

def root : Ino := 1

/-- A tree with nothing but an empty root directory. -/
def empty : FileTree :=
  { inodes := (∅ : Std.TreeMap Ino Inode).insert root
      { node := .directory root [], mode := 0o755, owner := 0, links := 2 }
    next := root + 1 }

def get? (t : FileTree) (i : Ino) : Option Inode := t.inodes[i]?

def node? (t : FileTree) (i : Ino) : Option Node := (t.get? i).map (·.node)

def set (t : FileTree) (i : Ino) (inode : Inode) : FileTree :=
  { t with inodes := t.inodes.insert i inode }

def modify (t : FileTree) (i : Ino) (f : Inode → Inode) : FileTree :=
  match t.get? i with
  | some inode => t.set i (f inode)
  | none => t

def add (t : FileTree) (inode : Inode) : Ino × FileTree :=
  (t.next, { (t.set t.next inode) with next := t.next + 1 })

def isDirectory (t : FileTree) (i : Ino) : Bool :=
  match t.node? i with
  | some (.directory ..) => true
  | some .processes => true
  | _ => false

def entries (t : FileTree) (i : Ino) : Table Bytes Ino :=
  match t.node? i with
  | some (.directory _ es) => es
  | _ => []

/-- The directory above; the root directory is above itself. -/
def parent (t : FileTree) (i : Ino) : Ino :=
  match t.node? i with
  | some (.directory p _) => p
  | _ => root

def lookup (t : FileTree) (dir : Ino) (name : Bytes) : Option Ino := (t.entries dir).get? name

def isRemoved (t : FileTree) (i : Ino) : Bool :=
  match t.get? i with
  | some inode => inode.links = 0
  | none => true

def setEntries (t : FileTree) (dir : Ino) (es : Table Bytes Ino) (now : Nat) : FileTree :=
  t.modify dir fun d =>
    match d.node with
    | .directory p _ => { d with node := .directory p es, modified := now }
    | _ => d

def bind (t : FileTree) (dir : Ino) (name : Bytes) (i : Ino) (now : Nat := 0) : FileTree :=
  t.setEntries dir ((t.entries dir).set name i) now

def unbind (t : FileTree) (dir : Ino) (name : Bytes) (now : Nat := 0) : FileTree :=
  t.setEntries dir ((t.entries dir).erase name) now

def create (t : FileTree) (dir : Ino) (name : Bytes) (inode : Inode) (now : Nat := 0) :
    Ino × FileTree :=
  let (i, t) := t.add { inode with modified := now }
  (i, t.bind dir name i now)

def createDirectory (t : FileTree) (dir : Ino) (name : Bytes) (mode : Nat) (owner : User)
    (now : Nat := 0) : Ino × FileTree :=
  t.create dir name { node := .directory dir [], mode, owner, links := 2 } now

/-- Whether an inode lets a user do what the bits `want` ask for: 4 read, 2 write, 1 execute. -/
def allows (inode : Inode) (user : User) (want : Nat) : Bool :=
  if user = 0 then
    want &&& 1 = 0 || inode.mode &&& 0o111 ≠ 0 || (match inode.node with
      | .directory .. => true
      | .processes => true
      | _ => false)
  else
    let bits := if inode.owner = user then inode.mode >>> 6 else inode.mode
    want &&& bits = want

/-- The names from the root directory down to directory `i`, looked for `fuel` directories deep. -/
def namesOf (t : FileTree) : Nat → Ino → Option (List Bytes)
  | 0, _ => none
  | fuel + 1, i =>
    if i = root then some []
    else if t.isRemoved i then none
    else do
      let p := t.parent i
      let (name, _) ← (t.entries p).find? (·.2 = i)
      return (← namesOf t fuel p) ++ [name]

/-- The absolute path of a directory, if it has one. -/
def pathOf (t : FileTree) (i : Ino) : Option Bytes :=
  (t.namesOf t.next i).map fun names => Bytes.slash :: Bytes.join [Bytes.slash] names

/-- Whether directory `i` is `above` or lies below it. -/
def isBelow (t : FileTree) (above : Ino) : Nat → Ino → Bool
  | 0, _ => false
  | fuel + 1, i => i = above || (i ≠ root && isBelow t above fuel (t.parent i))

end FileTree

end JobShell
