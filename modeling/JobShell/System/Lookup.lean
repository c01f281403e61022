import JobShell.System.FileTree

/-!
# Looking up paths

`walk` goes along all names of a path but the last. `locate` stops there; `find` goes on to the last
name. Both follow the symbolic links on the way and refuse the one after the fortieth. The directory
of processes is no part of the tree of files: what stands below it is given by `View.shown`.
-/

namespace JobShell

/-- Where a lookup leads. -/
inductive Place where
  | inode (i : Ino)
  /-- A place below the directory of processes. -/
  | shown (names : List Bytes)
  /-- What an open file, named by its number, refers to. -/
  | opened (file : Nat)
  deriving DecidableEq, Repr

/-- What stands at a place below the directory of processes. -/
inductive Shown where
  | directory (names : List Bytes)
  | text (content : Bytes)
  | link (target : Bytes)
  /-- A link to an open file. -/
  | opened (file : Nat)
  deriving Repr

/-- What a process sees when it looks up a path. -/
structure View where
  tree : FileTree
  user : User
  /-- The directory of the process. -/
  here : Place
  shown : List Bytes → Option Shown
  /-- The inode an open file refers to. -/
  inodeOf : Nat → Option Ino

/-- The last name of a path. -/
inductive LastName where
  /-- The path is the root directory. -/
  | root
  | dot
  | dotdot
  | name (n : Bytes)
  deriving DecidableEq, Repr

/-- A path walked up to its last name. -/
structure Located where
  dir : Place
  last : LastName
  trailing : Bool

/-- Where a path leads, or the name that is missing. -/
inductive Found where
  | place (p : Place)
  | missing (dir : Ino) (name : Bytes)
  deriving Repr

namespace View

variable (v : View)

def isDirectory : Place → Bool
  | .inode i => v.tree.isDirectory i
  | .shown names => match v.shown names with
    | some (.directory _) => true
    | _ => false
  | .opened f => match v.inodeOf f with
    | some i => v.tree.isDirectory i
    | none => false

/-- Whether the user may do what `want` asks for. -/
def allows (p : Place) (want : Nat) : Bool :=
  let inode? := match p with
    | .inode i => v.tree.get? i
    | .opened f => (v.inodeOf f).bind v.tree.get?
    | .shown _ => none
  match inode? with
  | some inode => FileTree.allows inode v.user want
  | none => true

def above : Place → Place
  | .inode i => .inode (v.tree.parent i)
  | .shown [] => .inode FileTree.root
  | .shown [_] =>
    match v.tree.lookup FileTree.root (Bytes.ofString "proc") with
    | some i => .inode i
    | none => .inode FileTree.root
  | .shown names => .shown names.dropLast
  | .opened f => match v.inodeOf f with
    | some i => .inode (v.tree.parent i)
    | none => .inode FileTree.root

/-- What a name in a directory leads to, without following it. -/
def child (dir : Place) (name : Bytes) : Option Place :=
  let dir := match dir with
    | .opened f => ((v.inodeOf f).map Place.inode).getD dir
    | _ => dir
  match dir with
  | .inode i =>
    if v.tree.node? i = some .processes then (v.shown [name]).map fun _ => .shown [name]
    else (v.tree.lookup i name).map .inode
  | .shown names => (v.shown (names ++ [name])).map fun _ => .shown (names ++ [name])
  | .opened _ => none

/-- What a place that is a link leads to: a path, or an open file. -/
def linkAt (p : Place) : Option (Bytes ⊕ Nat) :=
  match p with
  | .inode i => match v.tree.node? i with
    | some (.link target) => some (.inl target)
    | _ => none
  | .shown names => match v.shown names with
    | some (.link target) => some (.inl target)
    | some (.opened f) => some (.inr f)
    | _ => none
  | .opened _ => none

def start (p : Path) (dir : Place) : Place := if p.absolute then .inode FileTree.root else dir

/-- A directory whose names may be looked up. -/
def searchable (dir : Place) : Except Errno Unit :=
  if !v.isDirectory dir then .error .ENOTDIR
  else if !v.allows dir 1 then .error .EACCES
  else .ok ()

/-- Goes along `names` from `dir`, to `stop` at the last of them. Where there is a link, `jump` goes on
with the names of its path and those that are left. -/
def walk {α : Type} (jump : Place → List Bytes → Except Errno α)
    (stop : Place → LastName → Except Errno α) (dir : Place) : List Bytes → Except Errno α
  | [] => stop dir .root
  | [name] =>
    match v.searchable dir with
    | .error e => .error e
    | .ok () =>
      stop dir (if name = Path.dot then .dot else if name = Path.dotdot then .dotdot else .name name)
  | name :: next :: rest =>
    match v.searchable dir with
    | .error e => .error e
    | .ok () =>
      if name = Path.dot then walk jump stop dir (next :: rest)
      else if name = Path.dotdot then walk jump stop (v.above dir) (next :: rest)
      else if name.length > Path.maxName then .error .ENAMETOOLONG
      else match v.child dir name with
        | none => .error .ENOENT
        | some p =>
          match v.linkAt p with
          | none => walk jump stop p (next :: rest)
          | some (.inr f) => walk jump stop (.opened f) (next :: rest)
          | some (.inl target) =>
            let path := Path.parse target
            jump (start path dir) (path.names ++ next :: rest)

/-- The directory with the last of `names`, from `dir`; at most `left` links are followed. -/
def locate (trailing : Bool) : (left : Nat) → (dir : Place) → (names : List Bytes) →
    Except Errno Located
  | 0 => v.walk (fun _ _ => .error .ELOOP) fun dir last => .ok { dir, last, trailing }
  | left + 1 => v.walk (locate trailing left) fun dir last => .ok { dir, last, trailing }

/-- What the last name of a path leads to. It is followed by `jump` if it is a link and `follow` says
so or a slash stands behind it. With `creating` a missing name is an answer, and a name with a slash
behind it is refused. -/
def arrive (follow creating trailing : Bool)
    (jump : Place → List Bytes → Bool → Except Errno Found) (dir : Place) :
    LastName → Except Errno Found
  | .root => .ok (.place dir)
  | .dot => .ok (.place dir)
  | .dotdot => .ok (.place (v.above dir))
  | .name n =>
    if creating && trailing then .error .EISDIR
    else if n.length > Path.maxName then .error .ENAMETOOLONG
    else match v.child dir n with
      | none =>
        match creating, dir with
        | true, .inode i => if v.tree.isRemoved i then .error .ENOENT else .ok (.missing i n)
        | _, _ => .error .ENOENT
      | some p =>
        match v.linkAt p with
        | none => if trailing && !v.isDirectory p then .error .ENOTDIR else .ok (.place p)
        | some (.inr f) => if follow then .ok (.place (.opened f)) else .ok (.place p)
        | some (.inl target) =>
          if !follow && !trailing then .ok (.place p)
          else
            let path := Path.parse target
            jump (start path dir) path.names (path.trailing || trailing)

/-- Where `names` lead from `dir`; at most `left` links are followed. -/
def findFrom (follow creating : Bool) : (left : Nat) → (dir : Place) → (names : List Bytes) →
    (trailing : Bool) → Except Errno Found
  | 0, dir, names, trailing =>
    v.walk (fun _ _ => .error .ELOOP)
      (v.arrive follow creating trailing fun _ _ _ => .error .ELOOP) dir names
  | left + 1, dir, names, trailing =>
    v.walk (fun dir names => findFrom follow creating left dir names trailing)
      (v.arrive follow creating trailing (findFrom follow creating left)) dir names

/-- Where a path leads from directory `dir`. -/
def find (dir : Place) (path : Path) (follow creating : Bool) : Except Errno Found :=
  v.findFrom follow creating Path.maxLinks (start path dir) path.names path.trailing

/-- Where a byte string leads as a path. -/
def findBytes (path : Bytes) (follow : Bool := true) : Except Errno Place := do
  match ← v.find v.here (← Path.ofBytes path) follow false with
  | .place p => .ok p
  | .missing _ _ => .error .ENOENT

/-- The directory and the last name of a byte string as a path. -/
def locateBytes (path : Bytes) : Except Errno Located := do
  let p ← Path.ofBytes path
  v.locate p.trailing Path.maxLinks (start p v.here) p.names

end View

end JobShell
