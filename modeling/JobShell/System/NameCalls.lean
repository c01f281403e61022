import JobShell.System.FileCalls

/-!
# Calls on names

Calls that look at files by name and that make, move and take away names.
-/

namespace JobShell

namespace World

variable (w : World) (p : Process)

def infoOf (i : Ino) : Except Errno FileInfo :=
  match w.tree.get? i with
  | none => .error .ENOENT
  | some n =>
    let kind := match n.node with
      | .file _ => FileKind.file
      | .directory .. => .directory
      | .processes => .directory
      | .link _ => .link
      | .device _ => .device
    let size := match n.node with
      | .file c => c.length
      | .link t => t.length
      | .directory .. => 4096
      | _ => 0
    let links := match n.node with
      | .directory _ es => 2 + (es.filter fun (_, j) => w.tree.isDirectory j).length
      | _ => n.links
    .ok { kind, size, links, mode := n.mode, ino := i, owner := n.owner, modified := n.modified }

def infoAt : Place → Except Errno FileInfo
  | .inode i => w.infoOf i
  | .opened file =>
    match w.file? file with
    | some { object := .inode i, .. } => w.infoOf i
    | some { object := .text c, .. } => .ok (other .file c.length)
    | some _ => .ok (other .pipe 0)
    | none => .error .ENOENT
  | .shown names =>
    match w.shown p.pid names with
    | some (.directory _) => .ok { other .directory 0 with mode := 0o555 }
    | some (.text _) => .ok (other .file 0)
    | some (.link t) => .ok { other .link t.length with mode := 0o777 }
    | some (.opened _) => .ok { other .link 64 with mode := 0o700 }
    | none => .error .ENOENT
where
  other (kind : FileKind) (size : Nat) : FileInfo :=
    { kind, size, mode := 0o444, ino := 0, links := 1, owner := w.user, modified := w.clock }

def stat (path : Bytes) (follow : Bool) : Except Errno FileInfo := do
  w.infoAt p (← (w.view p).findBytes path follow)

def fstat (fd : Nat) : Except Errno FileInfo :=
  match p.descriptors.get? fd with
  | some file => w.infoAt p (.opened file)
  | none => .error .EBADF

def access (path : Bytes) (want : Nat) : Except Errno Unit := do
  let place ← (w.view p).findBytes path
  if (w.view p).allows place want then .ok () else .error .EACCES

def list (path : Bytes) : Except Errno (List Bytes) := do
  let v := w.view p
  let place ← v.findBytes path
  if !v.isDirectory place then .error .ENOTDIR
  else if !v.allows place 4 then .error .EACCES
  else match place with
    | .inode i =>
      match w.tree.node? i with
      | some .processes => names (w.shown p.pid [])
      | _ => .ok (w.tree.entries i).keys
    | .shown ns => names (w.shown p.pid ns)
    | .opened f => match w.inodeOf f with
      | some i => .ok (w.tree.entries i).keys
      | none => .error .ENOTDIR
where
  names : Option Shown → Except Errno (List Bytes)
    | some (.directory ns) => .ok ns
    | _ => .error .ENOTDIR

def chdir (path : Bytes) : World × Except Errno Unit :=
  let v := w.view p
  match v.findBytes path with
  | .error e => (w, .error e)
  | .ok place =>
    match v.searchable place with
    | .error e => (w, .error e)
    | .ok () =>
      let directory := match place with
        | .opened f => ((w.inodeOf f).map Place.inode).getD place
        | _ => place
      (w.setProcess { p with directory }, .ok ())

def getcwd : Except Errno Bytes :=
  match p.directory with
  | .inode i =>
    match w.tree.pathOf i with
    | some path => .ok path
    | none => .error .ENOENT
  | .shown names => .ok (Bytes.ofString "/proc" ++ names.flatMap (Bytes.slash :: ·))
  | .opened _ => .error .ENOENT

/-- The directory and the name for a call that changes a directory. -/
def nameIn (path : Bytes) (onDots : Errno) : Except Errno (Ino × Bytes × Bool) := do
  let l ← (w.view p).locateBytes path
  match l.last, l.dir with
  | .name n, .inode i =>
    if n.length > Path.maxName then .error .ENAMETOOLONG else .ok (i, n, l.trailing)
  | .name _, _ => .error .EPERM
  | _, _ => .error onDots

/-- A directory in which names may be changed. -/
def changeable (dir : Ino) : Except Errno Unit :=
  if w.tree.isRemoved dir then .error .ENOENT
  else if (w.view p).allows (.inode dir) 3 then .ok () else .error .EACCES

def mkdir (path : Bytes) (bits : Nat) : Except Errno World := do
  let (dir, name, _) ← w.nameIn p path .EEXIST
  if (w.tree.lookup dir name).isSome then .error .EEXIST
  w.changeable p dir
  let mode := bits &&& 0o1777 &&& (0o7777 ^^^ p.umask)
  return { w with tree := (w.tree.createDirectory dir name mode w.user w.clock).2 }

def rmdir (path : Bytes) : Except Errno World := do
  let l ← (w.view p).locateBytes path
  if l.last = .dot then .error .EINVAL
  if l.last = .dotdot then .error .ENOTEMPTY
  let (dir, name, _) ← w.nameIn p path .EBUSY
  match w.tree.lookup dir name with
  | none => .error .ENOENT
  | some i =>
    w.changeable p dir
    match w.tree.node? i with
    | some (.directory _ []) =>
      let tree := (w.tree.unbind dir name w.clock).modify i fun n => { n with links := 0 }
      return { w with tree }
    | some (.directory ..) => .error .ENOTEMPTY
    | _ => .error .ENOTDIR

def unlink (path : Bytes) : Except Errno World := do
  let (dir, name, trailing) ← w.nameIn p path .EISDIR
  match w.tree.lookup dir name with
  | none => .error .ENOENT
  | some i =>
    if trailing && !w.tree.isDirectory i then .error .ENOTDIR
    w.changeable p dir
    if w.tree.isDirectory i then .error .EISDIR
    let tree := (w.tree.unbind dir name w.clock).modify i fun n => { n with links := n.links - 1 }
    return { w with tree }

/-- An inode loses a name that another one takes over. -/
def displace (tree : FileTree) (i : Ino) : FileTree :=
  tree.modify i fun n => { n with links := if tree.isDirectory i then 0 else n.links - 1 }

def rename (old new : Bytes) : Except Errno World := do
  let (dir, name, slash) ← w.nameIn p old .EBUSY
  let (dir', name', slash') ← w.nameIn p new .EBUSY
  match w.tree.lookup dir name with
  | none => .error .ENOENT
  | some i =>
    let isDir := w.tree.isDirectory i
    let target := w.tree.lookup dir' name'
    if !isDir && (slash || slash') then .error .ENOTDIR
    if isDir && w.tree.isBelow i w.tree.next dir' then .error .EINVAL
    w.changeable p dir
    w.changeable p dir'
    if target = some i then return w
    match target with
    | some j =>
      if w.tree.isDirectory j && !isDir then .error .EISDIR
      if isDir && !w.tree.isDirectory j then .error .ENOTDIR
      if !(w.tree.entries j).isEmpty then .error .ENOTEMPTY
    | none => pure ()
    let tree := match target with
      | some j => displace w.tree j
      | none => w.tree
    let tree := (tree.unbind dir name w.clock).bind dir' name' i w.clock
    let tree := tree.modify i fun n => match n.node with
      | .directory _ es => { n with node := .directory dir' es }
      | _ => n
    return { w with tree }

def link (old new : Bytes) : Except Errno World := do
  match ← (w.view p).findBytes old false with
  | .inode i =>
    if w.tree.isDirectory i then .error .EPERM
    let (dir, name, slash) ← w.nameIn p new .EEXIST
    if (w.tree.lookup dir name).isSome then .error .EEXIST
    if slash then .error .ENOENT
    w.changeable p dir
    let tree := (w.tree.bind dir name i w.clock).modify i fun n => { n with links := n.links + 1 }
    return { w with tree }
  | _ => .error .EXDEV

def symlink (target path : Bytes) : Except Errno World := do
  if target.isEmpty then .error .ENOENT
  let (dir, name, slash) ← w.nameIn p path .EEXIST
  if (w.tree.lookup dir name).isSome then .error .EEXIST
  if slash then .error .ENOENT
  w.changeable p dir
  let inode : Inode := { node := .link target, mode := 0o777, owner := w.user }
  return { w with tree := (w.tree.create dir name inode w.clock).2 }

def readlink (path : Bytes) : Except Errno Bytes := do
  let v := w.view p
  let place ← v.findBytes path false
  match v.linkAt place with
  | some (.inl target) => .ok target
  | some (.inr file) =>
    match w.file? file with
    | some { object := .inode i, .. } => .ok ((w.tree.pathOf i).getD (Bytes.ofString "/dev/null"))
    | some { object := .readEnd n, .. } => .ok (Bytes.ofString s!"pipe:[{n}]")
    | some { object := .writeEnd n, .. } => .ok (Bytes.ofString s!"pipe:[{n}]")
    | _ => .error .ENOENT
  | none => .error .EINVAL

/-- Changes an inode that belongs to the user. -/
def changeOwn (path : Bytes) (f : Inode → Inode) : Except Errno World := do
  let i ← match ← (w.view p).findBytes path with
    | .inode i => .ok i
    | .opened file => (w.inodeOf file).elim (.error .EPERM) .ok
    | _ => .error .EPERM
  match w.tree.get? i with
  | some inode =>
    if inode.owner = w.user || w.user = 0 then return { w with tree := w.tree.set i (f inode) }
    else .error .EPERM
  | none => .error .ENOENT

def chmod (path : Bytes) (bits : Nat) : Except Errno World :=
  w.changeOwn p path fun n => { n with mode := bits }

def touch (path : Bytes) (time : Option Nat) : Except Errno World :=
  w.changeOwn p path fun n => { n with modified := time.getD w.clock }

end World

/-- The world after a call that changes it or fails. -/
def Outcome.ofChange (w : World) : Except Errno World → Outcome (Except Errno Unit)
  | .ok w' => .done w' (.ok ())
  | .error e => .done w (.error e)

end JobShell
