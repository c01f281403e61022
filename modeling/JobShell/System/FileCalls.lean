import JobShell.System.Shown

/-!
# Calls on open files

Opening, reading, writing and moving in files, and the descriptors that name them. A read of an
empty pipe waits while the pipe has a writer; a write to a pipe without a reader raises SIGPIPE. An
append always goes to the end of the file; a write beyond the end fills the gap with zeros.
-/

namespace JobShell

/-- What comes of a call. -/
inductive Outcome (α : Type) where
  | done (w : World) (a : α)
  /-- The call has to be made again. -/
  | wait (w : World)
  /-- The process runs another program. -/
  | become (w : World)

namespace Outcome

def of {α : Type} (r : World × α) : Outcome α := .done r.1 r.2

end Outcome

/-- `content` with `text` written at `offset`. -/
def overwrite (content : Bytes) (offset : Nat) (text : Bytes) : Bytes :=
  content.take offset ++ Bytes.fill 0 (offset - content.length) ++ text ++
    content.drop (offset + text.length)

namespace World

variable (w : World) (p : Process)

/-- The open file behind a descriptor. -/
def openFile? (fd : Nat) : Option (Nat × OpenFile) := do
  let id ← p.descriptors.get? fd
  return (id, ← w.file? id)

def install (f : OpenFile) : World × Except Errno Nat :=
  if p.descriptors.free ≥ p.limit then (w, .error .EMFILE)
  else
    let (id, w) := w.addFile f
    let (fd, descriptors) := p.descriptors.insert id
    (w.setProcess { p with descriptors }, .ok fd)

/-- The bits of the permission check for a way of opening. -/
def wanted (mode : OpenMode) : Nat := (if mode.read then 4 else 0) + if mode.write then 2 else 0

/-- An open file on an object. -/
def fileOn (object : Object) (mode : OpenMode) : OpenFile :=
  { object, readable := mode.read, writable := mode.write, append := mode.append }

def openInode (i : Ino) (mode : OpenMode) : World × Except Errno Nat :=
  match w.tree.get? i with
  | none => (w, .error .ENOENT)
  | some inode =>
    if mode.exclusive then (w, .error .EEXIST)
    else if w.tree.isDirectory i && (mode.write || mode.create) then (w, .error .EISDIR)
    else if !FileTree.allows inode w.user (wanted mode) then (w, .error .EACCES)
    else if mode.write && w.isBeingRun i then (w, .error .ETXTBSY)
    else
      let w := match inode.node with
        | .file _ =>
          if mode.truncate && mode.write then
            { w with tree := w.tree.set i { inode with node := .file [], modified := w.clock } }
          else w
        | _ => w
      w.install p (fileOn (.inode i) mode)

def openNew (dir : Ino) (name : Bytes) (mode : OpenMode) (bits : Nat) : World × Except Errno Nat :=
  if !(w.view p).allows (.inode dir) 3 then (w, .error .EACCES)
  else
    let inode : Inode :=
      { node := .file [], mode := bits &&& (0o7777 ^^^ p.umask), owner := w.user }
    let (i, tree) := w.tree.create dir name inode w.clock
    { w with tree }.install p (fileOn (.inode i) mode)

/-- Opens what an open file refers to once more. -/
def openAgain (file : Nat) (mode : OpenMode) : World × Except Errno Nat :=
  match w.file? file with
  | none => (w, .error .ENOENT)
  | some f =>
    match f.object with
    | .inode i => w.openInode p i mode
    | .readEnd n | .writeEnd n =>
      w.install p (fileOn (if mode.write then .writeEnd n else .readEnd n) mode)
    | .text content => w.install p (fileOn (.text content) mode)

def open_ (path : Bytes) (mode : OpenMode) (bits : Nat) : World × Except Errno Nat :=
  match Path.ofBytes path with
  | .error e => (w, .error e)
  | .ok parsed =>
    if p.descriptors.free ≥ p.limit then (w, .error .EMFILE)
    else
      let v := w.view p
      match v.find v.here parsed (!mode.exclusive) mode.create with
      | .error e => (w, .error e)
      | .ok (.missing dir name) => w.openNew p dir name mode bits
      | .ok (.place (.inode i)) => w.openInode p i mode
      | .ok (.place (.opened file)) => w.openAgain p file mode
      | .ok (.place (.shown names)) =>
        if mode.write then (w, .error .EACCES)
        else match w.shown p.pid names with
          | some (.text content) => w.install p (fileOn (.text content) mode)
          | some (.directory _) => w.install p (fileOn (.inode FileTree.root) mode)
          | _ => (w, .error .ENOENT)

def close (fd : Nat) : World × Except Errno Unit :=
  if (p.descriptors.get? fd).isSome then
    (w.setProcess { p with
      descriptors := p.descriptors.erase fd, closing := p.closing.filter (· ≠ fd) }, .ok ())
  else (w, .error .EBADF)

/-- Bytes a pipe holds at most. -/
def pipeSize : Nat := 65536

def read (fd count : Nat) : Outcome (Except Errno Bytes) :=
  match w.openFile? p fd with
  | none => .done w (.error .EBADF)
  | some (id, f) =>
    if !f.readable then .done w (.error .EBADF)
    else
      let fromText (content : Bytes) : Outcome (Except Errno Bytes) :=
        let text := (content.drop f.offset).take count
        .done (w.setFile id { f with offset := f.offset + text.length }) (.ok text)
      match f.object with
      | .text content => fromText content
      | .writeEnd _ => .done w (.error .EBADF)
      | .readEnd n =>
        match w.pipeContent n with
        | [] => if w.hasWriter n then .wait w else .done w (.ok [])
        | text =>
          .done { w with pipes := w.pipes.insert n (text.drop count) } (.ok (text.take count))
      | .inode i =>
        match w.tree.node? i with
        | some (.file content) => fromText content
        | some (.device .null) => .done w (.ok [])
        | some (.device _) => .done w (.ok (Bytes.fill 0 count))
        | _ => .done w (.error .EISDIR)

/-- Length up to which a text goes into a pipe in one piece. -/
def pipeUnit : Nat := 4096

/-- What a pipe with room for `room` bytes takes of a text: of one that is short, all or nothing. -/
def accepted (room : Nat) (text : Bytes) : Bytes :=
  if text.length ≤ pipeUnit ∧ room < text.length then [] else text.take room

def write (fd : Nat) (text : Bytes) : Outcome (Except Errno Nat) :=
  match w.openFile? p fd with
  | none => .done w (.error .EBADF)
  | some (id, f) =>
    if !f.writable then .done w (.error .EBADF)
    else match f.object with
    | .text _ => .done w (.error .EBADF)
    | .readEnd _ => .done w (.error .EBADF)
    | .writeEnd n =>
      if !w.hasReader n then .done (w.raise p.pid Signal.pipe) (.error .EPIPE)
      else
        let content := w.pipeContent n
        let part := accepted (pipeSize - content.length) text
        if part.isEmpty && !text.isEmpty then .wait w
        else .done { w with pipes := w.pipes.insert n (content ++ part) } (.ok part.length)
    | .inode i =>
      match w.tree.get? i with
      | some inode =>
        match inode.node with
        | .device .full => .done w (if text.isEmpty then .ok 0 else .error .ENOSPC)
        | .device _ => .done w (.ok text.length)
        | .file content =>
          let offset := if f.append then content.length else f.offset
          let content := if text.isEmpty then content else overwrite content offset text
          let tree := w.tree.set i { inode with node := .file content, modified := w.clock }
          .done ({ w with tree }.setFile id { f with offset := offset + text.length })
            (.ok text.length)
        | _ => .done w (.error .EISDIR)
      | none => .done w (.error .EBADF)

/-- The size that offsets from the end count from. -/
def sizeOf (o : Object) : Nat :=
  match o with
  | .inode i => match w.tree.node? i with
    | some (.file content) => content.length
    | _ => 0
  | .text content => content.length
  | _ => 0

def seek (fd : Nat) (offset : Int) (whence : Whence) : World × Except Errno Nat :=
  match w.openFile? p fd with
  | none => (w, .error .EBADF)
  | some (id, f) =>
    match f.object with
    | .readEnd _ => (w, .error .ESPIPE)
    | .writeEnd _ => (w, .error .ESPIPE)
    | o =>
      let from_ : Nat := match whence with
        | .start => 0
        | .current => f.offset
        | .finish => w.sizeOf o
      let target := (from_ : Int) + offset
      if target < 0 then (w, .error .EINVAL)
      else (w.setFile id { f with offset := target.toNat }, .ok target.toNat)

def truncateFile (fd size : Nat) : World × Except Errno Unit :=
  match w.openFile? p fd with
  | none => (w, .error .EBADF)
  | some (_, f) =>
    match f.writable, w.inodeOf ((p.descriptors.get? fd).getD 0) with
    | true, some i =>
      match w.tree.node? i with
      | some (.file content) =>
        let content := content.take size ++ Bytes.fill 0 (size - content.length)
        let tree := w.tree.modify i fun n => { n with node := .file content, modified := w.clock }
        ({ w with tree }, .ok ())
      | _ => (w, .error .EINVAL)
    | _, _ => (w, .error .EINVAL)

def makePipe : World × Except Errno (Nat × Nat) :=
  let d := p.descriptors
  let r := d.free
  let o := Descriptors.free (Table.set d r 0)
  if r ≥ p.limit || o ≥ p.limit then (w, .error .EMFILE)
  else
    let (rid, oid, w) := w.addPipe
    (w.setProcess { p with descriptors := Table.set (Table.set d r rid) o oid }, .ok (r, o))

def copyAbove (fd least : Nat) : World × Except Errno Nat :=
  match p.descriptors.get? fd with
  | none => (w, .error .EBADF)
  | some id =>
    let new := p.descriptors.free least
    if new ≥ p.limit then (w, .error .EMFILE)
    else (w.setProcess { p with
      descriptors := p.descriptors.set new id, closing := new :: p.closing }, .ok new)

def dup2 (fd target : Nat) : World × Except Errno Unit :=
  match p.descriptors.dup2? fd target with
  | none => (w, .error .EBADF)
  | some descriptors =>
    if target ≥ p.limit then (w, .error .EBADF)
    else if fd = target then (w, .ok ())
    else (w.setProcess { p with descriptors, closing := p.closing.filter (· ≠ target) }, .ok ())

end World

end JobShell
