import JobShell.System.World
import JobShell.System.Execution

/-!
# A small installed system

The directories, devices and programs that every world starts with. They belong to user 0; the
processes belong to an ordinary user.
-/

namespace JobShell.Installation

def directory (mode : Nat) (t : FileTree) (parent : Ino) (name : String) : Ino × FileTree :=
  t.createDirectory parent (Bytes.ofString name) mode 0

def item (node : Node) (mode : Nat) (t : FileTree) (parent : Ino) (name : String) : FileTree :=
  (t.create parent (Bytes.ofString name) { node, mode, owner := 0 }).2

def link (target : String) : FileTree → Ino → String → FileTree :=
  item (.link (Bytes.ofString target)) 0o777

def plainDirectories : List (String × Nat) :=
  [("boot", 0o755), ("home", 0o755), ("media", 0o755), ("mnt", 0o755), ("opt", 0o755),
   ("root", 0o700), ("run", 0o755), ("srv", 0o755), ("sys", 0o555), ("var", 0o755)]

/-- Files of the directory `etc`. -/
def settings : List (String × String × Nat) :=
  [("group", "root:x:0:\n", 0o644), ("hostname", "localhost\n", 0o644),
   ("passwd", "root:x:0:0:root:/root:/bin/bash\n", 0o644), ("shadow", "root:*:19000:0:99999:7:::\n", 0o640)]

/-- The files of an installed system whose programs have the given names. -/
def tree (programs : List String) : FileTree :=
  let t := FileTree.empty
  let t := plainDirectories.foldl (fun t (name, mode) => (directory mode t FileTree.root name).2) t
  let (_, t) := directory 0o1777 t FileTree.root "tmp"
  let (etc, t) := directory 0o755 t FileTree.root "etc"
  let t := settings.foldl (fun t (name, text, mode) =>
    item (.file (Bytes.ofString text)) mode t etc name) t
  let (usr, t) := directory 0o755 t FileTree.root "usr"
  let t := ["lib", "lib64", "local", "sbin", "share", "games", "include", "src"].foldl
    (fun t name => (directory 0o755 t usr name).2) t
  let (bin, t) := directory 0o755 t usr "bin"
  let t := programs.foldl (fun t name =>
    item (.file (Format.mark ++ Bytes.ofString name)) 0o755 t bin name) t
  let t := ["bin", "lib", "lib64", "sbin"].foldl (fun t name =>
    link ("usr/" ++ name) t FileTree.root name) t
  let (dev, t) := directory 0o755 t FileTree.root "dev"
  let t := [("null", Device.null), ("zero", .zero), ("full", .full)].foldl (fun t (name, d) =>
    item (.device d) 0o666 t dev name) t
  let t := [("fd", "/proc/self/fd"), ("stdin", "/proc/self/fd/0"), ("stdout", "/proc/self/fd/1"),
    ("stderr", "/proc/self/fd/2")].foldl (fun t (name, target) => link target t dev name) t
  item .processes 0o555 t FileTree.root "proc"

end JobShell.Installation
