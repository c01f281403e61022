import JobShell.System.ProcessCalls

/-!
# Executing a program

A file is executed by what its first bytes say: the mark of an installed program, followed by the
program's name, or `#!`, followed by the path of an interpreter and at most one argument. A script
may name a script as its interpreter, a few levels deep.
-/

namespace JobShell

inductive Format where
  /-- An installed program, by name. -/
  | installed (name : Bytes)
  | script (interpreter : Bytes) (argument : Option Bytes)
  | unknown
  deriving DecidableEq, Repr

namespace Format

/-- The mark of an installed program. -/
def mark : Bytes := [0x7f, 0x45, 0x4c, 0x46]

/-- Number of bytes at the start of a file that decide how it is executed. -/
def window : Nat := 256

def isBlankByte (b : UInt8) : Bool := b = 0x20 || b = 0x09

/-- A byte that ends the name of the interpreter. -/
def endsName (b : UInt8) : Bool := isBlankByte b || b = 0

/-- The text up to the first NUL. -/
def untilNul (s : Bytes) : Bytes := s.takeWhile (· ≠ 0)

/-- A line `#!` without these two bytes, its end known, read as interpreter and argument. -/
def ofScriptLine (line : Bytes) : Format :=
  match line.dropWhile isBlankByte with
  | [] => .unknown
  | body =>
    let name := body.takeWhile (!endsName ·)
    match body.drop name.length with
    | [] => .script name none
    | 0 :: _ => .script name none
    | rest =>
      match rest.dropWhile isBlankByte with
      | [] => .script name none
      | argument => .script name (some (untilNul argument))

/-- Without blanks at the end. -/
def trimEnd (s : Bytes) : Bytes := (s.reverse.dropWhile isBlankByte).reverse

/-- How a file with this content is executed. A script whose first line does not end within the
window has to show where its interpreter's name ends. -/
def ofContent (content : Bytes) : Format :=
  if mark.isPrefixOf content then .installed ((content.drop mark.length).takeWhile (· ≠ 0x0a))
  else match content with
  | 0x23 :: 0x21 :: _ =>
    let start := content.take window ++ Bytes.fill 0 (window - content.length)
    let line := start.drop 2
    if Bytes.newline ∈ line then ofScriptLine (trimEnd (line.takeWhile (· ≠ Bytes.newline)))
    else
      match line.dropWhile isBlankByte with
      | [] => .unknown
      | body => if body.any endsName then ofScriptLine (trimEnd line.dropLast) else .unknown
  | _ => .unknown

end Format

namespace World

variable (w : World) (p : Process)

/-- The file to be executed under a path: a regular file that the user may execute and that nobody
has open for writing. -/
def executable (path : Bytes) : Except Errno (Ino × Bytes) := do
  let v := w.view p
  let place ← if path.isEmpty then .ok p.directory else v.findBytes path
  let i ← match place with
    | .inode i => .ok i
    | .opened f => (w.inodeOf f).elim (.error .EACCES) .ok
    | .shown _ => .error .EACCES
  match w.tree.get? i with
  | some inode =>
    match inode.node with
    | .file content =>
      if !FileTree.allows inode w.user 1 then .error .EACCES
      else if w.isBeingWritten i then .error .ETXTBSY
      else .ok (i, content)
    | _ => .error .EACCES
  | none => .error .ENOENT

/-- Number of scripts that may stand before the installed program. -/
def scriptDepth : Nat := 5

/-- The inode and the name of the installed program for a path, and its arguments; `depth` more
scripts are allowed. -/
def resolve (depth : Nat) (path : Bytes) (args : List Bytes) :
    Except Errno (Ino × Bytes × List Bytes) := do
  let (i, content) ← w.executable p path
  match Format.ofContent content with
  | .installed name => return (i, name, args)
  | .unknown => .error .ENOEXEC
  | .script interpreter argument =>
    match depth with
    | 0 =>
      let _ ← w.executable p interpreter
      .error .ELOOP
    | depth + 1 => resolve depth interpreter (interpreter :: argument.toList ++ path :: args.drop 1)

/-- Bytes of the longest argument. -/
def maxArgument : Nat := 131071

/-- Bytes of all arguments and variables with their pointers. -/
def maxArguments : Nat := 2097152

/-- What arguments and variables take. -/
def argumentSize (ss : List Bytes) : Nat := ss.foldl (fun n s => n + s.length + 9) 0

/-- What a program does that finds no free descriptor to load its first library. -/
def cannotLoad (name library : Bytes) : Image := fun args _ =>
  let text := (args.head?.getD name) ++ Bytes.ofString ": error while loading shared libraries: " ++
    library ++ Bytes.ofString ": cannot open shared object file: Error 24\n"
  .call (.write 2 text) fun _ => .exit 127

/-- The program at a path with its arguments, if it can be executed. -/
def program (path : Bytes) (args env : List Bytes) :
    Except Errno (Ino × Bytes × Installed × List Bytes) := do
  if path.isEmpty then .error .ENOENT
  let _ ← w.executable p path
  if (args ++ env).any (·.length > maxArgument) || argumentSize (args ++ env) > maxArguments then
    .error .E2BIG
  let (i, name, args) ← w.resolve p scriptDepth path args
  match w.programs name with
  | some program => return (i, name, program, args)
  | none => .error .ENOEXEC

/-- The process runs the program at `path` from now on. Descriptors marked for it are closed. -/
def exec (path : Bytes) (args env : List Bytes) : Outcome Errno :=
  match w.program p path args env with
  | .error e => .done w e
  | .ok (i, name, program, args) =>
    let descriptors : Descriptors := p.descriptors.filter fun (fd, _) => fd ∉ p.closing
    let image :=
      if descriptors.free ≥ p.limit then cannotLoad name program.library else program.image
    .become (w.setProcess { p with
      program := some (image args env), name := (Path.baseName path).take 15, image := some i
      descriptors, closing := [], signals := p.signals.onExec, caught := [], farewell := none
      interrupted := false })

end World

end JobShell
