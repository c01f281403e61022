import JobShell.System.Call
import JobShell.System.Path

/-!
# Looking for a program

A program name without a slash is looked for in the directories of `PATH`, an empty one being the
current directory. A file that the system does not know how to execute is given to the command
interpreter `sh`.
-/

namespace JobShell

/-- The value of a variable in an environment. -/
def Environment.get? (env : List Bytes) (name : String) : Option Bytes :=
  env.findSome? (Bytes.after? (Bytes.ofString name ++ [0x3d]))

namespace Search

/-- The program that runs files without a known format. -/
def commandInterpreter : Bytes := Bytes.ofString "/bin/sh"

/-- Directories looked in when `PATH` is not set. -/
def defaultPath : Bytes := Bytes.ofString "/bin:/usr/bin"

/-- Errors after which the next directory is tried. -/
def isPassable (e : Errno) : Bool :=
  e ∈ [.EACCES, .ENOENT, .ENOTDIR, .ENODEV]

/-- Executes the file at a path, by the command interpreter if its format is not known. -/
def execute (path : Bytes) (args env : List Bytes) : Prog Errno := do
  let e : Errno ← Prog.call (.exec path args env)
  if e = .ENOEXEC then
    Prog.call (.exec commandInterpreter (commandInterpreter :: path :: args.drop 1) env)
  else return e

/-- The files to be tried for a name: one for each directory. A directory longer than a path may be
is not tried; if it is not the last, the current directory is tried in its place. -/
def candidates (path name : Bytes) : List Bytes :=
  let dirs := Bytes.split (· == 0x3a) path
  let fits (dir : Bytes) : Bool := dir.length < Path.maxLength
  let dirs := dirs.dropLast.map (fun d => if fits d then d else []) ++
    dirs.getLast?.toList.filter fits
  dirs.map fun d => if d.isEmpty then name else d ++ Bytes.slash :: name

/-- Tries the candidates in turn; `denied` says that one of them was refused. -/
def tryAll (args env : List Bytes) (denied : Bool) (last : Errno) : List Bytes → Prog Errno
  | [] => return if denied then .EACCES else last
  | path :: rest => do
    let e ← execute path args env
    if isPassable e then tryAll args env (denied || e = .EACCES) e rest else return e

/-- Executes the program of a name; returns only if that fails. `path` is the value of `PATH`. -/
def run (path : Option Bytes) (name : Bytes) (args env : List Bytes) : Prog Errno :=
  if name.isEmpty then return .ENOENT
  else if Bytes.slash ∈ name then execute name args env
  else tryAll args env false .ENOENT (candidates (path.getD defaultPath) name)

end Search

end JobShell
