import JobShell.Scripting.Grammar
import JobShell.Scripting.State

/-!
# Finding commands

A name is a function, a builtin, or a program in one of the directories of `PATH`; a name with a
slash is a program. What was found is kept in a table that `hash` shows.
-/

namespace JobShell.Scripting

inductive Found where
  | function (line : Nat) (body : Cmd)
  | builtin (name : Bytes)
  /-- The files to be tried, in order. -/
  | program (paths : List Bytes)
  | missing (e : Errno)

namespace Finding

open Sh

def regularBuiltins : List String :=
  ["[", "alias", "bg", "cd", "chdir", "command", "echo", "false", "fg", "getopts", "hash", "jobs", "kill",
   "printf", "pwd", "read", "test", "true", "type", "ulimit", "umask", "unalias", "wait"]

def isSpecial (name : Bytes) : Bool := Grammar.specialBuiltins.any (Bytes.ofString · = name)

def isBuiltin (name : Bytes) : Bool :=
  isSpecial name || regularBuiltins.any (Bytes.ofString · = name)

/-- Builtins whose arguments may be assignments. -/
def takesAssignments (name : Bytes) : Bool :=
  ["alias", "export", "local", "readonly"].any (Bytes.ofString · = name)

/-- Directories looked in by `command -p`. -/
def standardPath : Bytes :=
  Bytes.ofString "/usr/local/sbin:/usr/local/bin:/usr/sbin:/usr/bin:/sbin:/bin"

def candidates (path name : Bytes) : List Bytes :=
  (Bytes.split (· = 0x3a) path).map fun d => if d.isEmpty then name else d ++ Bytes.slash :: name

/-- The candidates from the first that is a file and may be executed on; otherwise the error to be
told. -/
def search (e : Errno) : List Bytes → Sh (Except Errno (List Bytes))
  | [] => return .error e
  | path :: rest => do
    match ← call (.stat path true) with
    | .error f => search (if f = .ENOENT || f = .ENOTDIR then e else f) rest
    | .ok info =>
      if info.kind = .file && (← call (.access path 1)).toBool then return .ok (path :: rest)
      else search .EACCES rest

def remember (name path : Bytes) : Sh Unit := modify fun s =>
  { s with found := s.found.set name path }

/-- The program of a name without a slash. -/
def program (path : Option Bytes) (name : Bytes) : Sh Found := do
  match path with
  | none => return .missing .ENOENT
  | some path =>
    match ← search .ENOENT (candidates path name) with
    | .ok paths =>
      if some path = (← valueOf "PATH") then remember name (paths.headD [])
      return .program paths
    | .error e => return .missing e

/-- What a name stands for; `functions` says whether it may be a function. -/
def find (name : Bytes) (functions : Bool) (path : Option Bytes) : Sh Found := do
  if Bytes.slash ∈ name then return .program [name]
  match (← get).functions.get? name with
  | some (line, body) => if functions then return .function line body
  | none => pure ()
  if isBuiltin name then return .builtin name
  program path name

def executeText (e : Errno) : String :=
  if e = .ENOENT || e = .ENOTDIR then "not found" else e.reason

/-- Replaces the interpreter by the first of the files that can be executed; ends it if none can. -/
def execute {α : Type} (paths args : List Bytes) : Sh α := do
  let env := (← get).vars.environment
  let name := args.headD []
  let rec tryAll (e : Errno) : List Bytes → Sh Errno
    | [] => return e
    | path :: rest => do
      let f ← prog (Search.execute path args env)
      tryAll (if f = .ENOENT || f = .ENOTDIR then e else f) rest
  let e ← match paths with
    | [path] => prog (Search.execute path args env)
    | paths => tryAll .ENOENT paths
  let code := if e ∈ [.ELOOP, .ENAMETOOLONG, .ENOENT, .ENOTDIR] then 127 else 126
  modify ({ · with status := code })
  warn (about name (executeText e))
  throw .leave

/-! ## Describing commands -/

/-- A text in single quotes; its own single quotes stand between double quotes. -/
def quoted (s : Bytes) : Bytes := go (s.length + 1) s
where
  go : Nat → Bytes → Bytes
    | 0, _ => []
    | n + 1, s =>
      let plain := s.takeWhile (· ≠ 0x27)
      let rest := s.drop plain.length
      let quotes := rest.takeWhile (· = 0x27)
      let more := rest.drop quotes.length
      0x27 :: plain ++ [0x27] ++
        (if quotes.isEmpty then []
         else 0x22 :: quotes ++ [0x22] ++ (if more.isEmpty then [] else go n more))

/-- `name='text'`. -/
def quotedBinding (name value : Bytes) : Bytes := name ++ 0x3d :: quoted value

/-- Says what a name stands for, in words or as short as it can be put; the exit code. -/
def describe (words : Bool) (path : Option Bytes) (name : Bytes) : Sh Nat := do
  let say (long : String) (short : Bytes) : Sh Nat := do
    putLine (if words then name ++ Bytes.ofString long else short)
    return 0
  let s ← get
  if Token.keywords.any (Bytes.ofString · = name) then say " is a shell keyword" name
  else match s.aliases.get? name with
  | some value =>
    if words then putLine (name ++ Bytes.ofString " is an alias for " ++ value)
    else putLine (Bytes.ofString "alias " ++ quotedBinding name value)
    return 0
  | none =>
    let tracked := (s.found.get? name).isSome
    let found ← if Bytes.slash ∈ name then do
        match ← call (.stat name true) with
        | .ok _ => pure (Found.program [name])
        | .error e => pure (Found.missing e)
      else find name true path
    match found with
    | .function .. => say " is a shell function" name
    | .builtin _ =>
      say (if isSpecial name then " is a special shell builtin" else " is a shell builtin") name
    | .program paths =>
      let file := paths.headD []
      if words then
        putLine (name ++ Bytes.ofString (if tracked then " is a tracked alias for " else " is ") ++ file)
      else putLine file
      return 0
    | .missing e =>
      if words then putLine (about name (executeText e))
      return 127

end Finding

end JobShell.Scripting
