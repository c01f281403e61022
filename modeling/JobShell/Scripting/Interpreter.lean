import JobShell.Scripting.Evaluation

/-!
# The command interpreter as a program

`sh` runs the commands of a file, of its argument behind `-c`, or of standard input, which is read in
blocks as they are needed. Its variables start with those of the environment.
-/

namespace JobShell.Scripting.Interpreter

open Sh

def initialVariables (user : Bool) : Variables :=
  [("IFS", " \t\n"), ("OPTIND", "1"), ("PATH", "/usr/local/sbin:/usr/local/bin:/usr/sbin:/usr/bin:/sbin:/bin"),
   ("PS1", if user then "$ " else "# "), ("PS2", "> "), ("PS4", "+ ")].map fun (name, value) =>
    (Bytes.ofString name, { value := some (Bytes.ofString value) })

def start (env : List Bytes) : Sh Unit := do
  let vars := (initialVariables true).import_ env
  let vars := vars.assign (Bytes.ofString "IFS") Expansion.defaultSeparators
  let vars := Table.set vars (Bytes.ofString "IFS") { value := some Expansion.defaultSeparators }
  let vars := Table.set vars (Bytes.ofString "OPTIND") { value := some (Bytes.ofString "1") }
  let vars := Table.set vars (Bytes.ofString "PPID") { value := some (Bytes.ofInt (← get).parent) }
  modify ({ · with vars })
  setSignal Signal.child
  let known ← match ← valueOf "PWD" with
    | none => pure none
    | some path =>
      if path.head? ≠ some Bytes.slash then pure none
      else
        match ← call (.stat path true), ← call (.stat [0x2e] true) with
        | .ok a, .ok b => pure (if a.ino = b.ino then some path else none)
        | _, _ => pure none
  let path ← match known with
    | some path => pure path
    | none => Builtins.physical
  modify ({ · with directory := path })
  Builtins.exportAs "PWD" path

inductive Origin where
  | text (s : Bytes)
  | descriptor (fd : Nat)

def openScript (path : Bytes) : Sh Nat := do
  match ← call (.open path .reading 0) with
  | .error e =>
    fail (Bytes.ofString "cannot open " ++ path ++ Bytes.ofString s!": {Evaluation.openText false e}")
  | .ok fd =>
    match ← call (.copyAbove fd 10) with
    | .ok high =>
      let _ ← call (.close fd)
      modify ({ · with script := some high })
      return high
    | .error _ => return fd

/-- Reads the arguments; where commands come from. -/
def arguments (args : List Bytes) : Sh Origin := do
  let o ← Options.read true (args.length + 1) false args
  match o.command, o.rest with
  | true, [] => failString "-c requires an argument"
  | true, text :: rest =>
    match rest with
    | name :: params => modify ({ · with name, params })
    | [] => pure ()
    return .text text
  | false, rest =>
    match ← hasOption 's', rest with
    | true, params =>
      modify ({ · with params })
      return .descriptor 0
    | false, [] =>
      Options.turn true 's'
      return .descriptor 0
    | false, path :: params =>
      let fd ← openScript path
      modify ({ · with name := path, params })
      return .descriptor fd

/-- Bytes read at once. -/
def blockSize : Nat := 8192

def readBlock (fd : Nat) : Sh Bytes :=
  iterate () fun _ => do
    match ← call (.read fd blockSize) with
    | .ok block => return .inr block
    | .error .EINTR =>
      poll
      return .inl ()
    | .error _ => return .inr []

/-- Shows the text that has been read, if that is asked for. -/
def showText (before : Source) (left : Nat) : Sh Unit := do
  if ← hasOption 'v' then
    let _ ← writeAll 2 (before.rest.take (before.rest.length - left))

/-- Reads the next command from a file; `none` at the end. -/
def next (fd : Nat) (source : Source) : Sh (Option (Cmd × Source)) :=
  iterate source fun before => do
    let s ← get
    match Grammar.nextCommand.run { before with aliases := s.aliases, nextText := s.nextText } with
    | .ok (c, source) =>
      showText before source.rest.length
      modify fun s =>
        { s with
          texts := source.texts ++ s.texts, nextText := source.nextText, readLine := source.line }
      return .inr (c.map fun c => (c, { source with texts := [] }))
    | .error (.wrong line text) =>
      modify ({ · with line })
      failString s!"Syntax error: {text}"
    | .error .more =>
      match ← readBlock fd with
      | [] => return .inl { before with closed := true }
      | block => return .inl { before with rest := before.rest ++ block.filter (· ≠ 0) }

def runFile (fd : Nat) : Sh Unit :=
  iterate ({ rest := [] } : Source) fun source => do
    match ← next fd source with
    | none => return .inr ()
    | some (c, source) =>
      Evaluation.run {} c
      return .inl source

def main (args env : List Bytes) : Sh Unit := do
  start env
  let origin ← arguments args
  let reads := match origin with
    | .descriptor 0 => true
    | _ => false
  modify ({ · with minds := !reads })
  setSignal Signal.interrupt
  setSignal Signal.quit
  setSignal Signal.terminate
  match origin with
  | .text s => Evaluation.runText Evaluation.run true s
  | .descriptor fd => runFile fd

def image : Image := fun args env =>
  let whole : Prog UInt8 := do
    let self ← Prog.call .self
    let parent ← Prog.call .parent
    Evaluation.whole Evaluation.run (main (args.drop 1) env)
      { name := args.head?.getD (Bytes.ofString "sh"), self, parent }
  whole.run

end JobShell.Scripting.Interpreter
