import JobShell.Scratch.Scene

/-!
# Scripts

A script is the standard input of an interpreter that is started with arguments. `Script.play` runs
it until the interpreter and everything it has started have ended.
-/

namespace JobShell

structure Script where
  setup : Setup
  arguments : List Bytes := []
  input : InputKind := .file

/-- How a script ends: the interpreter's end, what was written, and what is left. -/
structure ScriptReport where
  ending : Ending
  stdout : Bytes
  stderr : Bytes
  remnants : List Scratch.Remnant

namespace Script

def programName : String := "tish"

/-- The texts written when the arguments ask for no run, with the exit code. -/
def refused : OptionsError → UInt8 × String × String
  | .help => (0, OptionsError.message programName .help ++ "\n", "")
  | e => (1, "", OptionsError.message programName e ++
      "\nRun " ++ programName ++ " --help for more information.\n")

def decodeArguments : List Bytes → Except Bytes (List String)
  | [] => .ok []
  | arg :: rest => match Utf8.decodeString arg with
    | some s => (decodeArguments rest).map (s :: ·)
    | none => .error arg

def refuse (w : World) (code : UInt8) (out err : String) : World :=
  let write (w : World) (fd : Nat) (text : String) : World :=
    if text.isEmpty then w
    else match w.process? Scene.interpreter with
      | some p => match w.write p fd (Bytes.ofString text) with
        | .done w _ => w
        | _ => w
      | none => w
  (write (write w 1 out) 2 err).finish Scene.interpreter (.exited code)

/-- The world when the interpreter has ended. -/
def runInterpreter (s : Script) (scene : Scene) : World :=
  let w := scene.machine.world
  match decodeArguments s.arguments with
  | .error arg =>
    refuse w 1 "" ("Invalid utf8: " ++ String.ofList (Utf8.decodeLossy arg) ++ "\n")
  | .ok args => match Options.parse args with
    | .error e => let (code, out, err) := refused e; refuse w code out err
    | .ok options =>
      let fallback := Environment.get? scene.machine.env "TISH_PROMPT"
      let config := Config.of options fallback
      let m := scene.machine
      let m := if !config.interactive then m else
        { m with world := m.world.modifyProcess m.pid fun p =>
            { p with signals := p.signals.install, farewell := some Shell.farewell } }
      (ReadLoop.run Scene.horizon { machine := m, config }).machine.world

/-- The supervisor lets go of the pipe, and everything still running runs to its end. -/
def windUp (w : World) : World :=
  let w := w.modifyProcess Scene.supervisor fun p => { p with descriptors := [] }
  w.runUntil (·.runners.isEmpty) Scene.horizon

def endingOf (w : World) : Ending :=
  (((w.process? Scene.supervisor).bind fun p => p.children.findSome? (·.ending))).getD (.exited 0)

/-- A text with one `#` for each run of digits; `inside` says that a run has been started. -/
def maskOnto (done : Bytes) (inside : Bool) : Bytes → Bytes
  | [] => done.reverse
  | b :: rest =>
    if 0x30 ≤ b && b ≤ 0x39 then maskOnto (if inside then done else 0x23 :: done) true rest
    else maskOnto (b :: done) false rest

/-- A text with one `#` for each run of digits. -/
def maskDigits (s : Bytes) : Bytes := maskOnto [] false s

/-- A run on the texts as they are given. -/
def perform (programs : Table String Installed) (s : Script) : ScriptReport :=
  let scene := Scene.of programs s.setup s.input false
  let w := windUp (runInterpreter s scene)
  { ending := endingOf w, stdout := Scene.contentOf w scene.stdout
    stderr := Scene.contentOf w scene.stderr
    remnants := Scratch.changes s.setup.items w.tree scene.root }

/-- A whole run: the mark of the scratch directory in the standard input stands for its path. -/
def play (programs : Table String Installed) (s : Script) : ScriptReport :=
  perform programs { s with setup.stdin := Scratch.fill s.setup.stdin }

end Script

end JobShell
