import JobShell.Text.Utf8

/-!
# Options of the command line

The interpreter takes a switch `-i` or `--interactive`, which may be repeated, and an option
`--prompt` with a value, which may not. `--` ends the options; no other argument is known. The word
`help` or `--help` asks for the usage text and may stand last only.
-/

namespace JobShell

structure Options where
  interactive : Bool := false
  prompt : Option String := none
  deriving DecidableEq, Repr

inductive OptionsError where
  | help
  | afterHelp
  | unknown (arg : String)
  | noValue (option : String)
  | duplicate (option value : String)
  deriving DecidableEq, Repr

namespace OptionsError

def usage (name : String) : String := "\n".intercalate
  ["Usage: " ++ name ++ " [-i] [--prompt <prompt>]", "",
   "A small interactive shell with pipes, redirection and background jobs.", "",
   "Options:",
   "  -i, --interactive prompt and handle interrupts even when stdin is not a",
   "                    terminal",
   "  --prompt          prompt string (default: $TISH_PROMPT or \">>\")",
   "  --help, help      display usage information", ""]

def message (name : String) : OptionsError → String
  | help => usage name
  | afterHelp => "Trailing arguments are not allowed after `help`."
  | unknown arg => s!"Unrecognized argument: {arg}\n"
  | noValue option => s!"No value provided for option '{option}'.\n"
  | duplicate option value =>
    s!"Error parsing option '{option}' with value '{value}': duplicate values provided\n"

end OptionsError

namespace Options

/-- Reads the arguments left, given the options so far, whether help was asked for and whether
`--` has ended the options. -/
def parseFrom (o : Options) (helped ended : Bool) : List String → Except OptionsError Options
  | [] => if helped then .error .help else .ok o
  | arg :: rest =>
    if !ended && (arg = "--help" || arg = "help") then parseFrom o true ended rest
    else if !ended && arg.toList.head? = some '-' then
      if arg = "--" then parseFrom o helped true rest
      else if helped then .error .afterHelp
      else if arg = "-i" || arg = "--interactive" then
        parseFrom { o with interactive := true } helped ended rest
      else if arg = "--prompt" then
        match rest with
        | [] => .error (.noValue arg)
        | value :: rest =>
          if o.prompt.isSome then .error (.duplicate arg value)
          else parseFrom { o with prompt := some value } helped ended rest
      else .error (.unknown arg)
    else .error (.unknown arg)

def parse (args : List String) : Except OptionsError Options := parseFrom {} false false args

end Options

structure Config where
  prompt : String
  interactive : Bool
  deriving DecidableEq, Repr

def Config.defaultPrompt : String := ">>"

/-- The prompt is the option's, else the environment's if it is well-formed, else the default. -/
def Config.of (o : Options) (fallback : Option Bytes) : Config :=
  { prompt := (o.prompt.or (fallback.bind Utf8.decodeString)).getD defaultPrompt
    interactive := o.interactive }

end JobShell
