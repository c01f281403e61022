import JobShell.Scripting.State

/-!
# Options

The options of the interpreter, which its arguments and `set` turn on and off, and the reading of the
options of builtins.
-/

namespace JobShell.Scripting.Options

open Sh

/-- The options in their order: the letter, if there is one, and the name. -/
def all : List (Option Char × String) :=
  [(some 'e', "errexit"), (some 'f', "noglob"), (some 'I', "ignoreeof"), (some 'i', "interactive"),
   (some 'm', "monitor"), (some 'n', "noexec"), (some 's', "stdin"), (some 'x', "xtrace"),
   (some 'v', "verbose"), (some 'V', "vi"), (some 'E', "emacs"), (some 'C', "noclobber"),
   (some 'a', "allexport"), (some 'b', "notify"), (some 'u', "nounset"), (some 'p', "privileged"),
   (none, "nolog"), (none, "debug")]

def turn (on : Bool) (c : Char) : Sh Unit := modify fun s =>
  let others := s.options.filter (· ≠ c)
  { s with options := if on then c :: others else others }

def turnLetter (on : Bool) (b : UInt8) : Sh Unit := do
  match (all.filterMap (·.1)).find? (·.toNat = b.toNat) with
  | some c => turn on c
  | none => fail (Bytes.ofString "Illegal option -" ++ [b])

/-- Shows the options: in words, or as commands that set them. -/
def list (commands : Bool) : Sh Unit := do
  let on := (← get).options
  unless commands do putString "Current option settings\n"
  for (letter, name) in all do
    let isOn := letter.any on.contains
    if commands then putString ((if isOn then "set -o " else "set +o ") ++ name ++ "\n")
    else
      let pad := String.ofList (List.replicate (16 - name.length) ' ')
      putString (name ++ pad ++ (if isOn then "on" else "off") ++ "\n")

/-- Turns an option on or off by its name; without a name, shows the options. -/
def turnNamed (on : Bool) (name : Option Bytes) : Sh Unit := do
  match name with
  | none => list (!on)
  | some name =>
    match all.find? (Bytes.ofString ·.2 = name) with
    | some (some c, _) => turn on c
    | some (none, _) => return
    | none => fail (Bytes.ofString "Illegal option -o " ++ name)

structure Outcome where
  /-- The arguments behind the options. -/
  rest : List Bytes
  /-- Ended by `-` or `--`. -/
  ended : Bool := false
  /-- Ended by `--`. -/
  doubled : Bool := false
  /-- `-c` was there. -/
  command : Bool := false

/-- The letters of one argument; the arguments left and whether `c` was among them. -/
def letters (on start : Bool) : Bytes → List Bytes → Bool → Sh (List Bytes × Bool)
  | [], rest, command => return (rest, command)
  | b :: more, rest, command => do
    if b = 0x63 && start then letters on start more rest true
    else if b = 0x6c && start then letters on start more rest command
    else if b = 0x6f then
      turnNamed on rest.head?
      letters on start more rest.tail command
    else
      turnLetter on b
      letters on start more rest command

/-- Reads options at the front of arguments; `start` says that they are those of the interpreter. -/
def read (start : Bool) : Nat → Bool → List Bytes → Sh Outcome
  | 0, command, rest => return { rest, command }
  | n + 1, command, args => do
    match args with
    | [] => return { rest := [], command }
    | (sign :: body) :: rest =>
      if sign = 0x2d || sign = 0x2b then
        if sign = 0x2d && (body.isEmpty || body = [0x2d]) then
          if body.isEmpty && !start then
            turn false 'x'
            turn false 'v'
          return { rest, ended := true, doubled := !body.isEmpty, command }
        let (rest, command) ← letters (sign = 0x2d) start body rest command
        read start n command rest
      else return { rest := args, command }
    | [] :: _ => return { rest := args, command }

/-! ## Options of builtins -/

abbrev Spec := List (Char × Bool)

def Spec.ofString (s : String) : Spec := go s.toList
where
  go : List Char → Spec
    | [] => []
    | c :: ':' :: rest => (c, true) :: go rest
    | c :: rest => (c, false) :: go rest

/-- The options in the letters of one argument, behind those read before, which are backwards. -/
def wordOptions (spec : Spec) : Bytes → List Bytes → List (Char × Bytes) →
    Sh (List (Char × Bytes) × List Bytes)
  | [], rest, done => return (done, rest)
  | b :: more, rest, done => do
    match spec.find? (·.1.toNat = b.toNat) with
    | none => fail (Bytes.ofString "Illegal option -" ++ [b])
    | some (c, false) => wordOptions spec more rest ((c, []) :: done)
    | some (c, true) =>
      if !more.isEmpty then return ((c, more) :: done, rest)
      else match rest with
        | value :: rest => return ((c, value) :: done, rest)
        | [] => fail (Bytes.ofString "No arg for -" ++ [b] ++ Bytes.ofString " option")

def parse (spec : Spec) : Nat → List (Char × Bytes) → List Bytes →
    Sh (List (Char × Bytes) × List Bytes)
  | 0, done, args => return (done.reverse, args)
  | n + 1, done, args => do
    match args with
    | (0x2d :: b :: more) :: rest =>
      if b = 0x2d && more.isEmpty then return (done.reverse, rest)
      let (done, rest) ← wordOptions spec (b :: more) rest done
      parse spec n done rest
    | _ => return (done.reverse, args)

/-- The options of a builtin, by letters, and the arguments behind them. -/
def ofBuiltin (spec : String) (args : List Bytes) : Sh (List (Char × Bytes) × List Bytes) :=
  parse (Spec.ofString spec) (args.length + 1) [] args

end JobShell.Scripting.Options
