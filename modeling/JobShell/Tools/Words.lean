import JobShell.Text.Amount
import JobShell.Text.Printf
import JobShell.Tools.Arguments

/-!
# Utilities on words

`echo`, `printf`, `yes`, `basename`, `dirname`, `pwd`, `env`, `printenv`, `sleep` and the two that
only succeed or fail.
-/

namespace JobShell.Words

open Util

def succeed (_ : List Bytes) : Util UInt8 := return 0

def refuse (_ : List Bytes) : Util UInt8 := return 1

/-! ## echo and printf -/

/-- Whether an argument holds nothing but options of `echo`. -/
def isEchoOption : Bytes → Bool
  | 0x2d :: letters => !letters.isEmpty && letters.all (· ∈ Bytes.ofString "neE")
  | _ => false

def echo (args : List Bytes) : Util UInt8 := do
  let options := args.takeWhile isEchoOption
  let words := args.drop options.length
  let letters := options.flatMap (·.drop 1)
  let escapes := (letters.reverse.find? (· ≠ 0x6e)) = some 0x65
  let text := Bytes.join [0x20] words
  if escapes then
    let (text, stopped) := Printf.resolve true false (text.length + 1) text
    put text
    if stopped.isSome then return 0
  else put text
  unless 0x6e ∈ letters do put [Bytes.newline]
  return 0

def printfDialect : Printf.Dialect :=
  { hex := true, doubleQuote := true, format := .extended, emptyIsZero := false
    sizes := Bytes.ofString "hlLjzt", flags := Bytes.ofString "-+ 0#'I", strict := true }

def printf (args : List Bytes) : Util UInt8 := do
  let args := if args.head? = some (Bytes.ofString "--") then args.drop 1 else args
  match args with
  | [] => misuseString "missing operand"
  | format :: words =>
    let (events, extra) := Printf.run printfDialect format words
    for event in events do
      match event with
      | .out text => put text
      | .complain c =>
        match c with
        | .notNumber w => warn (Quoted.plain w ++ Bytes.ofString ": expected a numeric value")
        | .partly w => warn (Quoted.plain w ++ Bytes.ofString ": value not completely converted")
        | .tooLarge w => warn (Quoted.plain w ++ Bytes.ofString ": Numerical result out of range")
        | .beyond t => complain (Bytes.ofString "warning: " ++ t ++
            Bytes.ofString ": character(s) following character constant have been ignored")
        | .badFormat t | .unfinished t => fail (t ++ Bytes.ofString ": invalid conversion specification")
        | .badEscape t => fail t
    if !extra.isEmpty && !(events.any fun | .complain _ => true | _ => false) then
      match extra with
      | w :: _ =>
        let stopped := words.length = extra.length
        if stopped then warn (Bytes.ofString "warning: ignoring excess arguments, starting with " ++
          Quoted.plain w) 0
      | [] => pure ()
    return (← get).status

/-! ## yes -/

def yes (args : List Bytes) : Util UInt8 := do
  let a ← arguments (.of "" [] false) args
  let args := a.operands
  let line := (if args.isEmpty then [0x79] else Bytes.join [0x20] args) ++ [Bytes.newline]
  let block := (List.replicate (max 1 (8192 / line.length)) line).flatten
  iterate () fun _ => do
    match ← writeAll 1 block with
    | .ok () => return .inl ()
    | .error e =>
      complain (because (Bytes.ofString "standard output") e)
      return .inr 1

/-! ## basename, dirname, pwd -/

/-- A name without slashes at its end. -/
def stripSlashes (s : Bytes) : Bytes := (s.reverse.dropWhile (· = Bytes.slash)).reverse

def withoutSuffix (suffix name : Bytes) : Bytes :=
  if name ≠ suffix && suffix.isSuffixOf name then name.take (name.length - suffix.length) else name

def basename (args : List Bytes) : Util UInt8 := do
  let a ← arguments (.of "+as:z" [("multiple", .none, "a"), ("suffix", .required, "s"), ("zero", .none, "z")] false) args
  let many := a.has "a" || a.has "s"
  let finish : Bytes := if a.has "z" then [0] else [Bytes.newline]
  match a.operands with
  | [] => misuseString "missing operand"
  | names =>
    if many then
      put (names.flatMap fun n => withoutSuffix ((a.value? "s").getD []) (Path.baseName n) ++ finish)
    else match names with
      | [n] => put (Path.baseName n ++ finish)
      | [n, s] => put (withoutSuffix s (Path.baseName n) ++ finish)
      | _ :: _ :: extra :: _ => extraOperand extra
      | [] => pure ()
    return 0

def directoryOf (s : Bytes) : Bytes :=
  let t := stripSlashes s
  if t.isEmpty then if s.isEmpty then [0x2e] else [Bytes.slash]
  else if Bytes.slash ∉ t then [0x2e]
  else
    let d := stripSlashes ((t.reverse.dropWhile (· ≠ Bytes.slash)).reverse)
    if d.isEmpty then [Bytes.slash] else d

def dirname (args : List Bytes) : Util UInt8 := do
  let a ← arguments (.of "z" [("zero", .none, "z")]) args
  if a.operands.isEmpty then misuseString "missing operand"
  put (a.operands.flatMap fun n => directoryOf n ++ [if a.has "z" then 0 else Bytes.newline])
  return 0

def pwd (args : List Bytes) : Util UInt8 := do
  let a ← arguments (.of "LP" [("logical", .none, "L"), ("physical", .none, "P")]) args
  if !a.operands.isEmpty then warn (Bytes.ofString "ignoring non-option arguments") 0
  let physical : Util UInt8 := do
    match ← call .getcwd with
    | .ok path => putLine path; return 0
    | .error e => fail (because (Bytes.ofString "couldn't find directory entry in '..' with matching i-node") e)
  if a.last? ["L", "P"] = some "L" then
    match ← lookUp "PWD" with
    | some d =>
      match ← call (.stat d true), ← call (.stat [0x2e] true) with
      | .ok x, .ok y => if d.head? = some Bytes.slash && x.ino = y.ino then putLine d; return 0
                        else physical
      | _, _ => physical
    | none => physical
  else physical

/-! ## The environment -/

def printenv (args : List Bytes) : Util UInt8 := do
  let a ← arguments (.of "+0" [("null", .none, "0")] false) args 2
  let finish : Bytes := if a.has "0" then [0] else [Bytes.newline]
  let env := (← get).env
  match a.operands with
  | [] =>
    put (env.flatMap (· ++ finish))
    return 0
  | names =>
    let mut all := true
    for name in names do
      match env.find? fun v => 0x3d ∉ name && (name ++ [0x3d]).isPrefixOf v with
      | some v => put (v.drop (name.length + 1) ++ finish)
      | none => all := false
    return if all then 0 else 1

def setVariable (env : List Bytes) (assignment : Bytes) : List Bytes :=
  let name := assignment.takeWhile (· ≠ 0x3d) ++ [0x3d]
  if env.any name.isPrefixOf then env.map fun v => if name.isPrefixOf v then assignment else v
  else env ++ [assignment]

/-- Executes a program in place of this one; the complaint and the exit code if that fails. -/
def become (args env : List Bytes) (path : Option Bytes) : Util UInt8 := do
  flush
  match args with
  | [] => return 0
  | name :: _ =>
    let e ← StateT.lift (Search.run path name args env)
    complain (because (Quoted.always name) e)
    return if e = .ENOENT then 127 else 126

def envTable : OptionTable :=
  .of "+iu:0vC:S:"
    [("ignore-environment", .none, "i"), ("unset", .required, "u"), ("null", .none, "0"),
     ("chdir", .required, "C"), ("split-string", .required, "S"), ("debug", .none, "v")] false

/-- The words of one argument: blanks, quotes, backslashes and variables. `open_` is the word that is
being read, backwards; at most `n` bytes. -/
def splitWords (env : List Bytes) (quote : Option UInt8) (open_ : Option Bytes) :
    Nat → Bytes → Except Bytes (List Bytes)
  | 0, _ => .ok []
  | _, [] =>
    match quote with
    | some _ => .error (Bytes.ofString "no terminating quote in -S string")
    | none => .ok (open_.toList.map List.reverse)
  | n + 1, b :: rest =>
    let word := open_.getD []
    let push (t : Bytes) (rest : Bytes) := splitWords env quote (some (t.reverse ++ word)) n rest
    let finish (rest : Bytes) : Except Bytes (List Bytes) :=
      (splitWords env none none n rest).map (open_.toList.map List.reverse ++ ·)
    if b = 0x5c && quote ≠ some 0x27 then
      match rest with
      | [] => .error (Bytes.ofString "invalid backslash at end of string in -S")
      | c :: rest =>
        match Char.ofNat c.toNat with
        | 'f' => push [0x0c] rest
        | 'n' => push [0x0a] rest
        | 'r' => push [0x0d] rest
        | 't' => push [0x09] rest
        | 'v' => push [0x0b] rest
        | '_' => if quote.isSome then push [0x20] rest else finish rest
        | 'c' => .ok (open_.toList.map List.reverse)
        | _ =>
          if c ∈ Bytes.ofString "#$\\\"'" then push [c] rest
          else .error (Bytes.ofString "invalid sequence '\\" ++ [c] ++ Bytes.ofString "' in -S")
    else if b = 0x24 && quote ≠ some 0x27 then
      let name := (rest.drop 1).takeWhile Class.isWord
      if rest.head? = some 0x7b && (rest.drop (1 + name.length)).head? = some 0x7d && !name.isEmpty then
        push ((Environment.get? env (String.ofList (name.map fun b => Char.ofNat b.toNat))).getD [])
          (rest.drop (name.length + 2))
      else .error (Bytes.ofString "only $\x7bVARNAME\x7d expansion is supported, error at: " ++ b :: rest)
    else match quote with
      | some q => if b = q then splitWords env none (some word) n rest else push [b] rest
      | none =>
        if b = 0x27 || b = 0x22 then splitWords env (some b) (some word) n rest
        else if Class.isSpace b then finish rest
        else if b = 0x23 && open_.isNone then .ok []
        else push [b] rest

/-- The argument of `-S` among the options at the front of the arguments, those before it and those
behind it. -/
def splitArgument? : List Bytes → Option (List Bytes × Bytes × List Bytes)
  | [] => none
  | arg :: rest =>
    let whole := Bytes.ofString "--split-string"
    let continues := (splitArgument? rest).map fun (before, text, after) => (arg :: before, text, after)
    match Bytes.after? (whole ++ [0x3d]) arg, rest with
    | some text, _ => some ([], text, rest)
    | none, text :: after =>
      if arg = whole then some ([], text, after) else withLetters arg rest continues
    | none, [] => withLetters arg rest none
where
  /-- The letters of one argument; those before an `S` stay. -/
  withLetters (arg : Bytes) (rest : List Bytes) (continues : Option (List Bytes × Bytes × List Bytes)) :
      Option (List Bytes × Bytes × List Bytes) :=
    let letters := arg.takeWhile (· ∈ Bytes.ofString "-i0v")
    if arg.head? ≠ some 0x2d || arg = [0x2d, 0x2d] then none
    else if (arg.drop letters.length).head? = some 0x53 then
      let before := if letters.length > 1 then [letters] else []
      match arg.drop (letters.length + 1), rest with
      | [], text :: after => some (before, text, after)
      | [], [] => none
      | text, after => some (before, text, after)
    else continues

def env (args : List Bytes) : Util UInt8 := do
  let desk ← get
  let args ← match splitArgument? args with
    | none => pure args
    | some (before, text, after) =>
      match splitWords desk.env none none (text.length + 1) text with
      | .ok words => pure (before ++ words ++ after)
      | .error e => fail e 125
  let a ← arguments envTable args 125
  let bare := a.operands.head? = some dash
  let operands := if bare then a.operands.drop 1 else a.operands
  let trace (text : Bytes) : Util Unit := if a.has "v" then report (text ++ [Bytes.newline]) else pure ()
  let mut env := desk.env
  if a.has "i" || bare then
    trace (Bytes.ofString "cleaning environ")
    env := []
  for name in a.values "u" do
    if name.isEmpty || 0x3d ∈ name then
      fail (because (Bytes.ofString "cannot unset " ++ Quoted.plain name) .EINVAL) 125
    trace (Bytes.ofString "unset:    " ++ name)
    env := env.filter fun v => !(name ++ [0x3d]).isPrefixOf v
  let assignments := operands.takeWhile (0x3d ∈ ·)
  for v in assignments do
    trace (Bytes.ofString "setenv:   " ++ v)
    env := setVariable env v
  match operands.drop assignments.length with
  | [] =>
    if a.has "C" then misuseString "must specify command with --chdir (-C)" 125
    put (env.flatMap (· ++ [if a.has "0" then 0 else Bytes.newline]))
    return 0
  | words =>
    if a.has "0" then misuseString "cannot specify --null (-0) with command" 125
    if let some d := a.value? "C" then
      trace (Bytes.ofString "chdir:    " ++ Quoted.always d)
      if let .error e ← call (.chdir d) then
        fail (because (Bytes.ofString "cannot change directory to " ++ Quoted.always d) e) 125
    trace (Bytes.ofString "executing: " ++ words.head?.getD [])
    for (word, i) in words.zipIdx do
      trace (Bytes.ofString s!"   arg[{i}]= " ++ Quoted.plain word)
    become words env (Environment.get? env "PATH")

/-! ## sleep -/

/-- Nanoseconds of an interval such as `0.5` or `2m`. -/
def interval? (s : Bytes) : Option Nat :=
  let (body, unit) : Bytes × Nat := match s.reverse with
    | c :: rest =>
      match Char.ofNat c.toNat with
      | 's' => (rest.reverse, 1)
      | 'm' => (rest.reverse, 60)
      | 'h' => (rest.reverse, 3600)
      | 'd' => (rest.reverse, 86400)
      | _ => (s, 1)
    | [] => (s, 1)
  match Real.front body with
  | some (.finite false n d, []) => some ((n * unit * 1000000000 + d - 1) / d)
  | some (.infinite false, []) => some (Nat.pow 10 20)
  | _ => none

def sleep (args : List Bytes) : Util UInt8 := do
  let a ← arguments (.of "") args
  if a.operands.isEmpty then misuseString "missing operand"
  let mut total := 0
  let mut bad := false
  for operand in a.operands do
    match interval? operand with
    | some n => total := total + n
    | none =>
      complain (Bytes.ofString "invalid time interval " ++ Quoted.plain operand)
      bad := true
  if bad then hint
  let _ ← call (.sleep total)
  return 0

end JobShell.Words
