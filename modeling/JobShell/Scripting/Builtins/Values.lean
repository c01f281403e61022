import JobShell.Scripting.Expansion
import JobShell.Scripting.Finding

/-!
# Builtins on variables, parameters and aliases

`set`, `shift`, `export`, `readonly`, `local`, `unset`, `read`, `getopts`, `alias`, `unalias`.
-/

namespace JobShell.Scripting.Builtins

open Sh

def setParams (params : List Bytes) : Sh Unit :=
  modify ({ · with params, optionIndex := 1, optionOffset := 0 })

/-- The variables that satisfy `p`, by name, each behind `head`. -/
def showVariables (head : Bytes) (p : Variable → Bool) (valued : Bool) : Sh Unit := do
  let vs := (← get).vars.filter fun (_, v) => p v && (!valued || v.value.isSome)
  for (name, v) in vs.mergeSort fun a b => Bytes.compare a.1 b.1 ≠ .gt do
    let shown := match v.value with
      | some value => Finding.quotedBinding name value
      | none => name
    putLine (head ++ (if head.isEmpty then [] else [0x20]) ++ shown)

def set_ (args : List Bytes) : Sh Nat := do
  if args.isEmpty then
    showVariables [] (fun _ => true) true
    return 0
  let o ← Options.read false (args.length + 1) false args
  if !o.rest.isEmpty || o.doubled then setParams o.rest
  return 0

/-- A number that is not negative. -/
def count (s : Bytes) : Sh Nat := do
  match Arithmetic.ofWord 10 s with
  | .ok v => if 0 ≤ v && v < Nat.pow 2 31 then return v.toNat else badNumber s
  | .error _ => badNumber s

def shift (args : List Bytes) : Sh Nat := do
  let n ← match args.head? with
    | some s => count s
    | none => pure 1
  let s ← get
  if n > s.params.length then failString "can't shift that many"
  setParams (s.params.drop n)
  return 0

def markAll (exported : Bool) (head : String) (args : List Bytes) : Sh Nat := do
  let (options, args) ← Options.ofBuiltin "p" args
  if args.isEmpty || !options.isEmpty then
    showVariables (Bytes.ofString head) (fun v => if exported then v.exported else v.readOnly) false
    return 0
  for arg in args do
    let (name, value) := Bytes.cut 0x3d arg
    unless Name.isName name do fail (about name "bad variable name")
    if let some v := value then assign name v
    modify fun s => { s with vars := s.vars.mark name exported (!exported) }
  return 0

def export_ (args : List Bytes) : Sh Nat := markAll true "export" args

def readonly (args : List Bytes) : Sh Nat := markAll false "readonly" args

def local_ (args : List Bytes) : Sh Nat := do
  if (← get).depth = 0 then failString "not in a function"
  for arg in args do
    let (name, value) := Bytes.cut 0x3d arg
    unless name = [0x2d] do
      unless Name.isName name do fail (about name "bad variable name")
      hide name
      if let some v := value then assign name v
  return 0

def unset (args : List Bytes) : Sh Nat := do
  let (options, args) ← Options.ofBuiltin "vf" args
  for name in args do
    if (options.getLast?).any (·.1 = 'f') then
      modify fun s => { s with functions := s.functions.erase name }
    else
      unless Name.isName name do fail (about name "bad variable name")
      if (← get).vars.isReadOnly name then fail (about name "is read only")
      modify fun s => { s with vars := s.vars.unset name }
  return 0

/-! ## read -/

/-- The bytes of a line, each with whether it is open to splitting, and whether the line ended
before its newline. A backslash takes the meaning of the byte behind it, and joins lines. -/
def readLine (raw : Bool) : Sh (List (UInt8 × Bool) × Bool) :=
  iterate (([] : List (UInt8 × Bool)), false) fun (line, escaped) => do
    match ← call (.read 0 1) with
    | .ok [b] =>
      if b = 0 then return .inl (line, escaped)
      else if escaped then
        if b = Bytes.newline then return .inl (line, false) else return .inl ((b, false) :: line, false)
      else if b = 0x5c && !raw then return .inl (line, true)
      else if b = Bytes.newline then return .inr (line.reverse, false)
      else return .inl ((b, true) :: line, false)
    | .error .EINTR =>
      poll
      if (← get).got.isEmpty then return .inl (line, escaped) else return .inr (line.reverse, true)
    | _ => return .inr (line.reverse, true)

/-- The text for the last variable: one field without what separates it, or all that is left
without blanks at its end. -/
def lastField (isBlank isSeparator : UInt8 × Bool → Bool) (line : List (UInt8 × Bool)) : Bytes :=
  let field := line.takeWhile (!isSeparator ·)
  let rest := line.drop field.length
  let hard := rest.filter fun b => !isBlank b
  let kept :=
    if rest.all isSeparator && hard.length ≤ 1 then field
    else (line.reverse.dropWhile isBlank).reverse
  kept.map (·.1)

/-- The fields of a line for `n` variables. -/
def splitLine (isBlank isSeparator : UInt8 × Bool → Bool) : Nat → List (UInt8 × Bool) → List Bytes
  | 0, _ => []
  | 1, line => [lastField isBlank isSeparator line]
  | n + 1, line =>
    let field := line.takeWhile (!isSeparator ·)
    let rest := (line.drop field.length).dropWhile isBlank
    let rest := match rest with
      | b :: more => if isSeparator b then more.dropWhile isBlank else rest
      | [] => []
    field.map (·.1) :: splitLine isBlank isSeparator n rest

def read (args : List Bytes) : Sh Nat := do
  let (options, names) ← Options.ofBuiltin "p:r" args
  if names.isEmpty then failString "arg count"
  let (line, ended) ← readLine (options.any (·.1 = 'r'))
  let ifs ← Expansion.separators
  let isSeparator (b : UInt8 × Bool) : Bool := b.2 && b.1 ∈ ifs
  let isBlank (b : UInt8 × Bool) : Bool := isSeparator b && b.1 ∈ Expansion.defaultSeparators
  let fields := splitLine isBlank isSeparator names.length (line.dropWhile isBlank)
  for (name, value) in names.zip fields do assignNamed name value
  return if ended then 1 else 0

/-! ## getopts -/

structure OptionStep where
  /-- The letter for the variable. -/
  letter : UInt8
  value : Option Bytes
  /-- A complaint. -/
  text : Option Bytes := none
  /-- The word looked at next, and how far the one before has been read, if there is more. -/
  index : Nat
  offset : Nat
  finished : Bool := false

def optionStep (spec : Bytes) (words : List Bytes) (index offset : Nat) : OptionStep :=
  let quiet := spec.head? = some 0x3a
  let specs := if quiet then spec.tail else spec
  let current : Bytes :=
    if index ≤ 1 || offset = 0 then [] else ((words[index - 2]?).getD []).drop offset
  let finished (index : Nat) : OptionStep :=
    { letter := 0x3f, value := none, index, offset := 0, finished := true }
  let go (p : Bytes) (index offset : Nat) : OptionStep :=
    match p with
    | [] => finished index
    | c :: more =>
      let left := if more.isEmpty then 0 else offset + 1
      match (specs.dropWhile (· ≠ c)) with
      | [] =>
        if quiet then { letter := 0x3f, value := some [c], index, offset := left }
        else { letter := 0x3f, value := none, text := some (Bytes.ofString "Illegal option -" ++ [c])
               index, offset := left }
      | _ :: 0x3a :: _ =>
        if !more.isEmpty then { letter := c, value := some more, index, offset := 0 }
        else match words[index - 1]? with
          | some w => { letter := c, value := some w, index := index + 1, offset := 0 }
          | none =>
            if quiet then { letter := 0x3a, value := some [c], index, offset := 0 }
            else
              { letter := 0x3f, value := none
                text := some (Bytes.ofString "No arg for -" ++ [c] ++ Bytes.ofString " option")
                index, offset := 0 }
      | _ => { letter := c, value := some [], index, offset := left }
  if !current.isEmpty then go current index offset
  else match words[index - 1]? with
    | some (0x2d :: b :: rest) =>
      if b = 0x2d && rest.isEmpty then finished (index + 1) else go (b :: rest) (index + 1) 1
    | _ => finished index

def getopts (args : List Bytes) : Sh Nat := do
  match args with
  | spec :: name :: more =>
    let s ← get
    let words := if more.isEmpty then s.params else more
    let (index, offset) :=
      if s.optionIndex > words.length + 1 then (1, 0) else (s.optionIndex, s.optionOffset)
    let o := optionStep spec words index offset
    if let some text := o.text then
      let _ ← writeAll 2 (text ++ [Bytes.newline])
    let optarg := Bytes.ofString "OPTARG"
    match o.value with
    | some v => assign optarg v
    | none =>
      unless o.finished do modify fun s => { s with vars := s.vars.unset optarg }
    assign (Bytes.ofString "OPTIND") (Bytes.ofNat o.index)
    modify ({ · with optionIndex := o.index, optionOffset := o.offset })
    assignNamed name [o.letter]
    return if o.finished then 1 else 0
  | _ => failString "Usage: getopts optstring var [arg...]"

/-! ## Aliases -/

def inSlots (t : Table Bytes Bytes) : Table Bytes Bytes :=
  t.mergeSort fun a b => Variables.slot a.1 ≤ Variables.slot b.1

def alias_ (args : List Bytes) : Sh Nat := do
  if args.isEmpty then
    for (name, value) in inSlots (← get).aliases do putLine (Finding.quotedBinding name value)
    return 0
  let mut code := 0
  for arg in args do
    match arg with
    | [] => pure ()
    | first :: rest =>
      let (name, value) := Bytes.cut 0x3d rest
      match value with
      | some v => modify fun s => { s with aliases := s.aliases.set (first :: name) v }
      | none =>
        match (← get).aliases.get? arg with
        | some v => putLine (Finding.quotedBinding arg v)
        | none =>
          let _ ← writeAll 2 (Bytes.ofString "alias: " ++ arg ++ Bytes.ofString " not found\n")
          code := 1
  return code

def unalias (args : List Bytes) : Sh Nat := do
  let (options, args) ← Options.ofBuiltin "a" args
  unless options.isEmpty do
    modify ({ · with aliases := [] })
    return 0
  let mut code := 0
  for name in args do
    if ((← get).aliases.get? name).isSome then
      modify fun s => { s with aliases := s.aliases.erase name }
    else
      let _ ← writeAll 2 (Bytes.ofString "unalias: " ++ name ++ Bytes.ofString " not found\n")
      code := 1
  return code

end JobShell.Scripting.Builtins
