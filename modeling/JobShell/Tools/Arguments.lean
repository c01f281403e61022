import JobShell.Tools.Desk

/-!
# Options and operands

An argument that starts with `-` holds options of one letter, one that starts with `--` a long
option, which may be cut short as long as it stays clear which one is meant. `--` ends the options.
`Arguments.read` gives the options by their keys; several spellings may share a key.
-/

namespace JobShell

inductive Arity where
  | none
  | required
  /-- A value only if it is attached. -/
  | optional
  deriving DecidableEq, Repr

structure OptionTable where
  short : List (Char × Arity)
  /-- Long names with the keys they stand for. -/
  long : List (String × Arity × String) := []
  /-- Options may stand behind operands. -/
  mixed : Bool := true

/-- A table from its letters, each followed by `:` if it takes a value and by `::` if it may. -/
def OptionTable.letters : List Char → List (Char × Arity)
  | [] => []
  | c :: ':' :: ':' :: rest => (c, .optional) :: letters rest
  | c :: ':' :: rest => (c, .required) :: letters rest
  | c :: rest => (c, .none) :: letters rest

structure Arguments where
  /-- Keys and values of the options, in order. -/
  options : List (String × Option Bytes) := []
  operands : List Bytes := []

namespace Arguments

/-- The text about an option, `text 'option' rest`. -/
def about (text : String) (option : Bytes) (rest : String := "") : Bytes :=
  Bytes.ofString (text ++ "'") ++ option ++ Bytes.ofString ("'" ++ rest)

def readLetters (t : OptionTable) (letters : Bytes) (rest : List Bytes) :
    Except Bytes (List (String × Option Bytes) × List Bytes) :=
  match letters with
  | [] => .ok ([], rest)
  | b :: more =>
    let key := String.singleton (Char.ofNat b.toNat)
    match t.short.find? (·.1.toNat = b.toNat) with
    | none => .error (about "invalid option -- " [b])
    | some (_, .none) => (readLetters t more rest).map fun (os, rest) => ((key, none) :: os, rest)
    | some (_, .optional) => .ok ([(key, if more.isEmpty then none else some more)], rest)
    | some (_, .required) =>
      match more, rest with
      | [], value :: rest => .ok ([(key, some value)], rest)
      | [], [] => .error (about "option requires an argument -- " [b])
      | _, _ => .ok ([(key, some more)], rest)

def matching (t : OptionTable) (name : Bytes) : List (String × Arity × String) :=
  match t.long.find? fun o => Bytes.ofString o.1 = name with
  | some o => [o]
  | none => t.long.filter fun o => name.isPrefixOf (Bytes.ofString o.1)

/-- A long option without its dashes, with the arguments that follow it. -/
def readLong (t : OptionTable) (text : Bytes) (rest : List Bytes) :
    Except Bytes ((String × Option Bytes) × List Bytes) :=
  let (name, value) := Bytes.cut 0x3d text
  let found := matching t name
  let spelled (o : String) : Bytes := Bytes.ofString ("--" ++ o)
  match found with
  | [] => .error (about "unrecognized option " (Bytes.ofString "--" ++ text))
  | (long, arity, key) :: others =>
    if others.any fun o => o.2 ≠ (arity, key) then
      .error (about "option " (Bytes.ofString "--" ++ text) " is ambiguous; possibilities:" ++
        found.flatMap fun o => about " " (spelled o.1))
    else match arity, value, rest with
      | .none, some _, _ => .error (about "option " (spelled long) " doesn't allow an argument")
      | .required, none, value :: rest => .ok ((key, some value), rest)
      | .required, none, [] => .error (about "option " (spelled long) " requires an argument")
      | _, _, _ => .ok ((key, value), rest)

/-- Reads arguments, at most `n` of them. -/
def readFrom (t : OptionTable) : Nat → List Bytes → Except Bytes Arguments
  | 0, _ => .ok {}
  | _, [] => .ok {}
  | n + 1, arg :: rest =>
    match arg with
    | 0x2d :: 0x2d :: [] => .ok { operands := rest }
    | 0x2d :: 0x2d :: text =>
      match readLong t text rest with
      | .error e => .error e
      | .ok (o, rest) => (readFrom t n rest).map fun a => { a with options := o :: a.options }
    | 0x2d :: b :: letters =>
      match readLetters t (b :: letters) rest with
      | .error e => .error e
      | .ok (os, rest) => (readFrom t n rest).map fun a => { a with options := os ++ a.options }
    | _ =>
      if t.mixed then (readFrom t n rest).map fun a => { a with operands := arg :: a.operands }
      else .ok { operands := arg :: rest }

/-- Reads all arguments; the text of the complaint if they are not as they should be. -/
def read (t : OptionTable) (args : List Bytes) : Except Bytes Arguments :=
  readFrom t args.length args

variable (a : Arguments)

def has (key : String) : Bool := a.options.any (·.1 = key)

def value? (key : String) : Option Bytes :=
  (a.options.reverse.find? (·.1 = key)).bind (·.2)

def values (key : String) : List Bytes := a.options.filterMap fun o => if o.1 = key then o.2 else none

def last? (keys : List String) : Option String :=
  (a.options.reverse.find? (keys.contains ·.1)).map (·.1)

end Arguments

def OptionTable.of (short : String) (long : List (String × Arity × String) := [])
    (mixed : Bool := true) : OptionTable :=
  { short := letters short.toList, long, mixed }

/-- The arguments of a utility, which ends with `code` if they are not as they should be. -/
def Util.arguments (t : OptionTable) (args : List Bytes) (code : UInt8 := 1) : Util Arguments :=
  match Arguments.read t args with
  | .ok a => return a
  | .error text => misuse text code

/-- The index of the group that holds a word; the word may be cut short as long as it stays clear
which group is meant. -/
def Arguments.groupOf? (groups : List (List String)) (word : Bytes) : Except String Nat :=
  let spelled (exact : Bool) (name : String) : Bool :=
    if exact then Bytes.ofString name = word else word.isPrefixOf (Bytes.ofString name)
  match groups.findIdx? (·.any (spelled true)) with
  | some i => .ok i
  | none => match (groups.zipIdx.filter (·.1.any (spelled false))).map (·.2) with
    | [] => .error "invalid"
    | [i] => .ok i
    | _ => .error "ambiguous"

def Util.keyword (option : String) (groups : List (List String)) (word : Bytes) (code : UInt8 := 1) :
    Util Nat :=
  match Arguments.groupOf? groups word with
  | .ok i => return i
  | .error what => do
    complain (Bytes.ofString s!"{what} argument " ++ Quoted.plain word ++
      Bytes.ofString (" for '" ++ option ++ "'"))
    report (Bytes.ofString "Valid arguments are:\n" ++ groups.flatMap fun names =>
      Bytes.ofString ("  - " ++ ", ".intercalate (names.map fun n => "'" ++ n ++ "'") ++ "\n"))
    hint code

end JobShell
