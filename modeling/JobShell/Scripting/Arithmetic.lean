import JobShell.Scripting.Variables

/-!
# Arithmetic

Expressions on 64-bit numbers with variables. An expression is evaluated while it is read, so that
the first fault in the order of evaluation is the one told. What `&&`, `||` and `?` leave out is read
without being evaluated.
-/

namespace JobShell.Scripting.Arithmetic

inductive Fault where
  /-- The expression itself. -/
  | expression (text : String)
  /-- A word that should be a number. -/
  | number (s : Bytes)
  | readOnly (name : Bytes)
  deriving DecidableEq, Repr

/-! ## Numbers in words -/

/-- The number at the front of a text, if there is one, and what follows. With base 0, digits after
`0x` are hexadecimal and digits after `0` octal. -/
def numberFront (base : Nat) (s : Bytes) : Option (Int × Bytes) :=
  let t := s.dropWhile Class.isSpace
  let (negative, t) := match t with
    | 0x2d :: rest => (true, rest)
    | 0x2b :: rest => (false, rest)
    | t => (false, t)
  let (base, t) : Nat × Bytes :=
    if base ≠ 0 then (base, t)
    else match t with
      | 0x30 :: x :: d :: rest =>
        if (x = 0x78 || x = 0x58) && Class.isXdigit d then (16, d :: rest) else (8, t)
      | 0x30 :: _ => (8, t)
      | _ => (10, t)
  let digits := t.takeWhile fun b => (Class.digitValue? b).any (· < base)
  if digits.isEmpty then none
  else
    let v : Nat := digits.foldl (fun n b => n * base + (Class.digitValue? b).getD 0) 0
    some (if negative then -(v : Int) else v, t.drop digits.length)

def least : Int := -(Nat.pow 2 63 : Int)
def greatest : Int := (Nat.pow 2 63 : Int) - 1

/-- The number a word is, blanks around it apart. With base 0, a blank word is 0. -/
def ofWord (base : Nat) (s : Bytes) : Except Fault Int :=
  match numberFront base s with
  | some (v, rest) =>
    if v < least || v > greatest || rest.any (!Class.isSpace ·) then .error (.number s) else .ok v
  | none => if base = 0 && s.all Class.isSpace then .ok 0 else .error (.number s)

/-! ## Tokens -/

inductive Token where
  | number (v : Int64)
  | name (s : Bytes)
  | op (s : String)
  | other
  | finish
  deriving DecidableEq, Repr

def operators : List String :=
  ["<<=", ">>=", "<<", ">>", "<=", ">=", "==", "!=", "&&", "||", "+=", "-=", "*=", "/=", "%=", "&=", "|=",
   "^=", "<", ">", "=", "!", "&", "|", "+", "-", "*", "/", "%", "^", "~", "?", ":", "(", ")"]

def clamp (v : Int) : Int64 := Int64.ofInt (max least (min greatest v))

/-- The tokens of a text of at most `n` bytes. -/
def tokens : Nat → Bytes → List Token
  | 0, _ => []
  | _, [] => []
  | n + 1, b :: rest =>
    if b = 0x20 || b = 0x09 || b = 0x0a then tokens n rest
    else if Class.isDigit b then
      match numberFront 0 (b :: rest) with
      | some (v, rest) => .number (clamp v) :: tokens n rest
      | none => .other :: tokens n rest
    else if Name.isStart b then
      let name := (b :: rest).takeWhile Name.isByte
      .name name :: tokens n ((b :: rest).drop name.length)
    else match operators.find? fun o => (Bytes.ofString o).isPrefixOf (b :: rest) with
      | some o => .op o :: tokens n ((b :: rest).drop o.length)
      | none => [.other]

/-! ## Evaluation -/

structure Work where
  tokens : List Token
  vars : Variables

abbrev Eval (α : Type) : Type := StateT Work (Except Fault) α

def peek : Eval Token := return (← get).tokens.headD .finish

def advance : Eval Unit := modify fun w => { w with tokens := w.tokens.tail }

def fault {α : Type} (text : String) : Eval α := throw (.expression text)

/-- The number a variable holds; none and an empty one hold 0. -/
def lookUp (name : Bytes) : Eval Int64 := do
  match ofWord 0 (((← get).vars.value? name).getD []) with
  | .ok v => return Int64.ofInt v
  | .error e => throw e

def store (name : Bytes) (v : Int64) : Eval Int64 := do
  if (← get).vars.isReadOnly name then throw (.readOnly name)
  modify fun w => { w with vars := w.vars.assign name (Bytes.ofInt v.toInt) }
  return v

def ofBool (b : Bool) : Int64 := if b then 1 else 0

/-- How tightly an operator between operands binds; a small number binds more tightly. -/
def rank? : Token → Option (String × Nat)
  | .op o =>
    let ranks : List (List String) :=
      [["*", "/", "%"], ["+", "-"], ["<<", ">>"], ["<", "<=", ">", ">="], ["==", "!="], ["&"], ["^"], ["|"]]
    (ranks.findIdx? (·.contains o)).map (o, ·)
  | _ => none

def apply (o : String) (a b : Int64) : Eval Int64 :=
  match o with
  | "*" => return a * b
  | "/" => if b = 0 then fault "division by zero" else return a / b
  | "%" => if b = 0 then fault "division by zero" else return a % b
  | "+" => return a + b
  | "-" => return a - b
  | "<<" => return a <<< b
  | ">>" => return a >>> b
  | "<" => return ofBool (a < b)
  | "<=" => return ofBool (a ≤ b)
  | ">" => return ofBool (b < a)
  | ">=" => return ofBool (b ≤ a)
  | "==" => return ofBool (a = b)
  | "!=" => return ofBool (a ≠ b)
  | "&" => return a &&& b
  | "^" => return a ^^^ b
  | _ => return a ||| b

/-- The operator that an assignment combines with, if the token assigns. -/
def assigning? : Token → Option String
  | .op "=" => some ""
  | .op o =>
    if ["+=", "-=", "*=", "/=", "%=", "<<=", ">>=", "&=", "|=", "^="].contains o then
      some (String.ofList o.toList.dropLast)
    else none
  | _ => none

mutual

/-- An assignment or a choice; `skip` reads without evaluating. -/
def assignment : Nat → Bool → Eval Int64
  | 0, _ => fault "expecting primary"
  | n + 1, skip => do
    let w ← get
    match w.tokens with
    | .name x :: t :: rest =>
      match assigning? t with
      | some o =>
        set { w with tokens := rest }
        let v ← assignment n skip
        if skip then return v
        else if o.isEmpty then store x v
        else store x (← apply o (← lookUp x) v)
      | none => conditional n skip
    | _ => conditional n skip

def conditional : Nat → Bool → Eval Int64
  | 0, _ => fault "expecting primary"
  | n + 1, skip => do
    let a ← disjunction n skip
    if (← peek) = .op "?" then
      advance
      let b ← assignment n (skip || a = 0)
      unless (← peek) = .op ":" do fault "expecting ':'"
      advance
      let c ← conditional n (skip || a ≠ 0)
      return if a ≠ 0 then b else c
    else return a

def disjunction : Nat → Bool → Eval Int64
  | 0, _ => fault "expecting primary"
  | n + 1, skip => do
    let a ← conjunction n skip
    if (← peek) = .op "||" then
      advance
      let b ← disjunction n (skip || a ≠ 0)
      return ofBool (a ≠ 0 || b ≠ 0)
    else return a

def conjunction : Nat → Bool → Eval Int64
  | 0, _ => fault "expecting primary"
  | n + 1, skip => do
    let a ← binary n skip
    if (← peek) = .op "&&" then
      advance
      let b ← conjunction n (skip || a = 0)
      return ofBool (a ≠ 0 && b ≠ 0)
    else return a

def binary : Nat → Bool → Eval Int64
  | 0, _ => fault "expecting primary"
  | n + 1, skip => do climb n skip 8 (← primary n skip)

/-- Goes on behind an operand with operators that bind more tightly than `limit`. -/
def climb : Nat → Bool → Nat → Int64 → Eval Int64
  | 0, _, _, _ => fault "expecting primary"
  | n + 1, skip, limit, a => do
    match rank? (← peek) with
    | none => return a
    | some (o, r) =>
      if r ≥ limit then return a
      advance
      let b ← climb n skip r (← primary n skip)
      climb n skip limit (← if skip then pure b else apply o a b)

def primary : Nat → Bool → Eval Int64
  | 0, _ => fault "expecting primary"
  | n + 1, skip => do
    let t ← peek
    advance
    match t with
    | .number v => return v
    | .name x => if skip then return 0 else lookUp x
    | .op "(" =>
      let v ← assignment n skip
      unless (← peek) = .op ")" do fault "expecting ')'"
      advance
      return v
    | .op "+" => primary n skip
    | .op "-" => return -(← primary n skip)
    | .op "!" => return ofBool ((← primary n skip) = 0)
    | .op "~" => return ~~~(← primary n skip)
    | _ => fault "expecting primary"

end

def evaluate (vars : Variables) (s : Bytes) : Except Fault (Int64 × Variables) := do
  let ts := tokens (s.length + 1) s
  let whole : Eval Int64 := do
    let v ← assignment (16 * ts.length + 16) false
    unless (← peek) = .finish do fault "expecting EOF"
    return v
  let (v, w) ← whole.run { tokens := ts, vars }
  return (v, w.vars)

end JobShell.Scripting.Arithmetic
