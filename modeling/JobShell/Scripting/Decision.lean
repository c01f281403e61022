import JobShell.Scripting.Arithmetic
import JobShell.Scripting.State
import JobShell.Tools.Condition

/-!
# The builtin `test`

Words are decided as they are read, from left to right; nothing is left out of what `-a` and `-o`
join, so that every fault is told.
-/

namespace JobShell.Scripting.Decision

open Sh

def unaryOperators : List Char := "rwxefdcbpugkstznhOGLS".toList

def binaryOperators : List String :=
  ["=", "!=", "<", ">", "-eq", "-ne", "-gt", "-ge", "-lt", "-le", "-nt", "-ot", "-ef"]

inductive Role where
  | unary (op : Char)
  | binary (op : String)
  | not
  | and
  | or
  | open_
  | close
  | operand
  deriving DecidableEq

def role (w : Bytes) : Role :=
  match binaryOperators.find? (Bytes.ofString · = w) with
  | some o => .binary o
  | none =>
    if w = [0x21] then .not
    else if w = [0x28] then .open_
    else if w = [0x29] then .close
    else if w = Bytes.ofString "-a" then .and
    else if w = Bytes.ofString "-o" then .or
    else match w with
      | [0x2d, c] => (unaryOperators.find? (·.toNat = c.toNat)).elim .operand .unary
      | _ => .operand

/-- What a word is where the words `ws` start; `none` if there is none. An operator without what it
needs is an operand. -/
def lexed (ws : List Bytes) : Option Role :=
  match ws with
  | [] => none
  | w :: rest =>
    match role w, rest with
    | .unary op, [_] => some (.unary op)
    | .unary _, [] => some .operand
    | .unary op, next :: _ =>
      match role next with
      | .binary _ => some .operand
      | _ => some (.unary op)
    | .open_, [] => some .operand
    | r, _ => some r

def complain {α : Type} (op : Bytes) (text : String) : Sh α :=
  if op.isEmpty then failString text else fail (about op text)

def integer (w : Bytes) : Sh Int :=
  match Arithmetic.ofWord 10 w with
  | .ok v => return v
  | .error _ => badNumber w

def compare (op : String) (a b : Bytes) : Sh Bool := do
  if Condition.numberOperators.contains op then
    let x ← integer a
    let y ← integer b
    prog (Condition.compareNumbers op x y).eval
  else if Condition.fileOperators.contains op then
    -- An age is compared only if both files are there.
    let both := (← call (.stat a true)).toBool && (← call (.stat b true)).toBool
    if both then prog (Condition.compareFiles op a b).eval else return false
  else prog (Condition.compareText op a b).eval

/-- Decides an operator before an operand. A descriptor is never a terminal. -/
def single (op : Char) (a : Bytes) : Sh Bool := do
  if op = 't' then
    let _ ← integer a
    return false
  else if op = 'S' || op = 'b' then return false
  else prog (Condition.unary op a).eval

-- Each of the following decides what starts with the words `ws`, the first of which counts as `r`
-- says, and gives the words from the last one on that belongs to it.
mutual

def disjunction : Nat → Option Role → List Bytes → Sh (Bool × List Bytes)
  | 0, _, ws => return (false, ws)
  | n + 1, r, ws => do
    let (a, ws) ← conjunction n r ws
    if lexed ws.tail = some .or then
      let more := ws.drop 2
      let (b, ws) ← disjunction n (lexed more) more
      return (a || b, ws)
    else return (a, ws)

def conjunction : Nat → Option Role → List Bytes → Sh (Bool × List Bytes)
  | 0, _, ws => return (false, ws)
  | n + 1, r, ws => do
    let (a, ws) ← negation n r ws
    if lexed ws.tail = some .and then
      let more := ws.drop 2
      let (b, ws) ← conjunction n (lexed more) more
      return (a && b, ws)
    else return (a, ws)

def negation : Nat → Option Role → List Bytes → Sh (Bool × List Bytes)
  | 0, _, ws => return (false, ws)
  | n + 1, r, ws => do
    if r = some .not then
      let next := lexed ws.tail
      let (a, ws) ← negation n next (if next.isSome then ws.tail else ws)
      return (!a, ws)
    else primary n r ws

def primary : Nat → Option Role → List Bytes → Sh (Bool × List Bytes)
  | 0, _, ws => return (false, ws)
  | n + 1, r, ws => do
    match r with
    | none => return (false, ws)
    | some .open_ =>
      let ws := ws.tail
      let next := lexed ws
      if next = some .close then return (false, ws)
      let (a, ws) ← disjunction n next ws
      let ws := ws.tail
      unless lexed ws = some .close do failString "closing paren expected"
      return (a, ws)
    | some (.unary op) =>
      match ws with
      | _ :: a :: rest => return (← single op a, a :: rest)
      | w :: [] => complain w "argument expected"
      | [] => return (false, ws)
    | _ =>
      match ws, lexed ws.tail with
      | a :: w :: rest, some (.binary op) =>
        match rest with
        | [] => complain w "argument expected"
        | b :: more => return (← compare op a b, b :: more)
      | w :: _, _ => return (!w.isEmpty, ws)
      | [], _ => return (false, ws)

end

/-- Decides words; `first` overrides what the first one counts as. -/
def decideFrom (first : Option Role) (ws : List Bytes) : Sh Bool := do
  let (b, rest) ← disjunction (8 * ws.length + 8) first ws
  match rest with
  | w :: _ :: _ => complain w "unexpected operator"
  | _ => return b

/-- Decides the words of `test`; up to four of them are told apart by their number. -/
def decide : Nat → List Bytes → Sh Bool
  | 0, _ => return false
  | n + 1, ws => do
    let small (ws : List Bytes) : Sh Bool :=
      if ws.head? = some [0x28] && ws.getLast? = some [0x29] then
        let inner := (ws.drop 1).dropLast
        decideFrom (lexed inner) inner
      else if ws.head? = some [0x21] then return !(← decide n ws.tail)
      else decideFrom (lexed ws) ws
    match ws with
    | [] => return false
    | [_, w, _] =>
      match role w with
      | .binary _ => decideFrom (some .operand) ws
      | _ => small ws
    | [_, _, _, _] => small ws
    | _ => decideFrom (lexed ws) ws

def codeFor (b : Bool) : Nat := if b then 0 else 1

def test (args : List Bytes) : Sh Nat := return codeFor (← decide (args.length + 1) args)

def bracket (args : List Bytes) : Sh Nat := do
  unless args.getLast? = some [0x5d] do failString "missing ]"
  test args.dropLast

end JobShell.Scripting.Decision
