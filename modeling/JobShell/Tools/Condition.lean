import JobShell.Text.Class
import JobShell.Tools.Arguments

/-!
# Conditions on texts, numbers and files

`Condition` is what `test` decides. Reading one from words is the work of the utility, which goes by
their number; the command interpreter has a reader of its own.
-/

namespace JobShell

inductive Condition where
  | const (b : Bool)
  | not (c : Condition)
  | and (a b : Condition)
  | or (a b : Condition)
  /-- An operator on a text or the name of a file. -/
  | unary (op : Char) (arg : Bytes)
  | compareText (op : String) (a b : Bytes)
  | compareNumbers (op : String) (a b : Int)
  | compareFiles (op : String) (a b : Bytes)

namespace Condition

def unaryOperators : List Char := "bcdefghkLnOGprsStuwxzN".toList

def textOperators : List String := ["=", "==", "!=", "<", ">"]

def numberOperators : List String := ["-eq", "-ne", "-lt", "-le", "-gt", "-ge"]

def fileOperators : List String := ["-nt", "-ot", "-ef"]

def binary? (w : Bytes) : Option String :=
  (textOperators ++ numberOperators ++ fileOperators).find? (Bytes.ofString · = w)

def unary? : Bytes → Option Char
  | [0x2d, c] => unaryOperators.find? (·.toNat = c.toNat)
  | _ => none

def number? (s : Bytes) : Option Int :=
  let s := s.dropWhile Class.isSpace
  Bytes.toInt? (s.reverse.dropWhile Class.isSpace).reverse

def holds (op : String) (o : Ordering) : Bool :=
  match op with
  | "=" | "==" | "-eq" => o = .eq
  | "!=" | "-ne" => o ≠ .eq
  | "<" | "-lt" => o = .lt
  | ">" | "-gt" => o = .gt
  | "-le" => o ≠ .gt
  | "-ge" => o ≠ .lt
  | _ => false

/-- What is known of a file, if it is there. -/
def look (path : Bytes) (follow : Bool := true) : Prog (Option FileInfo) := do
  return (← Prog.call (.stat path follow)).toOption

def evalUnary (op : Char) (arg : Bytes) : Prog Bool := do
  let may (want : Nat) : Prog Bool := return (← Prog.call (.access arg want)).toBool
  let is (p : FileInfo → Bool) : Prog Bool := return (← look arg).any p
  match op with
  | 'n' => return !arg.isEmpty
  | 'z' => return arg.isEmpty
  | 'e' => return (← look arg).isSome
  | 'f' => is (·.kind == .file)
  | 'd' => is (·.kind == .directory)
  | 'c' => is (·.kind == .device)
  | 'p' => is (·.kind == .pipe)
  | 'h' | 'L' => return (← look arg false).any (·.kind == .link)
  | 's' => is (·.size > 0)
  | 'r' => may 4
  | 'w' => may 2
  | 'x' => may 1
  | 'u' => is (·.mode &&& 0o4000 ≠ 0)
  | 'g' => is (·.mode &&& 0o2000 ≠ 0)
  | 'k' => is (·.mode &&& 0o1000 ≠ 0)
  | 'O' | 'G' => is (·.owner ≠ 0)
  -- Nothing says when a file was read last.
  | 'N' => is fun _ => true
  | _ => return false

def eval : Condition → Prog Bool
  | const b => return b
  | not c => return !(← eval c)
  | and a b => do
    let x ← eval a
    let y ← eval b
    return x && y
  | or a b => do
    let x ← eval a
    let y ← eval b
    return x || y
  | unary op arg => evalUnary op arg
  | compareText op a b => return holds op (Bytes.compare a b)
  | compareNumbers op a b => return holds op (compare a b)
  | compareFiles op a b => do
    let x ← look a
    let y ← look b
    match op, x, y with
    | "-nt", some x, some y => return x.modified > y.modified
    | "-nt", some _, none => return true
    | "-ot", some x, some y => return x.modified < y.modified
    | "-ot", none, some _ => return true
    | "-ef", some x, some y => return x.ino = y.ino
    | _, _, _ => return false

/-! ## Reading the words of `test` -/

abbrev Parse (α : Type) : Type := Except Bytes α

def integer (s : Bytes) : Parse Int :=
  match number? s with
  | some n => .ok n
  | none => .error (Bytes.ofString "invalid integer " ++ Quoted.plain s)

def ofBinary (op : String) (a b : Bytes) : Parse Condition :=
  if numberOperators.contains op then return .compareNumbers op (← integer a) (← integer b)
  else if fileOperators.contains op then .ok (.compareFiles op a b)
  else .ok (.compareText op a b)

/-- A condition on one operand; `-t` asks for the number of a descriptor. -/
def ofUnary (op : Char) (arg : Bytes) : Parse Condition := do
  if op = 't' then let _ ← integer arg
  return .unary op arg

def isBang (w : Bytes) : Bool := w = [0x21]
def isOpen (w : Bytes) : Bool := w = [0x28]
def isClose (w : Bytes) : Bool := w = [0x29]

def ofTwo (a b : Bytes) : Parse Condition :=
  if isBang a then .ok (.const b.isEmpty)
  else match unary? a with
    | some op => ofUnary op b
    | none =>
      if a.head? = some 0x2d && a.length = 2 then
        .error (Quoted.plain a ++ Bytes.ofString ": unary operator expected")
      else .error (Bytes.ofString "missing argument after " ++ Quoted.plain b)

def ofThree (a b c : Bytes) : Parse Condition :=
  match binary? b with
  | some op => ofBinary op a c
  | none =>
    if isBang a then return .not (← ofTwo b c)
    else if isOpen a && isClose c then .ok (.const (!b.isEmpty))
    else if b = Bytes.ofString "-a" then .ok (.and (.const (!a.isEmpty)) (.const (!c.isEmpty)))
    else if b = Bytes.ofString "-o" then .ok (.or (.const (!a.isEmpty)) (.const (!c.isEmpty)))
    else .error (Quoted.plain b ++ Bytes.ofString ": binary operator expected")

/-- A comparison with the length of a text, which `-l` stands for, and the words behind it. -/
def measured (w : Bytes) : List Bytes → Option (Parse Condition × List Bytes)
  | a :: op :: b :: more =>
    match numberOperators.find? (Bytes.ofString · = op) with
    | some op =>
      if w = Bytes.ofString "-l" then
        some ((integer b).map fun n => .compareNumbers op (Int.ofNat a.length) n, more)
      else none
    | none => none
  | _ => none

mutual

/-- A term of a longer list of words, at most `n` deep. -/
def term : Nat → List Bytes → Parse (Condition × List Bytes)
  | 0, _ => .error (Bytes.ofString "argument expected")
  | n + 1, ws =>
    match ws with
    | [] => .error (Bytes.ofString "argument expected")
    | w :: rest =>
      if isBang w then do
        let (c, rest) ← term n rest
        return (.not c, rest)
      else if isOpen w then do
        let (c, rest) ← disjunction n rest
        match rest with
        | close :: rest =>
          if isClose close then return (c, rest)
          else .error (Bytes.ofString "')' expected, found " ++ close)
        | [] => .error (Bytes.ofString "')' expected")
      else match measured w rest with
        | some (c, rest) => do return (← c, rest)
        | none =>
          match rest with
          | op :: b :: more =>
            match binary? op with
            | some op => do return (← ofBinary op w b, more)
            | none => single w rest
          | _ => single w rest

def single (w : Bytes) (rest : List Bytes) : Parse (Condition × List Bytes) :=
  match unary? w, rest with
  | some op, arg :: more => do return (← ofUnary op arg, more)
  | _, _ => .ok (.const (!w.isEmpty), rest)

/-- Terms joined by `-a`. -/
def conjunction : Nat → List Bytes → Parse (Condition × List Bytes)
  | 0, _ => .error (Bytes.ofString "argument expected")
  | n + 1, ws => do
    let (a, rest) ← term n ws
    match rest with
    | op :: more =>
      if op = Bytes.ofString "-a" then
        let (b, rest) ← conjunction n more
        return (.and a b, rest)
      else return (a, rest)
    | [] => return (a, [])

/-- Conjunctions joined by `-o`. -/
def disjunction : Nat → List Bytes → Parse (Condition × List Bytes)
  | 0, _ => .error (Bytes.ofString "argument expected")
  | n + 1, ws => do
    let (a, rest) ← conjunction n ws
    match rest with
    | op :: more =>
      if op = Bytes.ofString "-o" then
        let (b, rest) ← disjunction n more
        return (.or a b, rest)
      else return (a, rest)
    | [] => return (a, [])

end

def ofMany (ws : List Bytes) : Parse Condition := do
  match ← disjunction (3 * ws.length + 3) ws with
  | (c, []) => return c
  | (_, w :: _) => .error (Bytes.ofString "extra argument " ++ Quoted.plain w)

/-- The condition of the words of `test`. -/
def ofWords : List Bytes → Parse Condition
  | [] => .ok (.const false)
  | [a] => .ok (.const (!a.isEmpty))
  | [a, b] => ofTwo a b
  | [a, b, c] => ofThree a b c
  | [a, b, c, d] =>
    if isBang a then do return .not (← ofThree b c d)
    else if isOpen a && isClose d then ofTwo b c
    else ofMany [a, b, c, d]
  | ws => ofMany ws

end Condition

open Util in
def Condition.decide (ws : List Bytes) : Util UInt8 := do
  match Condition.ofWords ws with
  | .error text => fail text 2
  | .ok c => return if ← StateT.lift c.eval then 0 else 1

/-- The utility `test`. -/
def Condition.test (args : List Bytes) : Util UInt8 := Condition.decide args

open Util in
/-- The utility `[`. -/
def Condition.bracket (args : List Bytes) : Util UInt8 := do
  if args.getLast? = some [0x5d] then Condition.decide args.dropLast
  else failString "missing ']'" 2

end JobShell
