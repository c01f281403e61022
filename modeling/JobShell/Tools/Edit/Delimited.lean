import JobShell.Text.Class

/-!
# Delimited texts of editing scripts

`delimited` cuts off the text up to a delimiter, and `resolve` puts the bytes that escapes name in
their place. The expression, the replacement and plain text differ in how much they hide from the
delimiter and in what a named byte still means.
-/

namespace JobShell.Edit

inductive TextKind where
  | expression
  | replacement
  | plain
  deriving DecidableEq

inductive BracketState where
  | outside
  /-- Behind the `[`, where `^` may stand. -/
  | opened
  /-- Where a `]` stands for itself. -/
  | first
  | inside
  /-- In the name of a class, which ends with this mark and `]`. -/
  | name (mark : UInt8)
  /-- Behind the mark in a name. -/
  | nameEnd (mark : UInt8)

/-- The state behind one more byte; `ahead` is the byte behind that. -/
def BracketState.step (s : BracketState) (b : UInt8) (ahead : Option UInt8) : BracketState :=
  let opensName := b = 0x5b && (ahead = some 0x3a || ahead = some 0x2e || ahead = some 0x3d)
  let item : BracketState := if opensName then .name (ahead.getD 0) else .inside
  match s with
  | .outside => if b = 0x5b then .opened else .outside
  | .opened => if b = 0x5e then .first else item
  | .first => item
  | .inside => if b = 0x5d then .outside else item
  | .name m => if b = m && ahead = some 0x5d then .nameEnd m else .name m
  | .nameEnd _ => .inside

def BracketState.isOutside : BracketState → Bool
  | .outside => true
  | _ => false

inductive Cut where
  /-- The text, and what follows the delimiter. -/
  | found (text rest : Bytes)
  /-- A newline stands in the way; what is left starts with it. -/
  | newline (rest : Bytes)
  | missing

/-- The text up to a delimiter, collected backwards in `out`. A backslash takes the meaning of the
delimiter away and is dropped there, and before a newline; elsewhere it is kept with the byte behind
it. In an expression brackets hide the delimiter, and `\n` is a newline. -/
def delimitedFrom (delimiter : UInt8) (kind : TextKind) (state : BracketState) (out : Bytes) :
    Bytes → Cut
  | [] => .missing
  | b :: rest =>
    let inBracket := !state.isOutside
    if b = 0x0a then .newline (b :: rest)
    else if b = delimiter && !inBracket then .found out.reverse rest
    else if b = 0x5c then
      match rest with
      | [] => .missing
      | c :: rest =>
        let state := if inBracket then (state.step b (some c)).step c rest.head? else state
        if c = 0x6e && kind = .expression then
          delimitedFrom delimiter kind state (0x0a :: out) rest
        else if c = 0x0a || (c = delimiter && !(kind = .replacement && c = 0x26)) && !inBracket then
          delimitedFrom delimiter kind state (c :: out) rest
        else delimitedFrom delimiter kind state (c :: 0x5c :: out) rest
    else
      let state := if kind = .expression then state.step b rest.head? else state
      delimitedFrom delimiter kind state (b :: out) rest

def delimited (delimiter : UInt8) (kind : TextKind) (s : Bytes) : Cut :=
  delimitedFrom delimiter kind .outside [] s

/-- The byte a number of at most `most` digits names, and what follows it. -/
def numbered (base : Nat) (most : Nat) (s : Bytes) : Option (UInt8 × Bytes) :=
  let digits := (s.take most).takeWhile fun b => (Class.digitValue? b).any (· < base)
  if digits.isEmpty then none
  else
    let n := digits.foldl (fun n b => n * base + (Class.digitValue? b).getD 0) 0
    some (n.toUInt8, s.drop digits.length)

/-- The byte that an escape names, behind its backslash, and what follows it. -/
def named? : Bytes → Option (UInt8 × Bytes)
  | [] => none
  | c :: rest =>
    match Char.ofNat c.toNat with
    | 'a' => some (0x07, rest)
    | 'f' => some (0x0c, rest)
    | 'n' => some (0x0a, rest)
    | 'r' => some (0x0d, rest)
    | 't' => some (0x09, rest)
    | 'v' => some (0x0b, rest)
    | 'd' => numbered 10 3 rest
    | 'o' => numbered 8 3 rest
    | 'x' => numbered 16 2 rest
    | 'c' => rest.head?.map fun k => (Class.toUpper k ^^^ 0x40, rest.tail)
    | _ => none

/-- A named byte that would mean something in its place keeps a backslash, except in expressions. -/
def guarded (kind : TextKind) (b : UInt8) : Bytes :=
  match kind with
  | .expression => [b]
  | .replacement => if b = 0x26 || b = 0x5c then [0x5c, b] else [b]
  | .plain => if b = 0x5c then [0x5c, b] else [b]

/-- A text of at most `n` bytes with the bytes that escapes name in their place; other escapes
stay. -/
def resolveFrom (kind : TextKind) : Nat → Bytes → Bytes
  | 0, s => s
  | _, [] => []
  | n + 1, 0x5c :: rest =>
    match named? rest with
    | some (b, rest) => guarded kind b ++ resolveFrom kind n rest
    | none =>
      match rest with
      | [] => [0x5c]
      | c :: rest => 0x5c :: c :: resolveFrom kind n rest
  | n + 1, b :: rest => b :: resolveFrom kind n rest

def resolve (kind : TextKind) (s : Bytes) : Bytes := resolveFrom kind s.length s

/-- A text without its backslashes; what stands behind one is kept. -/
def unescaped : Bytes → Bytes
  | 0x5c :: c :: rest => c :: unescaped rest
  | b :: rest => b :: unescaped rest
  | [] => []

end JobShell.Edit
