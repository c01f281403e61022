import JobShell.Text.Printf
import JobShell.Tools.Arguments

/-!
# Sequences of numbers

`seq` prints the numbers from one to another in equal steps. Whole numbers are counted exactly, all
others as they can be held; how many places they have follows from how they were written.
-/

namespace JobShell.Sequence

open Util

structure Operand where
  value : Real
  /-- The width it is printed with when all numbers get the same. -/
  width : Int := 1
  /-- The places behind the point it was written with, if that says how many are wanted. -/
  places : Option Int := some 0

/-- The exponent written behind an `e`. -/
def exponentIn (s : Bytes) : Int :=
  (Real.exponentFront 0x65 (s.dropWhile fun b => Class.toLower b ≠ 0x65)).1

def Operand.ofDecimal (value : Real) (text : Bytes) : Operand :=
  let length : Int := text.length
  let (before, behind) := Bytes.cut 0x2e text
  let fraction : Int := ((behind.getD []).takeWhile fun b => Class.toLower b ≠ 0x65).length
  let (width, places) : Int × Option Int := match behind with
    | none => (length, if 0x70 ∈ text then none else some 0)
    | some _ =>
      (length + (if fraction = 0 then -1
        else if before.getLast?.all (!Class.isDigit ·) then 1 else 0), some fraction)
  let stem := text.takeWhile fun b => Class.toLower b ≠ 0x65
  if stem.length = text.length then { value, width, places }
  else
    let e := exponentIn text
    let places := places.map fun p => p + (if e < 0 then -e else -(min p e))
    let width := width - (length - stem.length)
    let undone : Int := if e < 0 && (behind.isNone || stem.getLast? = some 0x2e) then 1 else 0
    { value, width := width + undone + e.natAbs, places }

def operandOf (s : Bytes) : Util Operand := do
  match Real.front s with
  | some (r, []) =>
    let value := (RealFormat.extended.round r).1
    if !value.isDefined then
      misuse (Bytes.ofString "invalid 'not-a-number' argument: " ++ Quoted.plain s)
    let text := s.dropWhile fun b => Class.isSpace b || b = 0x2b
    let places : Option Int := if 0x2e ∈ text || 0x70 ∈ text then none else some 0
    if text.any (Class.toLower · = 0x78) || !value.isFinite then return { value, width := 0, places }
    else return Operand.ofDecimal value text
  | _ => misuse (Bytes.ofString "invalid floating point argument: " ++ Quoted.plain s)

/-! ## Formats -/

/-- How a number is printed: the texts around it and its conversion. -/
structure Format where
  before : Bytes := []
  spec : Printf.Spec := {}
  conversion : Char := 'f'
  behind : Bytes := []

def Format.text (f : Format) (r : Real) : Bytes :=
  f.before ++ f.spec.real .extended f.conversion r ++ f.behind

inductive FormatError where
  | noDirective
  | unfinished
  | unknown (letter : UInt8)
  | tooMany

/-- What a format has, without what it is. -/
def FormatError.message : FormatError → Bytes
  | noDirective => Bytes.ofString " has no % directive"
  | unfinished => Bytes.ofString " ends in %"
  | unknown letter => Bytes.ofString " has unknown %" ++ letter :: Bytes.ofString " directive"
  | tooMany => Bytes.ofString " has too many % directives"

/-- The text up to the next directive, with `%%` as one byte, and what follows the `%`. -/
def literalFront : Bytes → Bytes × Option Bytes
  | 0x25 :: 0x25 :: rest =>
    let (text, more) := literalFront rest
    (0x25 :: text, more)
  | 0x25 :: rest => ([], some rest)
  | b :: rest =>
    let (text, more) := literalFront rest
    (b :: text, more)
  | [] => ([], none)

def formatDialect : Printf.Dialect :=
  { hex := true, doubleQuote := true, format := .extended, emptyIsZero := false, sizes := []
    flags := Bytes.ofString "-+#0 '", strict := false }

def Format.parse (s : Bytes) : Except FormatError Format :=
  match literalFront s with
  | (_, none) => .error .noDirective
  | (before, some rest) =>
    let (spec, rest) := Printf.flags formatDialect {} rest
    let width := rest.takeWhile Class.isDigit
    let rest := rest.drop width.length
    let (precision, rest) : Option Nat × Bytes := match rest with
      | 0x2e :: more =>
        let digits := more.takeWhile Class.isDigit
        (some ((Bytes.toNat? digits).getD 0), more.drop digits.length)
      | _ => (none, rest)
    let rest := if rest.head? = some 0x4c then rest.drop 1 else rest
    match rest with
    | [] => .error .unfinished
    | c :: rest =>
      let conversion := Char.ofNat c.toNat
      if !"efgaEFGA".contains conversion then .error (.unknown c)
      else match literalFront rest with
        | (_, some _) => .error .tooMany
        | (behind, none) =>
          let spec := { spec with width := (Bytes.toNat? width).getD 0, precision }
          .ok { before, spec, conversion, behind }

/-- The format when none is given: as many places as the start and the step have. -/
def Format.usual (equalWidth : Bool) (first step last : Operand) : Format :=
  match first.places, step.places, last.places with
  | some p, some q, some r =>
    let places := max p q
    let spec : Printf.Spec := { precision := some places.toNat }
    if !equalWidth then { spec }
    else
      let firstWidth := first.width + (places - p) + (if p = 0 && places ≠ 0 then 1 else 0)
      let lastWidth := last.width + (places - r) - (if r ≠ 0 && places = 0 then 1 else 0) +
        (if r = 0 && places ≠ 0 then 1 else 0)
      { spec := { spec with zero := true, width := (max firstWidth lastWidth).toNat } }
  | _, _, _ => { conversion := 'g' }

/-! ## The sequence -/

/-- Prints texts with a separator between them, as long as `next` gives more. -/
def printAll {σ : Type} (separator : Bytes) (first : Bytes) (s : σ) (next : σ → Option (Bytes × σ)) :
    Util Unit := do
  put first
  iterate s fun s => do
    match next s with
    | none => return .inr ()
    | some (text, s) =>
      put (separator ++ text)
      if (← get).lost.isSome then close 1
      return .inl s
  put [Bytes.newline]

/-- Whole numbers from `a` on, up to `b` if that is given. -/
def countUp (separator : Bytes) (a step : Nat) (b : Option Nat) : Util Unit :=
  printAll separator (Bytes.ofNat a) a fun n =>
    let n := n + step
    if b.all (n ≤ ·) then some (Bytes.ofNat n, n) else none

/-- `first + i * step`, as it can be held. -/
def term (first step : Real) (i : Nat) : Real :=
  let hold (r : Real) := (RealFormat.extended.round r).1
  match first, step with
  | .finite s n d, .finite t m k =>
    match hold (.finite t (i * m) k) with
    | .finite u p q =>
      let v : Int := Real.signed s n * q + Real.signed u p * d
      hold (.finite (v < 0) v.natAbs (d * q))
    | r => r
  | .finite .., r => r
  | r, _ => r

/-- Numbers from `first` on. One more than reaches `last` is printed if it looks like `last` and not
like the one before. -/
def countReal (format : Format) (separator : Bytes) (first step last : Real) : Util Unit :=
  let beyond (r : Real) : Bool := r.compare last = if step.isNegative then .lt else .gt
  if beyond first then return ()
  else
    printAll separator (format.text first) (1, first, false) fun (i, before, atEnd) =>
      if atEnd then none
      else
        let r := term first step i
        if !beyond r then some (format.text r, (i + 1, r, false))
        else
          let number := format.spec.real .extended format.conversion r
          let sameAsLast : Bool := match Real.front number with
            | some (v, []) => ((RealFormat.extended.round v).1).compare last = .eq
            | _ => false
          if sameAsLast && format.text r ≠ format.text before
          then some (format.text r, (i + 1, r, true)) else none

def table : OptionTable :=
  .of "f:s:w" [("equal-width", .none, "w"), ("format", .required, "f"), ("separator", .required, "s")]
    false

def isNegative : Bytes → Bool
  | 0x2d :: d :: _ => Class.isDigit d || d = 0x2e
  | _ => false

/-- Whether the value of an option is the argument behind it. -/
def takesNext (arg : Bytes) : Bool :=
  ["-s", "-f", "-ws", "-wf"].any (Bytes.ofString · = arg) ||
    (0x3d ∉ arg && ["--s", "--f"].any fun o => Bytes.startsWith arg (Bytes.ofString o))

def isOption (arg : Bytes) : Bool :=
  arg.head? = some 0x2d && arg.length ≥ 2 && arg ≠ Bytes.ofString "--" && !isNegative arg

/-- The arguments with `--` in front of the first negative number that is not the value of an
option. -/
def markNumbers : List Bytes → List Bytes
  | [] => []
  | [arg] => if isNegative arg then [Bytes.ofString "--", arg] else [arg]
  | arg :: next :: rest =>
    if isNegative arg then Bytes.ofString "--" :: arg :: next :: rest
    else if !isOption arg then arg :: next :: rest
    else if takesNext arg then arg :: next :: markNumbers rest
    else arg :: markNumbers (next :: rest)

def isWhole (s : Bytes) : Bool := !s.isEmpty && s.all Class.isDigit

/-- The largest step with which whole numbers are counted exactly. -/
def stepLimit : Nat := 200

/-- A number without a fraction and without a sign. -/
def wholeValue? (o : Operand) : Option Nat :=
  match o.value with
  | .finite s n d => if s || o.places ≠ some 0 then none else some (n / d)
  | _ => none

/-- The sequence when all its numbers are whole: start, step, and the end unless it is infinite. -/
def wholeSequence? (first step last : Operand) : Option (Nat × Nat × Option Nat) := do
  let a ← wholeValue? first
  let s ← wholeValue? step
  if s = 0 || s > stepLimit then none
  else match last.value with
    | .infinite false => some (a, s, none)
    | _ => some (a, s, some (← wholeValue? last))

/-- The sequence when its numbers are written with digits alone. -/
def digitSequence? (operands : List Bytes) : Option (Nat × Nat × Option Nat) :=
  if !operands.all isWhole then none
  else match operands.map fun s => (Bytes.toNat? s).getD 0 with
    | [l] => some (1, 1, some l)
    | [f, l] => some (f, 1, some l)
    | [f, s, l] => if 0 < s && s ≤ stepLimit then some (f, s, some l) else none
    | _ => none

def seq (args : List Bytes) : Util UInt8 := do
  let a ← arguments table (markNumbers args)
  match a.operands with
  | [] => misuseString "missing operand"
  | _ :: _ :: _ :: extra :: _ => extraOperand extra
  | _ => pure ()
  let given ← match a.value? "f" with
    | none => pure none
    | some text => match Format.parse text with
      | .ok f => pure (some f)
      | .error e => fail (Bytes.ofString "format " ++ Quoted.plain text ++ e.message)
  if given.isSome && a.has "w" then
    misuseString "format string may not be specified when printing equal width strings"
  let separator := (a.value? "s").getD [Bytes.newline]
  let plain := given.isNone && !a.has "w" && separator.length = 1
  let exact : Util Unit ← match if plain then digitSequence? a.operands else none with
    | some (f, s, l) => pure (if l.all (f ≤ ·) then countUp separator f s l else pure ())
    | none => do
      let (first, step, last) ← match a.operands with
        | [l] => pure ({ value := .finite false 1 1 }, { value := .finite false 1 1 }, ← operandOf l)
        | [f, l] => do
          let f ← operandOf f
          pure (f, { value := .finite false 1 1 }, ← operandOf l)
        | f :: s :: l => do
          let f ← operandOf f
          let step ← operandOf s
          if step.value.compare (.finite false 0 1) = .eq then
            misuse (Bytes.ofString "invalid Zero increment value: " ++ Quoted.plain s)
          pure (f, step, ← operandOf (l.head?.getD []))
        | [] => misuseString "missing operand"
      match if plain then wholeSequence? first step last else none with
      | some (f, s, l) => pure (if l.all (f ≤ ·) then countUp separator f s l else pure ())
      | none =>
        let format := given.getD (Format.usual (a.has "w") first step last)
        pure (countReal format separator first.value step.value last.value)
  exact
  return 0

end JobShell.Sequence
