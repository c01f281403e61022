import JobShell.Text.Class
import JobShell.Tools.Arguments

/-!
# Translation of bytes

`tr` replaces, deletes and squeezes bytes by sets. A set is written as bytes, ranges, classes in
brackets and repetitions; `Piece` is one of these.
-/

namespace JobShell.Translate

open Util

inductive Piece where
  | one (b : UInt8)
  | range (lo hi : UInt8)
  | ofClass (name : Bytes) (member : UInt8 → Bool)
  | equivalent (b : UInt8)
  /-- A byte repeated so many times; 0 fills the set up. -/
  | repeated (b : UInt8) (n : Nat)

/-- A byte of a written set; whether a backslash stood before it. -/
structure Written where
  byte : UInt8
  escaped : Bool
  deriving DecidableEq

def ambiguous (digits : Bytes) : Bytes :=
  Bytes.ofString "warning: the ambiguous octal escape \\" ++ digits.take 3 ++
    Bytes.ofString " is being\n\tinterpreted as the 2-byte sequence \\0" ++ digits.take 2 ++
    Bytes.ofString ", " ++ (digits.drop 2).take 1

/-- A set with its escapes resolved, and the warnings about them; at most `n` bytes. -/
def unescape : Nat → Bytes → List Written × List Bytes
  | 0, _ => ([], [])
  | _, [] => ([], [])
  | _, [0x5c] =>
    ([⟨0x5c, false⟩],
      [Bytes.ofString "warning: an unescaped backslash at end of string is not portable"])
  | n + 1, 0x5c :: c :: rest =>
    if 0x30 ≤ c && c ≤ 0x37 then
      let (v, tail) := Class.octalFront 3 0 (c :: rest)
      if v ≤ 255 then
        let (more, warnings) := unescape n tail
        (⟨v.toUInt8, true⟩ :: more, warnings)
      else
        let (v, tail) := Class.octalFront 2 0 (c :: rest)
        let (more, warnings) := unescape n tail
        (⟨v.toUInt8, true⟩ :: more, ambiguous (c :: rest) :: warnings)
    else
      let b : UInt8 := match Char.ofNat c.toNat with
        | 'a' => 7
        | 'b' => 8
        | 'f' => 12
        | 'n' => 10
        | 'r' => 13
        | 't' => 9
        | 'v' => 11
        | _ => c
      let (more, warnings) := unescape n rest
      (⟨b, true⟩ :: more, warnings)
  | n + 1, b :: rest =>
    let (more, warnings) := unescape n rest
    (⟨b, false⟩ :: more, warnings)

/-- Splits at the first plain `mark]`. -/
def untilClose (mark : UInt8) : List Written → Option (Bytes × List Written)
  | x :: y :: rest =>
    if x = ⟨mark, false⟩ && y = ⟨0x5d, false⟩ then some ([], rest)
    else (untilClose mark (y :: rest)).map fun (t, r) => (x.byte :: t, r)
  | _ => none

inductive SetError where
  | badClass (name : Bytes)
  | backwards (lo hi : UInt8)
  | badRepeat (text : Bytes)
  | emptyClass
  | emptyEquivalence
  | longEquivalence (text : Bytes)

def printable (b : UInt8) : Bytes :=
  if b = 0x5c then [0x5c, 0x5c]
  else match Quoted.escape? b with
    | some e => 0x5c :: e
    | none => [b]

def SetError.message : SetError → Bytes
  | badClass name => Bytes.ofString "invalid character class " ++
      Quoted.plain (name.flatMap printable)
  | backwards lo hi => Bytes.ofString "range-endpoints of '" ++ printable lo ++ 0x2d :: printable hi ++
      Bytes.ofString "' are in reverse collating sequence order"
  | badRepeat text => Bytes.ofString "invalid repeat count " ++
      Quoted.plain (text.flatMap printable) ++ Bytes.ofString " in [c*n] construct"
  | emptyClass => Bytes.ofString "missing character class name '[::]'"
  | emptyEquivalence => Bytes.ofString "missing equivalence class character '[==]'"
  | longEquivalence text => text.flatMap printable ++
      Bytes.ofString ": equivalence class operand must be a single character"

/-- A class or an equivalence class behind its bracket, and what follows it; none if it is not
closed. -/
def classFront? : List Written → Option (Except SetError Piece × List Written)
  | ⟨0x3a, false⟩ :: rest =>
    (untilClose 0x3a rest).map fun (name, rest) =>
      (if name.isEmpty then .error .emptyClass
       else match Class.ofName? name with
        | some p => .ok (.ofClass name p)
        | none => .error (.badClass name), rest)
  | ⟨0x3d, false⟩ :: rest =>
    (untilClose 0x3d rest).map fun (text, rest) =>
      (match text with
        | [] => .error .emptyEquivalence
        | [c] => .ok (.equivalent c)
        | _ => .error (.longEquivalence text), rest)
  | _ => none

/-- A repetition behind its bracket, and what follows it; none if it is no repetition. -/
def repeatFront? : List Written → Option (Except SetError Piece × List Written)
  | c :: ⟨0x2a, false⟩ :: rest =>
    let inside := rest.takeWhile fun w => !w.escaped && w.byte ≠ 0x5d
    match rest.drop inside.length with
    | ⟨0x5d, false⟩ :: rest =>
      let text := inside.map (·.byte)
      let octal := text.head? = some 0x30
      let value := if octal then (Class.octalFront text.length 0 text).1 else (Bytes.toNat? text).getD 0
      let digits := text.all fun b => if octal then 0x30 ≤ b && b ≤ 0x37 else Class.isDigit b
      some (if digits && value < Nat.pow 2 63 then .ok (.repeated c.byte value) else .error (.badRepeat text),
        rest)
    | _ => none
  | _ => none

/-- Whether a repetition count and a closing bracket follow. -/
def startsCount : List Written → Bool
  | ⟨0x2a, false⟩ :: rest =>
    match rest.dropWhile fun w => !w.escaped && Class.isDigit w.byte with
    | ⟨0x5d, false⟩ :: _ => true
    | _ => false
  | _ => false

/-- A construct in brackets at the front, and what follows it. -/
def bracketFront? (s : List Written) : Option (Except SetError Piece × List Written) :=
  match s with
  | ⟨0x5b, false⟩ :: rest =>
    match classFront? rest with
    | some (.error e, left) =>
      if startsCount (rest.drop 1) then (repeatFront? rest).or (some (.error e, left))
      else some (.error e, left)
    | some found => some found
    | none => repeatFront? rest
  | _ => none

/-- The pieces of a set, at most `n`. The last two bytes of a set start nothing. -/
def pieces : Nat → List Written → Except SetError (List Piece)
  | 0, _ => .ok []
  | n + 1, s =>
    match s with
    | a :: b :: c :: rest =>
      match bracketFront? s with
      | some (.error e, _) => .error e
      | some (.ok p, rest) => (pieces n rest).map (p :: ·)
      | none =>
        if b = ⟨0x2d, false⟩ then
          if c.byte < a.byte then .error (.backwards a.byte c.byte)
          else (pieces n rest).map (Piece.range a.byte c.byte :: ·)
        else (pieces n (b :: c :: rest)).map (Piece.one a.byte :: ·)
    | s => .ok (s.map fun w => Piece.one w.byte)

/-! ## Sets -/

def bytesBetween (lo hi : UInt8) : Bytes :=
  (List.range (hi.toNat + 1 - lo.toNat)).map fun i => (lo.toNat + i).toUInt8

def allBytes : Bytes := bytesBetween 0 255

namespace Piece

def length : Piece → Nat
  | one _ | equivalent _ => 1
  | range lo hi => hi.toNat + 1 - lo.toNat
  | ofClass _ p => (allBytes.filter p).length
  | repeated _ n => n

/-- The bytes of a piece; a repetition is no longer than any set it is matched with. -/
def bytes (limit : Nat) : Piece → Bytes
  | one b | equivalent b => [b]
  | range lo hi => bytesBetween lo hi
  | ofClass _ p => allBytes.filter p
  | repeated b n => Bytes.fill b (min n limit)

def isFiller : Piece → Bool
  | repeated _ 0 => true
  | _ => false

def isClass : Piece → Bool
  | ofClass .. => true
  | _ => false

def isCase : Piece → Bool
  | ofClass name _ => name = Bytes.ofString "lower" || name = Bytes.ofString "upper"
  | _ => false

def isEquivalence : Piece → Bool
  | equivalent _ => true
  | _ => false

def last? : Piece → Option UInt8
  | one b | equivalent b | repeated b _ => some b
  | range _ hi => some hi
  | ofClass .. => none

end Piece

def sizeLimit : Nat := 65536

def lengthOf (ps : List Piece) : Nat := ps.foldl (fun n p => n + p.length) 0

def bytesOf (ps : List Piece) : Bytes := ps.flatMap (·.bytes sizeLimit)

/-- A set with the repetition without a count made as long as it takes to reach a length. -/
def fillUp (length : Nat) (ps : List Piece) : List Piece :=
  let missing := length - lengthOf ps
  ps.map fun
    | .repeated b 0 => .repeated b missing
    | p => p

/-- Whether each class of letters of a case in the second set stands against one in the first. -/
def aligned (ps1 ps2 : List Piece) : Bool :=
  let starts (ps : List Piece) : List (Nat × Piece) :=
    (ps.foldl (fun (at_, out) p => (at_ + p.length, (at_, p) :: out)) (0, [])).2.reverse
  (starts ps2).all fun (i, p) => !p.isCase || (starts ps1).any fun (j, q) => i = j && q.isCase

/-- The sets of the operands and what is to be done with them. -/
structure Task where
  complement : Bool
  delete : Bool
  squeeze : Bool
  truncate : Bool
  first : List Piece
  second : Option (List Piece)

namespace Task

def translating (t : Task) : Bool := t.second.isSome && !t.delete

def firstBytes (t : Task) : Bytes :=
  let bytes := bytesOf t.first
  if t.complement then allBytes.filter (· ∉ bytes) else bytes

/-- Why the sets do not suit the task. -/
def complaint? (t : Task) : Option String :=
  let ps2 := t.second.getD []
  let length1 := if t.complement then t.firstBytes.length else lengthOf t.first
  let filled := fillUp length1 ps2
  let length2 := lengthOf filled
  if t.first.any (·.isFiller) then some "the [c*] repeat construct may not appear in string1"
  else if (ps2.filter (·.isFiller)).length > 1 then
    some "only one [c*] repeat construct may appear in string2"
  else if !t.translating then
    if ps2.any (·.isFiller) then
      some "the [c*] construct may appear in string2 only when translating"
    else none
  else if ps2.any (·.isEquivalence) then
    some "[=c=] expressions may not appear in string2 when translating"
  else if ps2.any fun p => p.isClass && !p.isCase then
    some "when translating, the only character classes that may appear in\nstring2 are 'upper' and 'lower'"
  else if !t.complement && !aligned t.first filled then
    some "misaligned [:upper:] and/or [:lower:] construct"
  else if length1 > length2 && !t.truncate && length2 = 0 then
    some "when not truncating set1, string2 must be non-empty"
  else if length1 > length2 && !t.truncate && (filled.getLast?.any fun p => p.last?.isNone) then
    some "when translating with string1 longer than string2,\nthe latter string must not end with a character class"
  else if t.complement && t.first.any (·.isClass) then
    let bytes := bytesOf filled
    let reached := if t.truncate then length2 = length1 else length2 ≤ length1
    if reached && bytes.eraseDups.length ≤ 1 then none
    else some "when translating with complemented character classes,\nstring2 must map all characters in the domain to one"
  else none

/-- The bytes of the second set, as many as the first has unless that is cut short. -/
def secondBytes (t : Task) : Bytes :=
  let first := t.firstBytes
  let filled := fillUp first.length (t.second.getD [])
  let bytes := bytesOf filled
  if !t.translating || t.truncate then bytes
  else match filled.getLast?.bind (·.last?) with
    | some b => bytes ++ Bytes.fill b (first.length - bytes.length)
    | none => bytes

end Task

def imageTable (pairs : List (UInt8 × UInt8)) : Array UInt8 :=
  pairs.foldl (fun t (a, b) => t.setIfInBounds a.toNat b) allBytes.toArray

def memberTable (set : Bytes) : Array Bool :=
  set.foldl (fun t b => t.setIfInBounds b.toNat true) (Array.replicate 256 false)

def isIn (table : Array Bool) (b : UInt8) : Bool := (table[b.toNat]?).getD false

structure Tables where
  deleted : Array Bool
  image : Array UInt8
  squeezed : Array Bool

def Task.tables (t : Task) : Tables :=
  let first := t.firstBytes
  let second := t.secondBytes
  let none_ := memberTable []
  { deleted := if t.delete then memberTable first else none_
    image := if t.translating then imageTable (first.zip second) else imageTable []
    squeezed := if !t.squeeze then none_ else memberTable (if t.second.isSome then second else first) }

/-- Bytes without those that repeat the last one put out, where they are to be squeezed. -/
def squeeze (member : UInt8 → Bool) (last : Option UInt8) (text : Bytes) : Option UInt8 × Bytes :=
  let (last, out) := text.foldl (fun (last, out) b =>
    if member b && last = some b then (last, out) else (some b, b :: out)) (last, ([] : Bytes))
  (last, out.reverse)

/-- A piece of text translated; `last` is the byte put out last. -/
def Tables.apply (t : Tables) (last : Option UInt8) (text : Bytes) : Option UInt8 × Bytes :=
  let kept := text.filter (!isIn t.deleted ·)
  squeeze (isIn t.squeezed) last (kept.map fun b => (t.image[b.toNat]?).getD b)

/-! ## The utility -/

def readSet (s : Bytes) : Util (List Piece) := do
  let (written, warnings) := unescape (s.length + 1) s
  for w in warnings do complain w
  match pieces (s.length + 1) written with
  | .ok ps => return ps
  | .error e => fail e.message

def table : OptionTable :=
  .of "cCdst" [("complement", .none, "c"), ("delete", .none, "d"), ("squeeze-repeats", .none, "s"),
    ("truncate-set1", .none, "t")] false

def checkOperands (operands : List Bytes) (delete squeezing : Bool) : Util Unit := do
  let least := if delete == squeezing then 2 else 1
  let most := if delete && !squeezing then 1 else 2
  if operands.isEmpty then misuseString "missing operand"
  if operands.length < least then
    complain (Bytes.ofString "missing operand after " ++ Quoted.plain (operands.getLast?.getD []))
    report (Bytes.ofString (if squeezing
      then "Two strings must be given when both deleting and squeezing repeats.\n"
      else "Two strings must be given when translating.\n"))
    hint
  if operands.length > most then
    complain (Bytes.ofString "extra operand " ++ Quoted.plain ((operands[most]?).getD []))
    if operands.length = 2 then report (Bytes.ofString
      "Only one string may be given when deleting without squeezing repeats.\n")
    hint

def tr (args : List Bytes) : Util UInt8 := do
  let a ← arguments table args
  let delete := a.has "d"
  checkOperands a.operands delete (a.has "s")
  let first ← readSet ((a.operands[0]?).getD [])
  let second ← match a.operands[1]? with
    | some s => do pure (some (← readSet s))
    | none => pure none
  let task : Task :=
    { complement := a.has "c" || a.has "C", delete, squeeze := a.has "s", truncate := a.has "t"
      first, second }
  if let some text := task.complaint? then failString text
  let tables := task.tables
  let failure ← iterate (none : Option UInt8) fun last => do
    match ← read 0 8192 with
    | .ok [] => return .inr none
    | .ok text =>
      let (last, out) := tables.apply last text
      put out
      return .inl last
    | .error e => return .inr (some e)
  match failure with
  | some e => fail (because (Bytes.ofString "read error") e)
  | none => return 0

end JobShell.Translate
