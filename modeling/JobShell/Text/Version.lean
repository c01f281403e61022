import JobShell.Text.Class

/-!
# The order of versions

Names with version numbers in them are compared piece by piece: runs of other bytes with letters
before the rest and `~` before everything, runs of digits by their values. Endings such as `.tar.gz`
count only when the rest is the same, and names that start with a point come first.
-/

namespace JobShell.Version

/-- Where a byte that is no digit stands; the end of a name comes before letters. -/
def rank : Bytes → Int
  | [] => -1
  | c :: _ =>
    if Class.isDigit c then 0 else if Class.isAlpha c then c.toNat else if c = 0x7e then -2
    else c.toNat + 256

/-- Compares the runs of other bytes at the front, and gives what follows them. -/
def compareText : Nat → Bytes → Bytes → Ordering × Bytes × Bytes
  | 0, a, b => (.eq, a, b)
  | n + 1, a, b =>
    let stops (s : Bytes) : Bool := s.head?.all Class.isDigit
    if stops a && stops b then (.eq, a, b)
    else match compare (rank a) (rank b) with
      | .eq => compareText n (a.drop 1) (b.drop 1)
      | o => (o, a, b)

/-- The digits at the front without zeros before them, and what follows them. -/
def number (s : Bytes) : Bytes × Bytes :=
  let s := s.dropWhile (· = 0x30)
  let digits := s.takeWhile Class.isDigit
  (digits, s.drop digits.length)

/-- Compares two names piece by piece, at most `n` pieces. -/
def comparePieces : Nat → Bytes → Bytes → Ordering
  | 0, _, _ => .eq
  | n + 1, a, b =>
    if a.isEmpty && b.isEmpty then .eq
    else match compareText (a.length + b.length + 1) a b with
      | (.eq, a, b) =>
        let (x, a) := number a
        let (y, b) := number b
        ((compare x.length y.length).then (Bytes.compare x y)).then (comparePieces n a b)
      | (o, _, _) => o

/-- The endings that a name consists of from here on: how many bytes they take, or none. -/
def endings : Nat → Bytes → Option Nat
  | 0, _ => none
  | _, [] => some 0
  | n + 1, 0x2e :: c :: rest =>
    if Class.isAlpha c || c = 0x7e then
      let more := rest.takeWhile fun b => Class.isAlnum b || b = 0x7e
      (endings n (rest.drop more.length)).map (· + more.length + 2)
    else none
  | _, _ => none

/-- Length of a name without its endings; the first byte is never part of one. -/
def stemLength (s : Bytes) : Nat :=
  match (List.range s.length).find? fun i => i > 0 && (endings s.length (s.drop i)).isSome with
  | some i => i
  | none => s.length

/-- How a name that starts with a point is placed: `.`, `..`, and the others. -/
def dotRank (s : Bytes) : Nat :=
  if s = [0x2e] then 0 else if s = [0x2e, 0x2e] then 1 else if s.head? = some 0x2e then 2 else 3

def compare (a b : Bytes) : Ordering :=
  if a.isEmpty || b.isEmpty then Ord.compare a.length b.length
  else
    let dots := Ord.compare (dotRank a) (dotRank b)
    let whole (a b : Bytes) := comparePieces (a.length + b.length + 1) a b
    dots.then ((whole (a.take (stemLength a)) (b.take (stemLength b))).then (whole a b))

end JobShell.Version
