/-!
# Blank characters and the words between them

`isBlank` is the Unicode property White_Space, 25 code points. `words` cuts a text into its maximal
runs of other characters.
-/

namespace JobShell

/-- The code points with the property White_Space, as ranges. -/
def blankRanges : List (Nat × Nat) :=
  [(0x09, 0x0d), (0x20, 0x20), (0x85, 0x85), (0xa0, 0xa0), (0x1680, 0x1680), (0x2000, 0x200a),
   (0x2028, 0x2029), (0x202f, 0x202f), (0x205f, 0x205f), (0x3000, 0x3000)]

/-- A character with the property White_Space. -/
def isBlank (c : Char) : Bool := blankRanges.any fun (lo, hi) => lo ≤ c.toNat && c.toNat ≤ hi

/-- The maximal runs of characters that are not blank, in order. -/
def words (s : List Char) : List (List Char) :=
  match h : s.dropWhile isBlank with
  | [] => []
  | c :: rest =>
    have : (rest.dropWhile (!isBlank ·)).length < s.length := by
      have h1 := (List.dropWhile_suffix (p := isBlank) (l := s)).length_le
      have h2 := (List.dropWhile_suffix (p := (!isBlank ·)) (l := rest)).length_le
      simp only [h, List.length_cons] at h1
      omega
    (c :: rest.takeWhile (!isBlank ·)) :: words (rest.dropWhile (!isBlank ·))
termination_by s.length

end JobShell
