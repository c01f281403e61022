import JobShell.Text.Utf8

/-!
# Decoding undoes encoding

A byte string is well-formed if it is the encoding of some characters. A character is any Unicode
scalar value, so that neither surrogates nor anything above U+10FFFF has an encoding, and it has one
encoding only. The decoder accepts exactly the well-formed byte strings.

* `Utf8.encode_eq`, `Utf8.form?_eq`: characters and lead bytes by their values.
* `Utf8.first_encode`, `Utf8.encode_of_first`: the first character of a byte string.
* `Utf8.decode_eq_some_iff`: the decoder against the encoding.
* `Bytes.ofChars_inj`: different texts have different encodings.
-/

namespace JobShell

namespace Utf8

variable {n bits v : Nat} {low high lead : UInt8} {s rest rest' : Bytes} {c : Char}

/-! ## Bytes that continue a character -/

theorem continuation_zero :
    continuation 0 low high bits s = (true, v, rest) ↔ v = bits ∧ s = rest := by
  simp [continuation, eq_comm]

theorem continuation_succ :
    continuation (n + 1) low high bits s = (true, v, rest) ↔
      ∃ b tail, s = b :: tail ∧ low.toNat ≤ b.toNat ∧ b.toNat ≤ high.toNat ∧
        continuation n 0x80 0xbf (64 * bits + (b.toNat - 0x80)) tail = (true, v, rest) := by
  simp only [← UInt8.le_iff_toNat_le]
  constructor
  · intro h
    cases s with
    | nil => cases h
    | cons b tail =>
      rw [continuation] at h
      split at h
      · rename_i hb
        rw [Bool.and_eq_true, decide_eq_true_iff, decide_eq_true_iff] at hb
        exact ⟨b, tail, rfl, hb.1, hb.2, h⟩
      · cases h
  · rintro ⟨b, tail, rfl, hlow, hhigh, h⟩
    rw [continuation, if_pos (by simp [hlow, hhigh])]
    exact h

theorem first_eq_some_iff :
    first lead rest = (some c, rest') ↔
      ∃ f v, form? lead = some f ∧
        continuation f.trailing f.low f.high f.bits rest = (true, v, rest') ∧ c = Char.ofNat v := by
  unfold first
  cases form? lead with
  | none => simp
  | some f =>
    dsimp only
    constructor
    · intro h
      split at h
      · rename_i v tail hc
        cases h
        exact ⟨f, v, rfl, hc, rfl⟩
      · cases h
    · rintro ⟨f', v, hf, hc, rfl⟩
      obtain rfl := Option.some.inj hf
      rw [hc]

/-- The table of lead bytes by their values. -/
theorem form?_eq (lead : UInt8) :
    form? lead =
      if lead.toNat < 0x80 then some { trailing := 0, bits := lead.toNat }
      else if lead.toNat < 0xc2 then none
      else if lead.toNat < 0xe0 then some { trailing := 1, bits := lead.toNat - 0xc0 }
      else if lead.toNat = 0xe0 then some { trailing := 2, low := 0xa0, bits := 0 }
      else if lead.toNat = 0xed then some { trailing := 2, high := 0x9f, bits := 0xd }
      else if lead.toNat < 0xf0 then some { trailing := 2, bits := lead.toNat - 0xe0 }
      else if lead.toNat = 0xf0 then some { trailing := 3, low := 0x90, bits := 0 }
      else if lead.toNat < 0xf4 then some { trailing := 3, bits := lead.toNat - 0xf0 }
      else if lead.toNat = 0xf4 then some { trailing := 3, high := 0x8f, bits := 4 }
      else none := by
  simp only [form?, UInt8.lt_iff_toNat_lt, ← UInt8.toNat_inj]
  rfl

/-! ## Characters -/

theorem toNat_ofNat_of_lt {n : Nat} (h : n < 256) : (UInt8.ofNat n).toNat = n :=
  UInt8.toNat_ofNat_of_lt' h

/-- The bytes that continue a character whose first of them may be anything. -/
theorem continuation_ofNat {w : Nat} (hw : w < 64) (hlow : low.toNat ≤ w + 128)
    (hhigh : w + 128 ≤ high.toNat) :
    continuation (n + 1) low high bits (UInt8.ofNat (w + 128) :: s) =
      continuation n 0x80 0xbf (64 * bits + w) s := by
  have hnat : (UInt8.ofNat (w + 128)).toNat = w + 128 := toNat_ofNat_of_lt (by omega)
  rw [continuation, if_pos]
  · rw [hnat]
    simp
  · simp only [UInt8.le_iff_toNat_le, hnat, hlow, hhigh, decide_true, Bool.and_true]

theorem first_of_form {f : Form} (hf : form? lead = some f)
    (h : continuation f.trailing f.low f.high f.bits rest = (true, c.toNat, rest')) :
    first lead rest = (some c, rest') :=
  first_eq_some_iff.2 ⟨f, c.toNat, hf, h, (Char.ofNat_toNat c).symm⟩

/-- The form of the lead byte of a character of three bytes. -/
theorem form?_three {v : Nat} (hlow : 2047 < v) (hhigh : v ≤ 65535)
    (hvalid : v < 0xd800 ∨ 0xdfff < v) :
    ∃ low high, form? (UInt8.ofNat (v / 4096 + 224)) =
        some { trailing := 2, low, high, bits := v / 4096 } ∧
      low.toNat ≤ v / 64 % 64 + 128 ∧ v / 64 % 64 + 128 ≤ high.toNat := by
  rw [form?_eq, toNat_ofNat_of_lt (by omega), if_neg (by omega), if_neg (by omega),
    if_neg (by omega)]
  split
  · refine ⟨0xa0, 0xbf, by congr 2; omega, ?_, ?_⟩
    · show 160 ≤ _
      omega
    · show _ ≤ 191
      omega
  · split
    · refine ⟨0x80, 0x9f, by congr 2; omega, ?_, ?_⟩
      · show 128 ≤ _
        omega
      · show _ ≤ 159
        omega
    · rw [if_pos (by omega), Nat.add_sub_cancel]
      refine ⟨0x80, 0xbf, rfl, ?_, ?_⟩
      · show 128 ≤ _
        omega
      · show _ ≤ 191
        omega

/-- The form of the lead byte of a character of four bytes. -/
theorem form?_four {v : Nat} (hlow : 65535 < v) (hhigh : v < 0x110000) :
    ∃ low high, form? (UInt8.ofNat (v / 262144 + 240)) =
        some { trailing := 3, low, high, bits := v / 262144 } ∧
      low.toNat ≤ v / 4096 % 64 + 128 ∧ v / 4096 % 64 + 128 ≤ high.toNat := by
  rw [form?_eq, toNat_ofNat_of_lt (by omega), if_neg (by omega), if_neg (by omega),
    if_neg (by omega), if_neg (by omega), if_neg (by omega), if_neg (by omega)]
  split
  · refine ⟨0x90, 0xbf, by congr 2; omega, ?_, ?_⟩
    · show 144 ≤ _
      omega
    · show _ ≤ 191
      omega
  · split
    · rw [Nat.add_sub_cancel]
      refine ⟨0x80, 0xbf, rfl, ?_, ?_⟩
      · show 128 ≤ _
        omega
      · show _ ≤ 191
        omega
    · rw [if_pos (by omega)]
      refine ⟨0x80, 0x8f, by congr 2; omega, ?_, ?_⟩
      · show 128 ≤ _
        omega
      · show _ ≤ 143
        omega

theorem toNat_lt (c : Char) : c.toNat < 0x110000 := by
  have hvalid : c.toNat < 0xd800 ∨ 0xdfff < c.toNat ∧ c.toNat < 0x110000 := c.valid
  omega

/-- The bytes of a character, by its value. -/
theorem encode_eq (c : Char) :
    String.utf8EncodeChar c =
      if c.toNat ≤ 127 then [UInt8.ofNat c.toNat]
      else if c.toNat ≤ 2047 then
        [UInt8.ofNat (c.toNat / 64 + 192), UInt8.ofNat (c.toNat % 64 + 128)]
      else if c.toNat ≤ 65535 then
        [UInt8.ofNat (c.toNat / 4096 + 224), UInt8.ofNat (c.toNat / 64 % 64 + 128),
          UInt8.ofNat (c.toNat % 64 + 128)]
      else
        [UInt8.ofNat (c.toNat / 262144 + 240), UInt8.ofNat (c.toNat / 4096 % 64 + 128),
          UInt8.ofNat (c.toNat / 64 % 64 + 128), UInt8.ofNat (c.toNat % 64 + 128)] := by
  have hlt := toNat_lt c
  by_cases h1 : c.toNat ≤ 127
  · rw [if_pos h1]
    exact if_pos h1
  · by_cases h2 : c.toNat ≤ 2047
    · rw [if_neg h1, if_pos h2, ← Nat.mod_eq_of_lt (show c.toNat / 64 < 32 by omega)]
      exact (if_neg h1).trans (if_pos h2)
    · by_cases h3 : c.toNat ≤ 65535
      · rw [if_neg h1, if_neg h2, if_pos h3,
          ← Nat.mod_eq_of_lt (show c.toNat / 4096 < 16 by omega)]
        exact (if_neg h1).trans ((if_neg h2).trans (if_pos h3))
      · rw [if_neg h1, if_neg h2, if_neg h3,
          ← Nat.mod_eq_of_lt (show c.toNat / 262144 < 8 by omega)]
        exact (if_neg h1).trans ((if_neg h2).trans (if_neg h3))

/-- The first character of a byte string that starts with the bytes of a character. -/
theorem first_encode (c : Char) (rest : Bytes) :
    ∃ lead tail, String.utf8EncodeChar c = lead :: tail ∧
      first lead (tail ++ rest) = (some c, rest) := by
  have hvalid : c.toNat < 0xd800 ∨ 0xdfff < c.toNat ∧ c.toNat < 0x110000 := c.valid
  have hlow : (0x80 : UInt8).toNat = 128 := rfl
  have hhigh : (0xbf : UInt8).toNat = 191 := rfl
  rw [encode_eq]
  split
  · have hform : form? (UInt8.ofNat c.toNat) = some { trailing := 0, bits := c.toNat } := by
      rw [form?_eq, toNat_ofNat_of_lt (by omega), if_pos (by omega)]
    exact ⟨_, _, rfl, first_of_form hform rfl⟩
  · split
    · have hform : form? (UInt8.ofNat (c.toNat / 64 + 192)) =
          some { trailing := 1, bits := c.toNat / 64 } := by
        rw [form?_eq, toNat_ofNat_of_lt (by omega), if_neg (by omega), if_neg (by omega),
          if_pos (by omega), Nat.add_sub_cancel]
      refine ⟨_, _, rfl, first_of_form hform ?_⟩
      rw [List.cons_append,
        continuation_ofNat (by omega) (by dsimp only; omega) (by dsimp only; omega)]
      exact continuation_zero.2 ⟨by dsimp only; omega, rfl⟩
    · split
      · obtain ⟨low, high, hform, h1, h2⟩ := form?_three (v := c.toNat) (by omega) (by omega) (by omega)
        refine ⟨_, _, rfl, first_of_form hform ?_⟩
        rw [List.cons_append, List.cons_append, continuation_ofNat (by omega) h1 h2,
          continuation_ofNat (by omega) (by omega) (by omega)]
        exact continuation_zero.2 ⟨by dsimp only; omega, rfl⟩
      · obtain ⟨low, high, hform, h1, h2⟩ := form?_four (v := c.toNat) (by omega) (by omega)
        refine ⟨_, _, rfl, first_of_form hform ?_⟩
        rw [List.cons_append, List.cons_append, List.cons_append,
          continuation_ofNat (by omega) h1 h2, continuation_ofNat (by omega) (by omega) (by omega),
          continuation_ofNat (by omega) (by omega) (by omega)]
        exact continuation_zero.2 ⟨by dsimp only; omega, rfl⟩

/-! ## Bytes of characters -/

theorem toNat_ofNat_char {v : Nat} (h : v < 0xd800 ∨ 0xdfff < v ∧ v < 0x110000) :
    (Char.ofNat v).toNat = v := by
  unfold Char.ofNat
  rw [dif_pos h]
  rfl

theorem ofNat_eq_byte {m : Nat} {b : UInt8} (h : m = b.toNat) : UInt8.ofNat m = b := by
  rw [h, UInt8.ofNat_toNat]

section

variable {a b d e : UInt8}

theorem encode_one (ha : a.toNat < 0x80) : String.utf8EncodeChar (Char.ofNat a.toNat) = [a] := by
  have hv := toNat_ofNat_char (v := a.toNat) (by omega)
  rw [encode_eq, hv, if_pos (by omega), ofNat_eq_byte rfl]

theorem encode_two (ha : 0xc2 ≤ a.toNat ∧ a.toNat < 0xe0) (hb : 128 ≤ b.toNat ∧ b.toNat ≤ 191)
    (hv : v = 64 * (a.toNat - 0xc0) + (b.toNat - 0x80)) :
    String.utf8EncodeChar (Char.ofNat v) = [a, b] := by
  rw [encode_eq, toNat_ofNat_char (by omega), if_neg (by omega), if_pos (by omega),
    ofNat_eq_byte (b := a) (by omega), ofNat_eq_byte (b := b) (by omega)]

theorem encode_three (ha : 0xe0 ≤ a.toNat ∧ a.toNat < 0xf0) (hb : 128 ≤ b.toNat ∧ b.toNat ≤ 191)
    (hd : 128 ≤ d.toNat ∧ d.toNat ≤ 191)
    (hv : v = 64 * (64 * (a.toNat - 0xe0) + (b.toNat - 0x80)) + (d.toNat - 0x80))
    (hlow : 2047 < v) (hvalid : v < 0xd800 ∨ 0xdfff < v) :
    String.utf8EncodeChar (Char.ofNat v) = [a, b, d] := by
  rw [encode_eq, toNat_ofNat_char (by omega), if_neg (by omega), if_neg (by omega),
    if_pos (by omega), ofNat_eq_byte (b := a) (by omega), ofNat_eq_byte (b := b) (by omega),
    ofNat_eq_byte (b := d) (by omega)]

theorem encode_four (ha : 0xf0 ≤ a.toNat) (hb : 128 ≤ b.toNat ∧ b.toNat ≤ 191)
    (hd : 128 ≤ d.toNat ∧ d.toNat ≤ 191) (he : 128 ≤ e.toNat ∧ e.toNat ≤ 191)
    (hv : v = 64 * (64 * (64 * (a.toNat - 0xf0) + (b.toNat - 0x80)) + (d.toNat - 0x80)) +
      (e.toNat - 0x80)) (hlow : 65535 < v) (hhigh : v < 0x110000) :
    String.utf8EncodeChar (Char.ofNat v) = [a, b, d, e] := by
  rw [encode_eq, toNat_ofNat_char (by omega), if_neg (by omega), if_neg (by omega),
    if_neg (by omega), ofNat_eq_byte (b := a) (by omega), ofNat_eq_byte (b := b) (by omega),
    ofNat_eq_byte (b := d) (by omega), ofNat_eq_byte (b := e) (by omega)]

end

theorem continuation_one (h : continuation 1 low high bits s = (true, v, rest)) :
    ∃ b, s = b :: rest ∧ low.toNat ≤ b.toNat ∧ b.toNat ≤ high.toNat ∧
      v = 64 * bits + (b.toNat - 0x80) := by
  obtain ⟨b, tail, rfl, hlow, hhigh, h⟩ := continuation_succ.1 h
  obtain ⟨hv, rfl⟩ := continuation_zero.1 h
  exact ⟨b, rfl, hlow, hhigh, hv⟩

theorem continuation_two (h : continuation 2 low high bits s = (true, v, rest)) :
    ∃ b d, s = b :: d :: rest ∧ low.toNat ≤ b.toNat ∧ b.toNat ≤ high.toNat ∧
      (128 ≤ d.toNat ∧ d.toNat ≤ 191) ∧
      v = 64 * (64 * bits + (b.toNat - 0x80)) + (d.toNat - 0x80) := by
  obtain ⟨b, tail, rfl, hlow, hhigh, h⟩ := continuation_succ.1 h
  obtain ⟨d, rfl, hd, hd', hv⟩ := continuation_one h
  exact ⟨b, d, rfl, hlow, hhigh, ⟨hd, hd'⟩, hv⟩

theorem continuation_three (h : continuation 3 low high bits s = (true, v, rest)) :
    ∃ b d e, s = b :: d :: e :: rest ∧ low.toNat ≤ b.toNat ∧ b.toNat ≤ high.toNat ∧
      (128 ≤ d.toNat ∧ d.toNat ≤ 191) ∧ (128 ≤ e.toNat ∧ e.toNat ≤ 191) ∧
      v = 64 * (64 * (64 * bits + (b.toNat - 0x80)) + (d.toNat - 0x80)) + (e.toNat - 0x80) := by
  obtain ⟨b, tail, rfl, hlow, hhigh, h⟩ := continuation_succ.1 h
  obtain ⟨d, e, rfl, hd, hd', he, hv⟩ := continuation_two h
  exact ⟨b, d, e, rfl, hlow, hhigh, ⟨hd, hd'⟩, he, hv⟩

/-- A lead with two bytes behind it: the encoding is not longer than it has to be, and not that of a
surrogate. -/
theorem encode_of_two (hc : continuation 2 low high bits rest = (true, v, rest'))
    (hlead : 0xe0 ≤ lead.toNat ∧ lead.toNat < 0xf0) (hbits : bits = lead.toNat - 0xe0)
    (hlow : 128 ≤ low.toNat) (hhigh : high.toNat ≤ 191) (hsmall : bits = 0 → 160 ≤ low.toNat)
    (hsurrogate : bits = 0xd → high.toNat ≤ 159) :
    lead :: rest = String.utf8EncodeChar (Char.ofNat v) ++ rest' := by
  obtain ⟨b, d, rfl, hb, hb', hd, hv⟩ := continuation_two hc
  rw [encode_three (b := b) hlead ⟨by omega, by omega⟩ hd (by omega) (by omega) (by omega)]
  rfl

/-- A lead with three bytes behind it: the character is not too large. -/
theorem encode_of_three (hc : continuation 3 low high bits rest = (true, v, rest'))
    (hlead : 0xf0 ≤ lead.toNat ∧ lead.toNat ≤ 0xf4) (hbits : bits = lead.toNat - 0xf0)
    (hlow : 128 ≤ low.toNat) (hhigh : high.toNat ≤ 191) (hsmall : bits = 0 → 144 ≤ low.toNat)
    (hlarge : bits = 4 → high.toNat ≤ 143) :
    lead :: rest = String.utf8EncodeChar (Char.ofNat v) ++ rest' := by
  obtain ⟨b, d, e, rfl, hb, hb', hd, he, hv⟩ := continuation_three hc
  rw [encode_four (b := b) hlead.1 ⟨by omega, by omega⟩ hd he (by omega) (by omega) (by omega)]
  rfl

/-- The first piece of a byte string is the bytes of its first character. -/
theorem encode_of_first (h : first lead rest = (some c, rest')) :
    lead :: rest = String.utf8EncodeChar c ++ rest' := by
  have h80 : (0x80 : UInt8).toNat = 128 := rfl
  have hbf : (0xbf : UInt8).toNat = 191 := rfl
  obtain ⟨f, v, hf, hc, rfl⟩ := first_eq_some_iff.1 h
  rw [form?_eq] at hf
  split at hf
  · obtain rfl := Option.some.inj hf
    obtain ⟨rfl, rfl⟩ := continuation_zero.1 hc
    rw [encode_one (by omega)]
    rfl
  split at hf
  · cases hf
  split at hf
  · obtain rfl := Option.some.inj hf
    obtain ⟨b, rfl, hb, hb', hv⟩ := continuation_one hc
    dsimp only at hb hb' hv
    rw [encode_two (by omega) ⟨by omega, by omega⟩ hv]
    rfl
  -- three bytes: all leads but `e0` and `ed` have the same form
  split at hf
  · obtain rfl := Option.some.inj hf
    dsimp only at hc
    exact encode_of_two hc (by omega) (by omega) (by decide) (by decide) (fun _ => by decide) nofun
  split at hf
  · obtain rfl := Option.some.inj hf
    dsimp only at hc
    exact encode_of_two hc (by omega) (by omega) (by decide) (by decide) nofun (fun _ => by decide)
  split at hf
  · obtain rfl := Option.some.inj hf
    dsimp only at hc
    exact encode_of_two hc (by omega) rfl (by decide) (by decide) (by omega) (by omega)
  split at hf
  · obtain rfl := Option.some.inj hf
    dsimp only at hc
    exact encode_of_three hc (by omega) (by omega) (by decide) (by decide) (fun _ => by decide) nofun
  split at hf
  · obtain rfl := Option.some.inj hf
    dsimp only at hc
    exact encode_of_three hc (by omega) rfl (by decide) (by decide) (by omega) (by omega)
  split at hf
  · obtain rfl := Option.some.inj hf
    dsimp only at hc
    exact encode_of_three hc (by omega) (by omega) (by decide) (by decide) nofun (fun _ => by decide)
  · cases hf

/-! ## Whole byte strings -/

theorem decode_ofChars (cs : List Char) : decode (Bytes.ofChars cs) = some cs := by
  induction cs with
  | nil => simp [Bytes.ofChars, decode]
  | cons c cs ih =>
    obtain ⟨lead, tail, hc, hfirst⟩ := first_encode c (Bytes.ofChars cs)
    have hbytes : Bytes.ofChars (c :: cs) = lead :: (tail ++ Bytes.ofChars cs) := by
      rw [Bytes.ofChars, List.flatMap_cons, hc]
      rfl
    rw [hbytes, decode]
    split
    · rename_i h
      rw [hfirst] at h
      cases h
    · rename_i c' rest h
      rw [hfirst] at h
      cases h
      rw [ih]
      rfl

theorem ofChars_of_decode {b : Bytes} {cs : List Char} (h : decode b = some cs) :
    Bytes.ofChars cs = b := by
  fun_induction decode b generalizing cs with
  | case1 => cases h; rfl
  | case2 => cases h
  | case3 lead rest c rest' hfirst hlen ih =>
    obtain ⟨cs', hcs', rfl⟩ := Option.map_eq_some_iff.1 h
    rw [encode_of_first hfirst, Bytes.ofChars, List.flatMap_cons]
    exact congrArg (String.utf8EncodeChar c ++ ·) (ih hcs')

/-- The decoder accepts the bytes of characters, and nothing else. -/
theorem decode_eq_some_iff {b : Bytes} {cs : List Char} :
    decode b = some cs ↔ Bytes.ofChars cs = b :=
  ⟨ofChars_of_decode, fun h => h ▸ decode_ofChars cs⟩

/-- The byte string is the encoding of some characters. -/
def WellFormed (b : Bytes) : Prop := ∃ cs : List Char, Bytes.ofChars cs = b

theorem wellFormed_iff {b : Bytes} : WellFormed b ↔ ∃ text : String, Bytes.ofString text = b :=
  ⟨fun ⟨cs, h⟩ => ⟨String.ofList cs, by rw [Bytes.ofString, String.toList_ofList, h]⟩,
    fun ⟨text, h⟩ => ⟨text.toList, h⟩⟩

theorem decodeString_eq_some_iff {b : Bytes} {s : String} :
    decodeString b = some s ↔ Bytes.ofString s = b := by
  rw [decodeString, Option.map_eq_some_iff, Bytes.ofString]
  constructor
  · rintro ⟨cs, hcs, rfl⟩
    rw [String.toList_ofList]
    exact decode_eq_some_iff.1 hcs
  · intro h
    exact ⟨s.toList, decode_eq_some_iff.2 h, String.ofList_toList⟩

theorem decodeString_eq_none_iff {b : Bytes} : decodeString b = none ↔ ¬WellFormed b := by
  rw [decodeString, Option.map_eq_none_iff, Option.eq_none_iff_forall_ne_some, WellFormed,
    not_exists]
  exact forall_congr' fun cs => not_congr decode_eq_some_iff

end Utf8

/-- Different texts have different encodings. -/
theorem Bytes.ofChars_inj {cs ds : List Char} : ofChars cs = ofChars ds ↔ cs = ds := by
  refine ⟨fun h => ?_, congrArg ofChars⟩
  have hcs := Utf8.decode_ofChars cs
  rw [h, Utf8.decode_ofChars] at hcs
  exact (Option.some.inj hcs).symm

theorem Bytes.ofString_inj {s t : String} : Bytes.ofString s = Bytes.ofString t ↔ s = t :=
  Bytes.ofChars_inj.trans String.toList_inj

end JobShell
