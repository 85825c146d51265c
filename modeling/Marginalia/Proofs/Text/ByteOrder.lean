import Marginalia.Proofs.Text.Decoding

/-!
Texts are ordered as their bytes are.

Comparing the encodings of two texts byte by byte is comparing the texts character by character
(`encode_lt_encode_iff`).  For two characters it is so because a larger character has a larger lead
byte or the same one and a larger payload after it (`utf8EncodeChar_lt`).  As no encoding of a
character begins with that of another, the first characters in which two texts differ decide for
their encodings as well, whatever comes after them (`append_lt_append`).
-/

namespace Marginalia.Text.Utf8

/-! ### Two characters -/

theorem ofNat_lt_ofNat_iff {m n : Nat} (hm : m < 256) (hn : n < 256) :
    UInt8.ofNat m < UInt8.ofNat n ↔ m < n := by
  rw [UInt8.lt_iff_toNat_lt, toNat_ofNat_of_lt hm, toNat_ofNat_of_lt hn]

theorem ofNat_eq_ofNat_iff {m n : Nat} (hm : m < 256) (hn : n < 256) :
    UInt8.ofNat m = UInt8.ofNat n ↔ m = n := by
  rw [← UInt8.toNat_inj, toNat_ofNat_of_lt hm, toNat_ofNat_of_lt hn]

/-- The digits of a number from which an encoding of four bytes is made. -/
theorem eq_digits {n : Nat} (h : n < 0x200000) :
    n = 262144 * (n / 262144 % 8) + 4096 * (n / 4096 % 64) + 64 * (n / 64 % 64) + n % 64 := by
  omega

/-- A larger character has a larger encoding. -/
theorem utf8EncodeChar_lt {c d : Char} (h : c < d) :
    String.utf8EncodeChar c < String.utf8EncodeChar d := by
  have hlt : c.val.toNat < d.val.toNat := UInt32.lt_iff_toNat_lt.mp h
  have hvalid : d.val.toNat < 0x110000 := by
    have hd : d.val.toNat < 0xD800 ∨ 0xDFFF < d.val.toNat ∧ d.val.toNat < 0x110000 := d.valid
    omega
  rw [String.utf8EncodeChar, String.utf8EncodeChar]
  generalize c.val.toNat = v at hlt
  generalize d.val.toNat = w at hlt hvalid
  -- one case for each pair of lengths; a longer encoding has a larger lead byte
  repeat' split
  all_goals
    simp (disch := omega) only [List.cons_lt_cons_iff, ofNat_lt_ofNat_iff, ofNat_eq_ofNat_iff,
      List.lt_irrefl, and_false, or_false]
    try omega
  -- two encodings of four bytes are compared digit by digit
  have hv := eq_digits (show v < 0x200000 by omega)
  have hw := eq_digits (show w < 0x200000 by omega)
  rcases Nat.lt_trichotomy (v / 262144 % 8) (w / 262144 % 8) with hlead | hlead | hlead
  · omega
  · rcases Nat.lt_trichotomy (v / 4096 % 64) (w / 4096 % 64) with hnext | hnext | hnext
    · omega
    · omega
    · omega
  · omega

/-! ### Two texts -/

/-- Where two lists differ before either ends, what is put after them does not matter. -/
theorem append_lt_append {a b : List UInt8} (h : a < b) (hpre : ¬a <+: b) (x y : List UInt8) :
    a ++ x < b ++ y := by
  induction a generalizing b with
  | nil => exact absurd List.nil_prefix hpre
  | cons p a ih =>
      cases b with
      | nil => exact absurd h (List.not_lt_nil _)
      | cons q b =>
          rw [List.cons_append, List.cons_append, List.cons_lt_cons_iff]
          rcases List.cons_lt_cons_iff.mp h with hpq | ⟨rfl, hab⟩
          · exact Or.inl hpq
          · refine Or.inr ⟨rfl, ih hab ?_⟩
            exact fun hprefix => hpre ((List.prefix_cons_inj p).mpr hprefix)

/-- A larger text has a larger encoding. -/
theorem encode_lt_encode {cs ds : List Char} (h : cs < ds) : encode cs < encode ds := by
  induction cs generalizing ds with
  | nil =>
      cases ds with
      | nil => exact absurd h (List.not_lt_nil _)
      | cons d ds =>
          have hne : encode (d :: ds) ≠ [] := by
            intro hnil
            exact String.utf8EncodeChar_ne_nil (List.append_eq_nil_iff.mp hnil).1
          obtain ⟨b, bytes, hcons⟩ := List.exists_cons_of_ne_nil hne
          rw [encode_nil, hcons]
          exact List.nil_lt_cons b bytes
  | cons c cs ih =>
      cases ds with
      | nil => exact absurd h (List.not_lt_nil _)
      | cons d ds =>
          show String.utf8EncodeChar c ++ encode cs < String.utf8EncodeChar d ++ encode ds
          rcases List.cons_lt_cons_iff.mp h with hcd | ⟨rfl, hrest⟩
          · apply append_lt_append (utf8EncodeChar_lt hcd)
            intro hprefix
            obtain rfl := eq_of_utf8EncodeChar_isPrefix hprefix
            exact Char.lt_irrefl c hcd
          · exact List.append_left_lt (ih hrest)

/-- Encodings are ordered as the texts are. -/
theorem encode_lt_encode_iff {s t : String} : encode s.toList < encode t.toList ↔ s < t := by
  refine ⟨fun h => ?_, fun h => encode_lt_encode (String.lt_iff.mp h)⟩
  by_contra hst
  by_cases hts : t < s
  · exact List.lt_asymm h (encode_lt_encode (String.lt_iff.mp hts))
  · obtain rfl : s = t := String.le_antisymm (String.not_lt.mp hts) (String.not_lt.mp hst)
    exact List.lt_irrefl _ h

end Marginalia.Text.Utf8
