import Marginalia.Text.Digit

/-!
Reading a number that is written in base ten.

A number is read from ASCII digits only, and the value that is read is the value of the digits
(`decimal?_eq_some_iff`).  `decimalText` writes ASCII digits only, at least one, so every number is
read back (`decimal?_toDigits`).
-/

namespace Marginalia.Text

/-- The digits `0` to `9` are the ASCII characters between them. -/
theorem digit_iff {c : Char} : c.isDigit = true ↔ '0' ≤ c ∧ c ≤ '9' := by
  rw [Char.isDigit, Bool.and_eq_true, decide_eq_true_eq, decide_eq_true_eq]
  rfl

theorem digitValue?_of_digit {c : Char} (h : c.isDigit) :
    digitValue? c = some (c.toNat - '0'.toNat) := by
  rw [digitValue?, if_pos (digit_iff.mp h)]

theorem digitValue?_of_not_digit {c : Char} (h : ¬c.isDigit) : digitValue? c = none := by
  rw [digitValue?, if_neg fun hdigit => h (digit_iff.mpr hdigit)]

/-- The digits `0` to `9` are digits of some script. -/
theorem isDigit_of_digit {c : Char} (h : c.isDigit) : isDigit c := by
  obtain ⟨h0, h9⟩ := digit_iff.mp h
  -- the ASCII digits are the first range of the table
  exact isDigit_iff.mpr ⟨(0x30, 0x39), List.mem_cons_self, h0, h9⟩

/-- A number is read on just when only ASCII digits follow.  It is then what the value so far and these
digits come to in base ten. -/
theorem decimalFrom?_eq_some_iff {chars : List Char} {value n : Nat} :
    decimalFrom? value chars = some n ↔
      (∀ c ∈ chars, c.isDigit) ∧ Nat.ofDigitChars 10 chars value = n := by
  induction chars generalizing value with
  | nil =>
      rw [decimalFrom?, Option.some_inj]
      exact ⟨fun h => ⟨by simp, h⟩, fun h => h.2⟩
  | cons c rest ih =>
      by_cases hc : c.isDigit
      · rw [decimalFrom?, digitValue?_of_digit hc, Nat.ofDigitChars_cons, List.forall_mem_cons]
        simp only [ih, hc, true_and]
      · rw [decimalFrom?, digitValue?_of_not_digit hc, List.forall_mem_cons]
        constructor
        · intro h
          cases h
        · rintro ⟨⟨h, -⟩, -⟩
          exact absurd h hc

theorem decimal?_eq_some_iff {chars : List Char} {n : Nat} :
    decimal? chars = some n ↔
      chars ≠ [] ∧ (∀ c ∈ chars, c.isDigit) ∧ Nat.ofDigitChars 10 chars 0 = n := by
  cases chars with
  | nil =>
      constructor
      · intro h
        cases h
      · rintro ⟨h, -⟩
        exact absurd rfl h
  | cons c rest =>
      rw [decimal?, decimalFrom?_eq_some_iff]
      exact ⟨fun h => ⟨List.cons_ne_nil _ _, h⟩, fun h => h.2⟩

theorem isDigit_of_mem_toDigits {n : Nat} {c : Char} (h : c ∈ Nat.toDigits 10 n) : isDigit c :=
  isDigit_of_digit (Nat.isDigit_of_mem_toDigits (by decide) (by decide) h)

/-- A number written in base ten is read back. -/
theorem decimal?_toDigits (n : Nat) : decimal? (Nat.toDigits 10 n) = some n := by
  have hdigits : ∀ c ∈ Nat.toDigits 10 n, c.isDigit := fun c hc =>
    Nat.isDigit_of_mem_toDigits (by decide) (by decide) hc
  exact decimal?_eq_some_iff.mpr ⟨Nat.toDigits_ne_nil, hdigits, Nat.ofDigitChars_ten_toDigits⟩

theorem toList_decimalText (n : Nat) : (decimalText n).toList = Nat.toDigits 10 n := by
  rw [decimalText, String.toList_ofList]

end Marginalia.Text
