import Marginalia.Text.Lines

/-!
A finding of the analyzer: a line of the document and a message.

Findings are compared by value.  They are ordered by line first and by text second; texts are
compared code point by code point, which is also the order of their UTF-8 bytes.  The order is
strict and total (`lt_irrefl`, `lt_trans`, `lt_trichotomy`).
-/

namespace Marginalia

/-- A message about one line of a document.  Lines are counted from 0. -/
structure Finding where
  line : UInt32
  text : String
  deriving DecidableEq, Repr

namespace Finding

/-- Findings are ordered by line, and on one line by text. -/
instance : LT Finding := ⟨fun a b => a.line < b.line ∨ a.line = b.line ∧ a.text < b.text⟩

instance (a b : Finding) : Decidable (a < b) :=
  inferInstanceAs (Decidable (a.line < b.line ∨ a.line = b.line ∧ a.text < b.text))

theorem lt_irrefl (a : Finding) : ¬a < a := by
  rintro (h | ⟨-, h⟩)
  · exact UInt32.lt_irrefl _ h
  · exact String.lt_irrefl _ h

theorem ne_of_lt {a b : Finding} (h : a < b) : a ≠ b := by
  rintro rfl
  exact lt_irrefl a h

theorem lt_trans {a b c : Finding} (hab : a < b) (hbc : b < c) : a < c := by
  rcases hab with h1 | ⟨e1, h1⟩ <;> rcases hbc with h2 | ⟨e2, h2⟩
  · exact Or.inl (UInt32.lt_trans h1 h2)
  · exact Or.inl (e2 ▸ h1)
  · exact Or.inl (e1 ▸ h2)
  · exact Or.inr ⟨e1.trans e2, String.lt_trans h1 h2⟩

theorem lt_trichotomy (a b : Finding) : a < b ∨ a = b ∨ b < a := by
  obtain ⟨m, s⟩ := a
  obtain ⟨n, t⟩ := b
  rcases Nat.lt_trichotomy m.toNat n.toNat with h | h | h
  · exact Or.inl (Or.inl (UInt32.lt_iff_toNat_lt.mpr h))
  · obtain rfl := UInt32.toNat_inj.mp h
    by_cases hst : s < t
    · exact Or.inl (Or.inr ⟨rfl, hst⟩)
    · by_cases hts : t < s
      · exact Or.inr (Or.inr (Or.inr ⟨rfl, hts⟩))
      · have : s = t := String.le_antisymm (String.not_lt.mp hts) (String.not_lt.mp hst)
        exact Or.inr (Or.inl (by rw [this]))
  · exact Or.inr (Or.inr (Or.inl (UInt32.lt_iff_toNat_lt.mpr h)))

/-- Which of two findings comes first. -/
def order (a b : Finding) : Ordering := if a < b then .lt else if a = b then .eq else .gt

/-- The findings of a list in ascending order. -/
def sorted (findings : List Finding) : List Finding :=
  findings.mergeSort fun a b => !decide (b < a)

/-- The different findings of a list, each at its first place. -/
def distinct (findings : List Finding) : List Finding := findings.eraseDups

/-- The first line of the message, for displays of a single line. -/
def summary (f : Finding) : String := String.ofList (Text.firstLine f.text.toList)

/-- The finding with one more line at the end of its message. -/
def pushLine (f : Finding) (line : String) : Finding := { f with text := f.text ++ line ++ "\n" }

end Finding

end Marginalia
