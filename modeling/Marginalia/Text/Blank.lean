import Marginalia.Text.Ranges

/-!
White space: the characters of the Unicode property `White_Space`.

`trim` removes them at both ends of a text.
-/

namespace Marginalia.Text

/-- The ranges of the property `White_Space`. -/
def blankRanges : Ranges :=
  [(0x9, 0xD), (0x20, 0x20), (0x85, 0x85), (0xA0, 0xA0), (0x1680, 0x1680), (0x2000, 0x200A),
    (0x2028, 0x2029), (0x202F, 0x202F), (0x205F, 0x205F), (0x3000, 0x3000)]

/-- Whether a character is white space. -/
def isBlank (c : Char) : Bool := blankRanges.covers c.toNat

theorem ascendsFrom_blankRanges : blankRanges.ascendsFrom 0 = true := by decide

/-- A character is white space when its code point lies in one of the ranges. -/
theorem isBlank_iff {c : Char} :
    isBlank c = true ↔ ∃ r ∈ blankRanges, r.1 ≤ c.toNat ∧ c.toNat ≤ r.2 :=
  Ranges.covers_iff ascendsFrom_blankRanges c.toNat

/-- `chars` without the white space at its start. -/
def trimStart (chars : List Char) : List Char := chars.dropWhile isBlank

/-- `chars` without the white space at its end. -/
def trimEnd (chars : List Char) : List Char := (trimStart chars.reverse).reverse

/-- `chars` without the white space at either end. -/
def trim (chars : List Char) : List Char := trimEnd (trimStart chars)

/-- What trimming leaves does not start with white space. -/
theorem isBlank_of_trimStart_eq_cons {chars rest : List Char} {c : Char}
    (h : trimStart chars = c :: rest) : isBlank c = false := by
  have hne : chars.dropWhile isBlank ≠ [] := by
    rw [trimStart] at h
    simp [h]
  have := List.head_dropWhile_not isBlank hne
  simpa [trimStart, h, show chars.dropWhile isBlank = c :: rest from h] using this

end Marginalia.Text
