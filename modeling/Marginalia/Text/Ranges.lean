/-!
Membership in a table of code point ranges.

A property of characters that is data of a standard (white space, decimal digits, letters) is
given by its ranges in ascending order.  `covers` walks such a table and stops at the first range
that starts above the code point; `covers_iff` says that on an ascending table this is plain
membership in one of the ranges.  A table is checked to be ascending in one walk (`ascendsFrom`).
-/

namespace Marginalia.Text

/-- Ranges of code points, both ends included. -/
abbrev Ranges := List (Nat × Nat)

namespace Ranges

/-- Whether `n` lies in one of the ranges.  The walk stops at the first range above `n`. -/
def covers : Ranges → Nat → Bool
  | [], _ => false
  | (lo, hi) :: rest, n => if n < lo then false else n ≤ hi || covers rest n

/-- Whether all ranges hold something, and the first starts at `least` or above and every other one
above the end of the range before it. -/
def ascendsFrom (least : Nat) : Ranges → Bool
  | [] => true
  | (lo, hi) :: rest => least ≤ lo && lo ≤ hi && ascendsFrom (hi + 1) rest

variable {t : Ranges} {least lo hi : Nat}

theorem ascendsFrom_cons : ascendsFrom least ((lo, hi) :: t) = true ↔
    (least ≤ lo ∧ lo ≤ hi) ∧ ascendsFrom (hi + 1) t = true := by
  simp [ascendsFrom]

/-- Ranges that ascend from `least` hold nothing below it. -/
theorem le_of_ascendsFrom (h : t.ascendsFrom least = true) {r : Nat × Nat} (hr : r ∈ t) :
    least ≤ r.1 := by
  induction t generalizing least with
  | nil => exact absurd hr List.not_mem_nil
  | cons first rest ih =>
      obtain ⟨⟨hleast, hfirst⟩, hrest⟩ := ascendsFrom_cons.mp h
      rcases List.mem_cons.mp hr with rfl | hr
      · exact hleast
      · have := ih hrest hr
        omega

/-- On a table that ascends, `covers` is membership in a range. -/
theorem covers_iff (h : t.ascendsFrom least = true) (n : Nat) :
    t.covers n = true ↔ ∃ r ∈ t, r.1 ≤ n ∧ n ≤ r.2 := by
  induction t generalizing least with
  | nil => simp [covers]
  | cons first rest ih =>
      obtain ⟨lo, hi⟩ := first
      obtain ⟨⟨-, hfirst⟩, hrest⟩ := ascendsFrom_cons.mp h
      simp only [covers, List.mem_cons, exists_eq_or_imp]
      by_cases hlo : n < lo
      · -- the walk stops here, and the ranges to come start higher still
        rw [if_pos hlo]
        refine iff_of_false Bool.false_ne_true ?_
        rintro (⟨hle, -⟩ | ⟨r, hr, hle, -⟩)
        · exact absurd hle (Nat.not_le.mpr hlo)
        · have := le_of_ascendsFrom hrest hr
          omega
      · rw [if_neg hlo, Bool.or_eq_true, decide_eq_true_eq, ih hrest]
        exact or_congr_left (and_iff_right (Nat.not_lt.mp hlo)).symm

end Ranges

end Marginalia.Text
