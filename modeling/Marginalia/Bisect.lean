/-!
Binary search for the point where a property of positions stops to hold.

`bisect` needs the property to hold on an initial stretch of the window and nowhere after it
(`Initial`).  Then every position before the result has it (`holds_of_lt_bisect`) and none from the
result on (`not_holds_of_bisect_le`).  In a list whose first part has the property and whose second
part has not, the result is where the second part begins (`bisect_append`).
-/

namespace Marginalia

/-- Halve the window `[lo, hi)` until it is empty: a position with the property moves the lower end
past it, one without moves the upper end to it. -/
def bisect (holds : Nat → Bool) (lo hi : Nat) : Nat :=
  if lo < hi then
    if holds (lo + (hi - lo) / 2) then bisect holds (lo + (hi - lo) / 2 + 1) hi
    else bisect holds lo (lo + (hi - lo) / 2)
  else lo
  termination_by hi - lo

/-- A property that holds on an initial stretch: where it holds, it holds before. -/
def Initial (holds : Nat → Bool) : Prop := ∀ i j, i ≤ j → holds j = true → holds i = true

variable {holds : Nat → Bool} {lo hi : Nat}

theorem holds_of_lt_bisect (hinit : Initial holds) {i : Nat} (hlo : lo ≤ i)
    (hi' : i < bisect holds lo hi) : holds i = true := by
  fun_induction bisect holds lo hi with
  | case1 lo hi hlt hmid ih =>
      by_cases hle : lo + (hi - lo) / 2 + 1 ≤ i
      · exact ih hle hi'
      · exact hinit i _ (by omega) hmid
  | case2 lo hi hlt hmid ih => exact ih hlo hi'
  | case3 lo hi hlt => omega

theorem not_holds_of_bisect_le (hinit : Initial holds) {i : Nat} (hle : bisect holds lo hi ≤ i)
    (hhi : i < hi) : holds i = false := by
  fun_induction bisect holds lo hi with
  | case1 lo hi hlt hmid ih => exact ih hle hhi
  | case2 lo hi hlt hmid ih =>
      by_cases hi' : i < lo + (hi - lo) / 2
      · exact ih hle hi'
      · rcases hval : holds i with - | -
        · rfl
        · exact absurd (hinit _ i (by omega) hval) hmid
  | case3 lo hi hlt => omega

/-- The result is the position before which the property holds and from which on it does not. -/
theorem bisect_eq {k : Nat} (h : ∀ i, holds i = true ↔ i < k) (hlo : lo ≤ k) (hhi : k ≤ hi) :
    bisect holds lo hi = k := by
  have hinit : Initial holds := fun i j hij hj => (h i).mpr (Nat.lt_of_le_of_lt hij ((h j).mp hj))
  apply Nat.le_antisymm
  · -- the position before the result has the property
    rcases Nat.lt_or_ge k (bisect holds lo hi) with hlt | hle
    · exact absurd ((h k).mp (holds_of_lt_bisect hinit hlo hlt)) (Nat.lt_irrefl k)
    · exact hle
  · rcases Nat.lt_or_ge (bisect holds lo hi) k with hlt | hle
    · have hnot := not_holds_of_bisect_le hinit (Nat.le_refl _) (Nat.lt_of_lt_of_le hlt hhi)
      rw [(h _).mpr hlt] at hnot
      cases hnot
    · exact hle

/-- The positions with a property that holds on an initial stretch, and on no position from the end
of the window on, are those before the result. -/
theorem lt_bisect_iff (hinit : Initial holds) (hend : ∀ i, hi ≤ i → holds i = false) {i : Nat} :
    i < bisect holds 0 hi ↔ holds i = true := by
  constructor
  · exact holds_of_lt_bisect hinit (Nat.zero_le i)
  · intro hi'
    apply Nat.lt_of_not_le
    intro hle
    rcases Nat.lt_or_ge i hi with hlt | hge
    · rw [not_holds_of_bisect_le hinit hle hlt] at hi'
      cases hi'
    · rw [hend i hge] at hi'
      cases hi'

/-- In a list where what has a property stands before what has not, the property holds on an initial
stretch. -/
theorem initial_of_pairwise {α : Type} {p : α → Bool} {l : List α}
    (h : l.Pairwise fun a b => p b = true → p a = true) :
    Initial fun i => l[i]?.any p := by
  intro i j hij hj
  dsimp only at hj ⊢
  rcases hb : l[j]? with - | b
  · rw [hb] at hj
    cases hj
  · obtain ⟨hjlt, rfl⟩ := List.getElem?_eq_some_iff.mp hb
    rw [hb, Option.any_some] at hj
    rw [List.getElem?_eq_getElem (Nat.lt_of_le_of_lt hij hjlt), Option.any_some]
    rcases Nat.eq_or_lt_of_le hij with rfl | hlt
    · exact hj
    · exact List.pairwise_iff_getElem.mp h i j _ hjlt hlt hj

theorem bisect_append {α : Type} {p : α → Bool} {before after : List α}
    (hbefore : ∀ a ∈ before, p a = true) (hafter : ∀ a ∈ after, p a = false) :
    bisect (fun i => (before ++ after)[i]?.any p) 0 (before ++ after).length = before.length := by
  apply bisect_eq
  · intro i
    rcases Nat.lt_or_ge i before.length with hi | hi
    · rw [List.getElem?_append_left hi, List.getElem?_eq_getElem hi]
      exact iff_of_true (hbefore _ (List.getElem_mem hi)) hi
    · rw [List.getElem?_append_right hi]
      refine iff_of_false ?_ (Nat.not_lt.mpr hi)
      rcases h : after[i - before.length]? with - | a
      · exact Bool.false_ne_true
      · rw [Option.any_some, hafter a (List.mem_of_getElem? h)]
        exact Bool.false_ne_true
  · exact Nat.zero_le _
  · rw [List.length_append]
    exact Nat.le_add_right ..

end Marginalia
