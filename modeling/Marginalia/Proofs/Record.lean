import Mathlib.Data.List.Basic

/-!
What stands in a record after one of its entries.

A record lists what happened, the oldest first.  One more entry at the end is either the entry in
question or one more after it (`After.concat_iff`), and of two entries the later one stands after
the other (`After.eq_or_mem`).
-/

namespace Marginalia

/-- An entry stands in a record, and `since` is what the record has after it. -/
def After {α : Type} (record : List α) (entry : α) (since : List α) : Prop :=
  ∃ before, record = before ++ entry :: since

namespace After

variable {α : Type} {record since : List α} {entry last : α}

theorem not_nil : ¬After [] entry since := by
  rintro ⟨before, h⟩
  exact List.cons_ne_nil _ _ (List.append_eq_nil_iff.mp h.symm).2

/-- The last entry has nothing after it. -/
theorem concat (record : List α) (entry : α) : After (record ++ [entry]) entry [] :=
  ⟨record, rfl⟩

/-- What is added to a record stands after all its entries. -/
theorem append (h : After record entry since) (more : List α) :
    After (record ++ more) entry (since ++ more) := by
  obtain ⟨before, rfl⟩ := h
  exact ⟨before, by rw [List.append_assoc, List.cons_append]⟩

/-- An entry of a longer record is the last one, or the last one stands after it. -/
theorem concat_iff : After (record ++ [last]) entry since ↔
    since = [] ∧ last = entry ∨
      ∃ earlier, since = earlier ++ [last] ∧ After record entry earlier := by
  constructor
  · rintro ⟨before, h⟩
    rcases List.eq_nil_or_concat since with rfl | ⟨earlier, e, rfl⟩
    · left
      obtain ⟨-, hlast⟩ := List.append_inj' h rfl
      exact ⟨rfl, List.singleton_inj.mp hlast⟩
    · right
      rw [List.concat_eq_append, ← List.cons_append, ← List.append_assoc] at h
      obtain ⟨hrecord, hlast⟩ := List.append_inj' h rfl
      rw [List.concat_eq_append, List.singleton_inj.mp hlast]
      exact ⟨earlier, rfl, before, hrecord⟩
  · rintro (⟨rfl, rfl⟩ | ⟨earlier, rfl, h⟩)
    · exact concat record last
    · exact h.append [last]

/-- Of two entries of a record the later one stands after the other. -/
theorem eq_or_mem {entry' : α} {since' : List α} (h : After record entry since)
    (h' : After record entry' since') :
    entry = entry' ∧ since = since' ∨ entry ∈ since' ∨ entry' ∈ since := by
  obtain ⟨before, rfl⟩ := h
  obtain ⟨before', heq⟩ := h'
  rcases List.append_eq_append_iff.mp heq with ⟨between, rfl, hbetween⟩ | ⟨between, rfl, hbetween⟩
  · cases between with
    | nil =>
        cases hbetween
        exact Or.inl ⟨rfl, rfl⟩
    | cons first between =>
        rw [List.cons_append, List.cons.injEq] at hbetween
        exact Or.inr (Or.inr (hbetween.2 ▸ List.mem_append_right _ List.mem_cons_self))
  · cases between with
    | nil =>
        cases hbetween
        exact Or.inl ⟨rfl, rfl⟩
    | cons first between =>
        rw [List.cons_append, List.cons.injEq] at hbetween
        exact Or.inr (Or.inl (hbetween.2 ▸ List.mem_append_right _ List.mem_cons_self))

end After

end Marginalia
