import Marginalia.Finding

/-!
Maps whose keys are findings, kept in ascending order of the keys.

A map is the list of its entries, and the order is part of the type, so every map has exactly one
list of entries.  `get?_insert` and `get?_erase` say what the operations do to the entry of any key.
-/

namespace Marginalia

/-- A finite map from findings, as its entries in strictly ascending order of the keys. -/
structure FindingMap (α : Type) where
  entries : List (Finding × α)
  ascending : entries.Pairwise fun a b => a.1 < b.1

namespace FindingMap

variable {α : Type}

@[ext] theorem ext {m n : FindingMap α} (h : m.entries = n.entries) : m = n := by
  cases m
  cases n
  cases h
  rfl

/-- The map without entries. -/
def empty : FindingMap α := ⟨[], List.Pairwise.nil⟩

/-- The keys in ascending order. -/
def keys (m : FindingMap α) : List Finding := m.entries.map Prod.fst

/-- The number of entries. -/
def size (m : FindingMap α) : Nat := m.entries.length

/-- The value of a key. -/
def get? (m : FindingMap α) (f : Finding) : Option α := m.entries.lookup f

/-! ### Insertion -/

/-- Put an entry at its place in a list of entries; an entry of the same key is replaced. -/
def insertEntry (f : Finding) (a : α) : List (Finding × α) → List (Finding × α)
  | [] => [(f, a)]
  | (g, b) :: rest =>
      if f < g then (f, a) :: (g, b) :: rest
      else if f = g then (f, a) :: rest
      else (g, b) :: insertEntry f a rest

/-- An entry after an insertion is the new one or an old one. -/
theorem mem_insertEntry {f : Finding} {a : α} {e : Finding × α} {l : List (Finding × α)}
    (h : e ∈ insertEntry f a l) : e = (f, a) ∨ e ∈ l := by
  induction l with
  | nil =>
      left
      exact List.mem_singleton.mp h
  | cons d rest ih =>
      obtain ⟨g, b⟩ := d
      rw [insertEntry] at h
      split at h
      · exact List.mem_cons.mp h
      · split at h
        · rcases List.mem_cons.mp h with h | h
          · exact Or.inl h
          · exact Or.inr (List.mem_cons_of_mem _ h)
        · rcases List.mem_cons.mp h with h | h
          · exact Or.inr (h ▸ List.mem_cons_self ..)
          · exact (ih h).imp_right (List.mem_cons_of_mem _)

/-- Insertion keeps the order of the entries. -/
theorem pairwise_insertEntry (f : Finding) (a : α) {l : List (Finding × α)}
    (h : l.Pairwise fun x y => x.1 < y.1) :
    (insertEntry f a l).Pairwise fun x y => x.1 < y.1 := by
  induction l with
  | nil => exact List.pairwise_singleton ..
  | cons d rest ih =>
      obtain ⟨g, b⟩ := d
      obtain ⟨hg, hrest⟩ := List.pairwise_cons.mp h
      rw [insertEntry]
      split
      next hfg =>
        refine List.pairwise_cons.mpr ⟨fun e he => ?_, h⟩
        rcases List.mem_cons.mp he with rfl | he
        · exact hfg
        · exact Finding.lt_trans hfg (hg e he)
      next hfg =>
        split
        next heq =>
          subst heq
          exact List.pairwise_cons.mpr ⟨hg, hrest⟩
        next hne =>
          refine List.pairwise_cons.mpr ⟨fun e he => ?_, ih hrest⟩
          have hgf : g < f := by
            rcases Finding.lt_trichotomy f g with h1 | h1 | h1
            · exact absurd h1 hfg
            · exact absurd h1 hne
            · exact h1
          rcases mem_insertEntry he with rfl | he
          · exact hgf
          · exact hg e he

/-- The map with an entry put in or replaced. -/
def insert (m : FindingMap α) (f : Finding) (a : α) : FindingMap α :=
  ⟨insertEntry f a m.entries, pairwise_insertEntry f a m.ascending⟩

/-! ### Removal -/

/-- The map without the entry of a key. -/
def erase (m : FindingMap α) (f : Finding) : FindingMap α :=
  ⟨m.entries.filter fun e => e.1 != f, m.ascending.filter _⟩

/-! ### Lookup -/

@[simp] theorem get?_empty (g : Finding) : (empty : FindingMap α).get? g = none := rfl

/-- Looking up a key goes to the entry of that key. -/
theorem lookup_entry (f g : Finding) (a : α) (l : List (Finding × α)) :
    ((f, a) :: l).lookup g = if g = f then some a else l.lookup g := by
  by_cases h : g = f
  · subst h
    simp
  · rw [List.lookup_cons, beq_eq_false_iff_ne.mpr h, if_neg h]

/-- A key is looked up after an insertion as before it, except the inserted one. -/
theorem get?_insert (m : FindingMap α) (f g : Finding) (a : α) :
    (m.insert f a).get? g = if g = f then some a else m.get? g := by
  obtain ⟨l, hl⟩ := m
  show (insertEntry f a l).lookup g = if g = f then some a else l.lookup g
  clear hl
  induction l with
  | nil => exact lookup_entry f g a []
  | cons d rest ih =>
      obtain ⟨k, b⟩ := d
      rw [insertEntry]
      split
      · exact lookup_entry f g a _
      · split
        next hfk =>
          subst hfk
          rw [lookup_entry, lookup_entry]
          by_cases h : g = f <;> simp [h]
        next hfk =>
          rw [lookup_entry, lookup_entry, ih]
          by_cases h : g = f
          · subst h
            rw [if_neg hfk]
            simp
          · simp [h]

/-- A key is looked up after a removal as before it, except the removed one. -/
theorem get?_erase (m : FindingMap α) (f g : Finding) :
    (m.erase f).get? g = if g = f then none else m.get? g := by
  obtain ⟨l, hl⟩ := m
  show (l.filter fun e => e.1 != f).lookup g = if g = f then none else l.lookup g
  clear hl
  induction l with
  | nil => by_cases h : g = f <;> simp [h]
  | cons d rest ih =>
      obtain ⟨k, b⟩ := d
      by_cases hk : k = f
      · subst hk
        rw [List.filter_cons_of_neg (by simp), ih, lookup_entry]
        by_cases h : g = k <;> simp [h]
      · rw [List.filter_cons_of_pos (by simpa using hk), lookup_entry, lookup_entry, ih]
        by_cases h : g = f
        · subst h
          rw [if_neg (Ne.symm hk)]
          simp
        · simp [h]

end FindingMap

end Marginalia
