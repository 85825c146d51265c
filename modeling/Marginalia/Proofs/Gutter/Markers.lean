import Marginalia.Gutter

/-!
What a gutter holds after attaching.

The entries of a map are its values (`FindingMap.mem_entries_iff`), so a map is known by its values
(`FindingMap.ext_get?`), and attaching holds the anchor of each finding that has one, and nothing
else (`Gutter.get?_anchorAll_eq_some_iff`).
-/

namespace Marginalia

/-! ### Entries of a map -/

theorem FindingMap.mem_entries_iff {α : Type} {m : FindingMap α} {f : Finding} {a : α} :
    (f, a) ∈ m.entries ↔ m.get? f = some a := by
  obtain ⟨l, hl⟩ := m
  show (f, a) ∈ l ↔ l.lookup f = some a
  induction l with
  | nil =>
      constructor
      · exact fun h => absurd h List.not_mem_nil
      · exact fun h => nomatch h
  | cons e rest ih =>
      obtain ⟨g, b⟩ := e
      obtain ⟨hg, hrest⟩ := List.pairwise_cons.mp hl
      rw [lookup_entry, List.mem_cons, Prod.mk.injEq]
      split
      next hfg =>
        -- the keys ascend, so the key at the front is in no later entry
        have hnot : (f, a) ∉ rest := fun hmem => Finding.lt_irrefl g (hfg ▸ hg (f, a) hmem)
        rw [Option.some_inj]
        constructor
        · rintro (⟨-, hab⟩ | hmem)
          · exact hab.symm
          · exact absurd hmem hnot
        · exact fun hba => Or.inl ⟨hfg, hba.symm⟩
      next hfg =>
        rw [← ih hrest]
        constructor
        · rintro (⟨hfg', -⟩ | hmem)
          · exact absurd hfg' hfg
          · exact hmem
        · exact Or.inr

theorem FindingMap.mem_keys_iff {α : Type} {m : FindingMap α} {f : Finding} :
    f ∈ m.keys ↔ ∃ a, m.get? f = some a := by
  simp only [FindingMap.keys, List.mem_map, Prod.exists, FindingMap.mem_entries_iff,
    exists_and_right, exists_eq_right]

theorem FindingMap.nodup_entries {α : Type} (m : FindingMap α) : m.entries.Nodup := by
  apply m.ascending.imp
  rintro x y hlt rfl
  exact Finding.lt_irrefl _ hlt

/-- The entries of a map are one of them and those of the map without it. -/
theorem FindingMap.perm_entries_erase {α : Type} {m : FindingMap α} {f : Finding} {a : α}
    (h : m.get? f = some a) : m.entries.Perm ((f, a) :: (m.erase f).entries) := by
  have hnot : (f, a) ∉ (m.erase f).entries := by
    rw [FindingMap.mem_entries_iff, FindingMap.get?_erase, if_pos rfl]
    exact Option.some_ne_none a ∘ Eq.symm
  rw [List.perm_ext_iff_of_nodup m.nodup_entries (List.nodup_cons.mpr ⟨hnot, nodup_entries _⟩)]
  rintro ⟨f', a'⟩
  rw [List.mem_cons, Prod.mk.injEq, FindingMap.mem_entries_iff, FindingMap.mem_entries_iff,
    FindingMap.get?_erase]
  by_cases hf : f' = f
  · subst hf
    simp [h, eq_comm]
  · simp [hf]

/-- Maps with the same values are one map. -/
theorem FindingMap.ext_get? {α : Type} {m n : FindingMap α} (h : ∀ f, m.get? f = n.get? f) :
    m = n := by
  apply FindingMap.ext
  have hperm : m.entries.Perm n.entries := by
    rw [List.perm_ext_iff_of_nodup m.nodup_entries n.nodup_entries]
    rintro ⟨f, a⟩
    rw [FindingMap.mem_entries_iff, FindingMap.mem_entries_iff, h]
  -- both lists ascend, and only one arrangement of their entries does
  apply hperm.eq_of_pairwise ?_ m.ascending n.ascending
  intro x y _ _ hxy hyx
  exact absurd (Finding.lt_trans hxy hyx) (Finding.lt_irrefl _)

theorem toOption_eq_some_iff {ε α : Type} {x : Except ε α} {a : α} :
    x.toOption = some a ↔ x = .ok a := by
  cases x with
  | error e => simp [Except.toOption]
  | ok b => simp [Except.toOption]

namespace Gutter

variable {Element Stamp : Type}

/-- The findings of a gutter are those that have an element. -/
theorem mem_findings_iff {g : Gutter Element Stamp} {f : Finding} :
    f ∈ g.findings ↔ ∃ element, g.anchor? f = some element := by
  rw [findings, anchor?]
  rcases g.held with - | bindings
  · simp
  · exact FindingMap.mem_keys_iff

/-! ### Attaching -/

/-- A fold that sets the entry of each finding that has a value sets them all. -/
theorem get?_foldl {set : FindingMap Element → Finding → FindingMap Element}
    (value : Finding → Option Element)
    (hset : ∀ m f g, (set m f).get? g = if g = f then (value f).or (m.get? g) else m.get? g)
    (findings : List Finding) (m : FindingMap Element) (g : Finding) :
    (findings.foldl set m).get? g
      = if g ∈ findings then (value g).or (m.get? g) else m.get? g := by
  induction findings generalizing m with
  | nil => rfl
  | cons f rest ih =>
      rw [List.foldl_cons, ih, hset]
      by_cases hgf : g = f
      · -- setting an entry again to the same value changes nothing
        subst hgf
        rw [if_pos rfl, if_pos List.mem_cons_self]
        by_cases hmem : g ∈ rest
        · rw [if_pos hmem, ← Option.or_assoc, Option.or_self]
        · rw [if_neg hmem]
      · have hmem : g ∈ f :: rest ↔ g ∈ rest := by
          simp [hgf]
        simp only [hmem, if_neg hgf]

/-- Each finding is held with its anchor, if it has one. -/
theorem get?_anchorAll (d : Document Element Stamp) (findings : List Finding) (f : Finding) :
    (anchorAll d findings).get? f = if f ∈ findings then (d.anchor f.line).toOption else none := by
  rw [anchorAll, get?_foldl (fun f => (d.anchor f.line).toOption) ?_, FindingMap.get?_empty,
    Option.or_none]
  intro m f g
  rcases hanchor : d.anchor f.line with reason | element
  · simp [Except.toOption]
  · simp [Except.toOption, FindingMap.get?_insert]

/-- What is held after attaching is the anchor of each finding that has one. -/
theorem get?_anchorAll_eq_some_iff {d : Document Element Stamp} {findings : List Finding}
    {f : Finding} {element : Element} :
    (anchorAll d findings).get? f = some element
      ↔ f ∈ findings ∧ d.anchor f.line = .ok element := by
  rw [get?_anchorAll]
  by_cases hf : f ∈ findings
  · simp [hf, toOption_eq_some_iff]
  · simp [hf]

end Gutter

end Marginalia
