import Marginalia.Proofs.Gutter.Markers

/-!
Which markers a collection gains.

Collecting goes through the findings in ascending order and leaves out a marker that looks like one
already there, be it from before or added in the same pass.  `Marker.fresh` is that pass over a list
of markers, and collecting appends what it keeps (`Gutter.foldl_addMarker`).

After the pass every marker of the list looks like one in the collection
(`Marker.exists_duplicate`), which is why a second pass adds nothing (`Marker.fresh_append_fresh`).
Where the equality of elements is lawful, looking the same is having one key, so of the markers of a
key that is not in the collection the first is kept and no other: in an ascending list, the one
whose finding is least (`Marker.mem_fresh`).
-/

namespace Marginalia

/-! ### One pass -/

namespace Marker

variable {Element : Type} [BEq Element]

/-- The markers of a list that look like none in a collection and like none kept before them. -/
def fresh (collection : List (Marker Element)) : List (Marker Element) → List (Marker Element)
  | [] => []
  | m :: rest =>
      if collection.any fun n => n.duplicates m then fresh collection rest
      else m :: fresh (collection ++ [m]) rest

/-- A pass keeps the order of the list. -/
theorem fresh_sublist (collection ms : List (Marker Element)) :
    (fresh collection ms).Sublist ms := by
  induction ms generalizing collection with
  | nil => exact List.Sublist.slnil
  | cons m rest ih =>
      rw [fresh]
      split
      · exact (ih collection).cons m
      · exact (ih (collection ++ [m])).cons_cons m

/-- A pass over the first marker of a list passes it over if it looks like one in the collection. -/
theorem fresh_cons_of_duplicate {collection rest : List (Marker Element)} {m : Marker Element}
    (h : ∃ n ∈ collection, n.duplicates m = true) :
    fresh collection (m :: rest) = fresh collection rest := by
  rw [fresh, if_pos (List.any_eq_true.mpr h)]

/-- A pass over the first marker of a list keeps it if it looks like none in the collection. -/
theorem fresh_cons_of_new {collection rest : List (Marker Element)} {m : Marker Element}
    (h : ¬∃ n ∈ collection, n.duplicates m = true) :
    fresh collection (m :: rest) = m :: fresh (collection ++ [m]) rest := by
  rw [fresh, if_neg fun hany => h (List.any_eq_true.mp hany)]

/-- A pass over two lists is a pass over the first and then one over the second. -/
theorem fresh_append (collection a b : List (Marker Element)) :
    fresh collection (a ++ b)
      = fresh collection a ++ fresh (collection ++ fresh collection a) b := by
  induction a generalizing collection with
  | nil => rw [List.nil_append, fresh, List.nil_append, List.append_nil]
  | cons m a ih =>
      rw [List.cons_append]
      by_cases hold : ∃ n ∈ collection, n.duplicates m = true
      · rw [fresh_cons_of_duplicate hold, fresh_cons_of_duplicate hold, ih]
      · rw [fresh_cons_of_new hold, fresh_cons_of_new hold, ih, List.cons_append,
          List.append_assoc collection, List.singleton_append]

/-- Nothing of a list is fresh where all its markers look like some in the collection. -/
theorem fresh_eq_nil {collection ms : List (Marker Element)}
    (h : ∀ m ∈ ms, ∃ n ∈ collection, n.duplicates m = true) : fresh collection ms = [] := by
  induction ms with
  | nil => rfl
  | cons m rest ih =>
      obtain ⟨hm, hrest⟩ := List.forall_mem_cons.mp h
      rw [fresh_cons_of_duplicate hm]
      exact ih hrest

/-- A pass over a list adds no duplicates to a collection without. -/
theorem pairwise_append_fresh {collection : List (Marker Element)}
    (h : collection.Pairwise fun m n => m.duplicates n = false) (ms : List (Marker Element)) :
    (collection ++ fresh collection ms).Pairwise fun m n => m.duplicates n = false := by
  induction ms generalizing collection with
  | nil =>
      rw [fresh, List.append_nil]
      exact h
  | cons first rest ih =>
      by_cases hold : ∃ n ∈ collection, n.duplicates first = true
      · rw [fresh_cons_of_duplicate hold]
        exact ih h
      · rw [fresh_cons_of_new hold, List.append_cons]
        apply ih
        refine List.pairwise_append.mpr ⟨h, List.pairwise_singleton .., ?_⟩
        intro n hn m hm
        rw [List.mem_singleton.mp hm, ← Bool.not_eq_true]
        exact fun hdup => hold ⟨n, hn, hdup⟩

/-! ### Markers that look the same -/

theorem duplicates_eq_true_iff {m n : Marker Element} :
    m.duplicates n = true ↔ (m.anchor == n.anchor) = true ∧ m.icon = n.icon ∧
      m.refresh = n.refresh ∧ m.tooltip = n.tooltip := by
  simp [duplicates, and_assoc]

theorem duplicates_self [ReflBEq Element] (m : Marker Element) : m.duplicates m = true :=
  duplicates_eq_true_iff.mpr ⟨BEq.rfl, rfl, rfl, rfl⟩

/-- After a pass every marker of the list looks like one in the collection. -/
theorem exists_duplicate [ReflBEq Element] {ms : List (Marker Element)}
    (collection : List (Marker Element)) {m : Marker Element} (h : m ∈ ms) :
    ∃ n ∈ collection ++ fresh collection ms, n.duplicates m = true := by
  induction ms generalizing collection with
  | nil => exact absurd h List.not_mem_nil
  | cons first rest ih =>
      by_cases hold : ∃ n ∈ collection, n.duplicates first = true
      · rw [fresh_cons_of_duplicate hold]
        rcases List.mem_cons.mp h with rfl | h
        · obtain ⟨n, hn, hdup⟩ := hold
          exact ⟨n, List.mem_append_left _ hn, hdup⟩
        · exact ih collection h
      · rw [fresh_cons_of_new hold]
        rcases List.mem_cons.mp h with rfl | h
        · exact ⟨m, List.mem_append_right _ List.mem_cons_self, duplicates_self m⟩
        · rw [List.append_cons]
          exact ih (collection ++ [first]) h

/-- A second pass adds nothing. -/
theorem fresh_append_fresh [ReflBEq Element] (collection ms : List (Marker Element)) :
    fresh (collection ++ fresh collection ms) ms = [] :=
  fresh_eq_nil fun _ hm => exists_duplicate collection hm

variable [LawfulBEq Element]

theorem duplicates_eq_false_iff {m n : Marker Element} :
    m.duplicates n = false ↔ m.key ≠ n.key := by
  rw [← Bool.not_eq_true, duplicates_iff]

/-- After a pass every key of the list is in the collection. -/
theorem exists_key {ms : List (Marker Element)} (collection : List (Marker Element))
    {m : Marker Element} (h : m ∈ ms) : ∃ n ∈ collection ++ fresh collection ms, n.key = m.key := by
  obtain ⟨n, hn, hdup⟩ := exists_duplicate collection h
  exact ⟨n, hn, duplicates_iff.mp hdup⟩

/-- Of an ascending list a pass keeps the markers whose key is not in the collection, and of those
with one key the one whose finding is least. -/
theorem mem_fresh {collection ms : List (Marker Element)}
    (hms : ms.Pairwise fun m n => m.finding < n.finding) {m : Marker Element} :
    m ∈ fresh collection ms ↔ m ∈ ms ∧ (∀ n ∈ collection, n.key ≠ m.key) ∧
      ∀ n ∈ ms, n.finding < m.finding → n.key ≠ m.key := by
  induction ms generalizing collection with
  | nil => simp [fresh]
  | cons first rest ih =>
      obtain ⟨hfirst, hrest⟩ := List.pairwise_cons.mp hms
      -- nothing in the list is below its first marker
      have hleast : ∀ n ∈ first :: rest, ¬n.finding < first.finding := by
        intro n hn hlt
        rcases List.mem_cons.mp hn with rfl | hn
        · exact Finding.lt_irrefl _ hlt
        · exact Finding.lt_irrefl _ (Finding.lt_trans hlt (hfirst n hn))
      by_cases hkey : ∃ n ∈ collection, n.duplicates first = true
      · -- the first marker is passed over, and so is every later one that looks like it
        rw [fresh_cons_of_duplicate hkey, ih hrest]
        obtain ⟨n, hn, hn'⟩ := hkey
        rw [duplicates_iff] at hn'
        constructor
        · rintro ⟨hm, hnew, hmin⟩
          refine ⟨List.mem_cons_of_mem _ hm, hnew, ?_⟩
          rintro k hk hlt hkm
          rcases List.mem_cons.mp hk with rfl | hk
          · exact hnew n hn (hn'.trans hkm)
          · exact hmin k hk hlt hkm
        · rintro ⟨hm, hnew, hmin⟩
          rcases List.mem_cons.mp hm with rfl | hm
          · exact absurd hn' (hnew n hn)
          · exact ⟨hm, hnew, fun k hk => hmin k (List.mem_cons_of_mem _ hk)⟩
      · -- the first marker is kept, and stands for its key from now on
        rw [fresh_cons_of_new hkey, List.mem_cons, ih hrest]
        constructor
        · rintro (rfl | ⟨hm, hnew, hmin⟩)
          · refine ⟨List.mem_cons_self, fun n hn heq => hkey ⟨n, hn, duplicates_iff.mpr heq⟩, ?_⟩
            exact fun n hn hlt => absurd hlt (hleast n hn)
          · refine ⟨List.mem_cons_of_mem _ hm, ?_, ?_⟩
            · exact fun n hn => hnew n (List.mem_append_left _ hn)
            · intro k hk hlt
              rcases List.mem_cons.mp hk with rfl | hk
              · exact hnew k (List.mem_append_right _ (List.mem_singleton.mpr rfl))
              · exact hmin k hk hlt
        · rintro ⟨hm, hnew, hmin⟩
          rcases List.mem_cons.mp hm with rfl | hm
          · exact Or.inl rfl
          · refine Or.inr ⟨hm, ?_, fun k hk => hmin k (List.mem_cons_of_mem _ hk)⟩
            intro n hn
            rcases List.mem_append.mp hn with hn | hn
            · exact hnew n hn
            · rw [List.mem_singleton.mp hn]
              exact hmin first List.mem_cons_self (hfirst m hm)

end Marker

namespace Gutter

variable {Element Stamp : Type}

/-! ### The markers of what is held -/

/-- The marker of an attached finding, if its element still exists. -/
def marker? (style : Style) (d : Document Element Stamp) (binding : Finding × Element) :
    Option (Marker Element) :=
  (d.range binding.2).map (marker style binding.1 binding.2)

/-- The markers of some attached findings whose elements still exist. -/
def markersOf (style : Style) (d : Document Element Stamp) (anchors : FindingMap Element) :
    List (Marker Element) :=
  anchors.entries.filterMap (marker? style d)

theorem mem_markersOf {style : Style} {d : Document Element Stamp} {anchors : FindingMap Element}
    {m : Marker Element} :
    m ∈ markersOf style d anchors ↔ ∃ f element range,
      anchors.get? f = some element ∧ d.range element = some range ∧
        m = marker style f element range := by
  simp only [markersOf, marker?, List.mem_filterMap, Prod.exists, Option.map_eq_some_iff,
    FindingMap.mem_entries_iff, eq_comm (a := m), exists_and_left]

/-- The markers ascend as the findings do. -/
theorem pairwise_markersOf (style : Style) (d : Document Element Stamp)
    (anchors : FindingMap Element) :
    (markersOf style d anchors).Pairwise fun m n => m.finding < n.finding := by
  apply List.Pairwise.filterMap (marker? style d) ?_ anchors.ascending
  intro a b hab m hm n hn
  obtain ⟨range, -, rfl⟩ := Option.map_eq_some_iff.mp hm
  obtain ⟨range', -, rfl⟩ := Option.map_eq_some_iff.mp hn
  exact hab

/-- Two markers of one gutter look the same when they are at one element and say the same. -/
theorem key_marker_eq_iff {style : Style} {f f' : Finding} {element element' : Element}
    {range range' : Span} :
    (marker style f element range).key = (marker style f' element' range').key
      ↔ element = element' ∧ f.text = f'.text := by
  simp [Marker.key, marker, Marker.tooltip]

variable [BEq Element]

/-- What is fresh of the markers of a gutter ascends as the findings do. -/
theorem pairwise_fresh_markersOf (style : Style) (d : Document Element Stamp)
    (anchors : FindingMap Element) (collection : List (Marker Element)) :
    (Marker.fresh collection (markersOf style d anchors)).Pairwise
      fun m n => m.finding < n.finding :=
  (pairwise_markersOf style d anchors).sublist (Marker.fresh_sublist ..)

/-- A marker is fresh when it is that of a finding whose element exists, the collection has none
that looks the same, and no lesser finding says the same at the same element. -/
theorem mem_fresh_markersOf [LawfulBEq Element] {style : Style} {d : Document Element Stamp}
    {anchors : FindingMap Element} {collection : List (Marker Element)} {m : Marker Element} :
    m ∈ Marker.fresh collection (markersOf style d anchors) ↔ ∃ f element range,
      anchors.get? f = some element ∧ d.range element = some range ∧
        m = marker style f element range ∧ (∀ n ∈ collection, n.duplicates m = false) ∧
        ∀ f' < f, f'.text = f.text → anchors.get? f' ≠ some element := by
  rw [Marker.mem_fresh (pairwise_markersOf style d anchors)]
  simp only [Marker.duplicates_eq_false_iff]
  constructor
  · rintro ⟨hm, hnew, hleast⟩
    obtain ⟨f, element, range, hf, hrange, rfl⟩ := mem_markersOf.mp hm
    refine ⟨f, element, range, hf, hrange, rfl, hnew, ?_⟩
    intro f' hlt htext hf'
    have hm' : marker style f' element range ∈ markersOf style d anchors :=
      mem_markersOf.mpr ⟨f', element, range, hf', hrange, rfl⟩
    exact hleast _ hm' hlt (key_marker_eq_iff.mpr ⟨rfl, htext⟩)
  · rintro ⟨f, element, range, hf, hrange, rfl, hnew, hleast⟩
    refine ⟨mem_markersOf.mpr ⟨f, element, range, hf, hrange, rfl⟩, hnew, ?_⟩
    intro n hn hlt hkey
    obtain ⟨f', element', range', hf', -, rfl⟩ := mem_markersOf.mp hn
    obtain ⟨rfl, htext⟩ := key_marker_eq_iff.mp hkey
    exact hleast f' hlt htext hf'

/-- Adding one marker after another is one pass over them. -/
theorem foldl_addMarker (style : Style) (d : Document Element Stamp)
    (bindings : List (Finding × Element)) (collection : List (Marker Element)) :
    bindings.foldl (addMarker style d) collection
      = collection ++ Marker.fresh collection (bindings.filterMap (marker? style d)) := by
  induction bindings generalizing collection with
  | nil => exact (List.append_nil collection).symm
  | cons binding rest ih =>
      rw [List.foldl_cons, ih, addMarker, List.filterMap_cons, marker?]
      rcases d.range binding.2 with - | range
      · rfl
      · show _ = collection ++ Marker.fresh collection (marker style binding.1 binding.2 range :: _)
        rw [Marker.fresh]
        dsimp only
        split
        · rfl
        · rw [← List.append_cons]

/-! ### Collecting -/

variable [BEq Stamp]

theorem collect_of_none {g : Gutter Element Stamp} (h : g.held = none) (d : Document Element Stamp)
    (collection : List (Marker Element)) : g.collect d collection = (.added 0, collection, g) := by
  rw [collect, h]

/-- The findings of a document that has changed are given up. -/
theorem collect_of_stale {g : Gutter Element Stamp} {bindings : Bindings Element Stamp}
    (h : g.held = some bindings) {d : Document Element Stamp}
    (hstamp : (bindings.stamp == d.stamp) = false) (collection : List (Marker Element)) :
    g.collect d collection = (.invalidated, collection, { g with held := none }) := by
  rw [collect, h]
  dsimp only
  rw [if_neg (ne_true_of_eq_false hstamp)]

/-- The findings of a document that is as it was are kept, and what is fresh of their markers is
added. -/
theorem collect_of_current {g : Gutter Element Stamp} {bindings : Bindings Element Stamp}
    (h : g.held = some bindings) {d : Document Element Stamp}
    (hstamp : (bindings.stamp == d.stamp) = true) (collection : List (Marker Element)) :
    let added := Marker.fresh collection (markersOf g.style d bindings.anchors)
    g.collect d collection = (.added added.length, collection ++ added, g) := by
  intro added
  rw [collect, h]
  dsimp only
  rw [if_pos hstamp, foldl_addMarker, List.length_append, Nat.add_sub_cancel_left]
  rfl

/-- The findings are given up just when the document no longer has their stamp. -/
theorem collect_eq_invalidated_iff {g : Gutter Element Stamp} {d : Document Element Stamp}
    {collection : List (Marker Element)} :
    (g.collect d collection).1 = .invalidated
      ↔ ∃ bindings, g.held = some bindings ∧ (bindings.stamp == d.stamp) = false := by
  rcases hheld : g.held with - | bindings
  · simp [collect_of_none hheld]
  · rcases hstamp : bindings.stamp == d.stamp
    · simp [collect_of_stale hheld hstamp, hstamp]
    · simp [collect_of_current hheld hstamp, hstamp]

/-- Unless the findings are given up, collecting leaves the gutter as it is, whatever has become of
the elements. -/
theorem gutter_of_collect {g : Gutter Element Stamp} {d : Document Element Stamp}
    {collection : List (Marker Element)} (h : (g.collect d collection).1 ≠ .invalidated) :
    (g.collect d collection).2.2 = g := by
  rcases hheld : g.held with - | bindings
  · rw [collect_of_none hheld]
  · rcases hstamp : bindings.stamp == d.stamp
    · rw [collect_of_stale hheld hstamp] at h
      exact absurd rfl h
    · rw [collect_of_current hheld hstamp]

/-! ### Asking for the markers -/

theorem query_of_none {g : Gutter Element Stamp} (h : g.held = none)
    (d : Document Element Stamp) : g.query d = (.markers [], g) := by
  rw [query, collect_of_none h]

/-- The findings of a document that has changed are given up. -/
theorem query_of_stale {g : Gutter Element Stamp} {bindings : Bindings Element Stamp}
    (h : g.held = some bindings) {d : Document Element Stamp}
    (hstamp : (bindings.stamp == d.stamp) = false) :
    g.query d = (.invalidated, { g with held := none }) := by
  rw [query, collect_of_stale h hstamp]

/-- The findings of a document that is as it was are shown, each look once, and kept. -/
theorem query_of_current {g : Gutter Element Stamp} {bindings : Bindings Element Stamp}
    (h : g.held = some bindings) {d : Document Element Stamp}
    (hstamp : (bindings.stamp == d.stamp) = true) :
    g.query d = (.markers (Marker.fresh [] (markersOf g.style d bindings.anchors)), g) := by
  rw [query, collect_of_current h hstamp]
  rfl

/-- Asking for the markers gives the findings up when collecting them does. -/
theorem query_eq_invalidated_iff {g : Gutter Element Stamp} {d : Document Element Stamp} :
    (g.query d).1 = .invalidated ↔ (g.collect d []).1 = .invalidated := by
  rw [query]
  rcases g.collect d [] with ⟨count | -, ms, g'⟩ <;> simp

/-- Asking for the markers leaves the gutter that collecting them leaves. -/
theorem gutter_of_query (g : Gutter Element Stamp) (d : Document Element Stamp) :
    (g.query d).2 = (g.collect d []).2.2 := by
  rw [query]
  rcases g.collect d [] with ⟨count | -, ms, g'⟩ <;> rfl

/-! ### What is added -/

/-- No two of the markers of a document look the same. -/
theorem pairwise_query (g : Gutter Element Stamp) (d : Document Element Stamp) :
    (g.query d).1.toList.Pairwise fun m n => m.duplicates n = false := by
  rcases hheld : g.held with - | bindings
  · rw [query_of_none hheld]
    exact List.Pairwise.nil
  · rcases hstamp : bindings.stamp == d.stamp
    · rw [query_of_stale hheld hstamp]
      exact List.Pairwise.nil
    · rw [query_of_current hheld hstamp]
      exact Marker.pairwise_append_fresh List.Pairwise.nil _

variable [LawfulBEq Element]

/-- Collecting is exact.  Without findings it changes nothing.  Where the document no longer has
the stamp of the findings, they are given up and the collection stays as it is.  Otherwise the
gutter stays as it is, and the collection gains, in ascending order of the findings, the marker of
each finding whose element exists, that looks like none in the collection, and that no lesser
finding at the same element says as well; the answer is their number.

So no two markers that look the same are added to a collection without such, and collecting again
adds nothing.  Nor do two markers of a document look the same. -/
theorem collect_exact (g : Gutter Element Stamp) (d : Document Element Stamp)
    (collection : List (Marker Element)) :
    (g.held = none → g.collect d collection = (.added 0, collection, g)) ∧
      (∀ bindings, g.held = some bindings → (bindings.stamp == d.stamp) = false →
        g.collect d collection = (.invalidated, collection, { g with held := none })) ∧
      (∀ bindings, g.held = some bindings → (bindings.stamp == d.stamp) = true →
        ∃ added, g.collect d collection = (.added added.length, collection ++ added, g) ∧
          (added.Pairwise fun m n => m.finding < n.finding) ∧
          (∀ m, m ∈ added ↔ ∃ f element range,
            bindings.anchors.get? f = some element ∧ d.range element = some range ∧
              m = marker g.style f element range ∧
              (∀ n ∈ collection, n.duplicates m = false) ∧
              ∀ f' < f, f'.text = f.text → bindings.anchors.get? f' ≠ some element) ∧
          ((collection.Pairwise fun m n => m.duplicates n = false) →
            (collection ++ added).Pairwise fun m n => m.duplicates n = false) ∧
          g.collect d (collection ++ added) = (.added 0, collection ++ added, g)) ∧
      (g.query d).1.toList.Pairwise fun m n => m.duplicates n = false := by
  refine ⟨fun hheld => collect_of_none hheld d collection, ?_, ?_, pairwise_query g d⟩
  · intro bindings hheld hstamp
    exact collect_of_stale hheld hstamp collection
  · intro bindings hheld hstamp
    let ms := markersOf g.style d bindings.anchors
    refine ⟨Marker.fresh collection ms, collect_of_current hheld hstamp collection,
      pairwise_fresh_markersOf g.style d bindings.anchors collection, ?_, ?_, ?_⟩
    · exact fun m => mem_fresh_markersOf
    · exact fun hcollection => Marker.pairwise_append_fresh hcollection ms
    · rw [collect_of_current hheld hstamp, Marker.fresh_append_fresh, List.append_nil]
      rfl

/-- Two findings say the same at one element, the element of a third is gone, and the collection
has a marker that looks like that of a fourth: the first is added, and none of the others. -/
theorem collect_exact_repeated :
    let d : Document Nat Nat :=
      { lineCount := 6, lineStart := fun line => some (10 * line)
        lineOf := fun offset => some (offset / 10), stamp := 7
        elementAt := fun offset => some (offset / 10), nextSibling := fun e => some (e + 1)
        range := fun e => if e = 5 then none else some ⟨10 * e, 10 * e + 4⟩ }
    let anchors : FindingMap Nat :=
      ⟨[(⟨1, "a"⟩, 1), (⟨2, "a"⟩, 1), (⟨3, "a"⟩, 5), (⟨4, "a"⟩, 2)], by decide⟩
    let g : Gutter Nat Nat := ⟨some ⟨7, anchors⟩, {}⟩
    let old := marker {} ⟨9, "a"⟩ 2 ⟨0, 1⟩
    (g.held = some ⟨7, anchors⟩ ∧ (7 == d.stamp) = true) ∧
      ∃ added, g.collect d [old] = (.added added.length, [old] ++ added, g) ∧
        marker {} ⟨1, "a"⟩ 1 ⟨10, 14⟩ ∈ added ∧
        ∀ m ∈ added, m.finding = ⟨1, "a"⟩ := by
  intro d anchors g old
  have hstamp : (7 == d.stamp) = true := by
    decide
  refine ⟨⟨rfl, hstamp⟩, ?_⟩
  obtain ⟨added, hcollect, -, hmem, -, -⟩ := (collect_exact g d [old]).2.2.1 ⟨7, anchors⟩ rfl hstamp
  have hheld : ∀ f element, anchors.get? f = some element →
      (f, element) ∈ [(⟨1, "a"⟩, 1), (⟨2, "a"⟩, 1), (⟨3, "a"⟩, 5), ((⟨4, "a"⟩ : Finding), 2)] :=
    fun f element hf => FindingMap.mem_entries_iff.mpr hf
  refine ⟨added, hcollect, (hmem _).mpr ?_, ?_⟩
  · refine ⟨⟨1, "a"⟩, 1, ⟨10, 14⟩, by decide, by decide, rfl, by decide, ?_⟩
    intro f' hlt _ hf'
    have hmem' := hheld f' 1 hf'
    simp only [List.mem_cons, Prod.mk.injEq, List.not_mem_nil, or_false] at hmem'
    rcases hmem' with ⟨rfl, -⟩ | ⟨rfl, -⟩ | ⟨-, h⟩ | ⟨-, h⟩
    · exact absurd hlt (by decide)
    · exact absurd hlt (by decide)
    · exact absurd h (by decide)
    · exact absurd h (by decide)
  · intro m hm
    obtain ⟨f, element, range, hf, hrange, rfl, hnew, hleast⟩ := (hmem m).mp hm
    have hmem' := hheld f element hf
    simp only [List.mem_cons, Prod.mk.injEq, List.not_mem_nil, or_false] at hmem'
    rcases hmem' with ⟨rfl, rfl⟩ | ⟨rfl, rfl⟩ | ⟨rfl, rfl⟩ | ⟨rfl, rfl⟩
    · rfl
    · exact absurd (show anchors.get? ⟨1, "a"⟩ = some 1 by decide)
        (hleast ⟨1, "a"⟩ (by decide) rfl)
    · have hgone : d.range 5 = none := rfl
      rw [hgone] at hrange
      cases hrange
    · exact absurd rfl (Marker.duplicates_eq_false_iff.mp (hnew old List.mem_cons_self))

end Gutter

end Marginalia
