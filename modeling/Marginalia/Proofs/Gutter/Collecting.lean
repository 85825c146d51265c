import Mathlib.Data.List.Forall2
import Marginalia.Proofs.Gutter.Deduplication

/-!
Collecting from several gutters into one collection.

What a gutter adds to a collection is what is fresh of the markers it offers (`collect_eq`): those of
its findings whose elements exist, or none if its findings are out of date.  So collecting from one
gutter after another is one pass over all they offer (`markers_collectAll`), and another order of
the gutters is another order of that list.

Which markers a pass keeps depends on the order, but not how they look.  Looking the same is an
equivalence where the equality of elements is one (`Marker.look`).  A pass keeps exactly one marker
of each look there is in its list (`Marker.countP_fresh`), so two passes over the same markers keep
the same looks, and as many markers (`Marker.perm_look`).

An equality that is not reflexive will not do: a marker at an element that is not equal to itself
looks like none, and is kept each time it is offered (`Gutter.collected_twice_from_undefined`).
-/

namespace Marginalia

/-! ### Looks -/

namespace Marker

variable {Element : Type} [BEq Element]

theorem duplicates_eq_key (m n : Marker Element) : m.duplicates n = (m.key == n.key) := by
  rw [duplicates, Bool.and_assoc, Bool.and_assoc]
  rfl

theorem duplicates_symm [PartialEquivBEq Element] {m n : Marker Element}
    (h : m.duplicates n = true) : n.duplicates m = true := by
  obtain ⟨hanchor, hicon, hrefresh, htooltip⟩ := duplicates_eq_true_iff.mp h
  exact duplicates_eq_true_iff.mpr ⟨BEq.symm hanchor, hicon.symm, hrefresh.symm, htooltip.symm⟩

theorem duplicates_trans [PartialEquivBEq Element] {k m n : Marker Element}
    (hkm : k.duplicates m = true) (hmn : m.duplicates n = true) : k.duplicates n = true := by
  obtain ⟨hanchor, hicon, hrefresh, htooltip⟩ := duplicates_eq_true_iff.mp hkm
  obtain ⟨hanchor', hicon', hrefresh', htooltip'⟩ := duplicates_eq_true_iff.mp hmn
  exact duplicates_eq_true_iff.mpr ⟨BEq.trans hanchor hanchor', hicon.trans hicon',
    hrefresh.trans hrefresh', htooltip.trans htooltip'⟩

/-- Where no two markers look the same, at most one looks like a given one. -/
theorem countP_le_one [PartialEquivBEq Element] {ms : List (Marker Element)}
    (h : ms.Pairwise fun m n => m.duplicates n = false) (k : Marker Element) :
    ms.countP (fun m => m.duplicates k) ≤ 1 := by
  induction ms with
  | nil => exact Nat.zero_le 1
  | cons m rest ih =>
      obtain ⟨hm, hrest⟩ := List.pairwise_cons.mp h
      rw [List.countP_cons]
      split
      next hmk =>
        -- what else looks like the given marker would look like this one
        have hnone : rest.countP (fun n => n.duplicates k) = 0 := by
          rw [List.countP_eq_zero]
          intro n hn hnk
          have := duplicates_trans hmk (duplicates_symm hnk)
          rw [hm n hn] at this
          cases this
        omega
      · exact ih hrest

variable [EquivBEq Element]

/-- A pass keeps exactly one marker of each look there is in its list. -/
theorem countP_fresh {ms : List (Marker Element)} {m : Marker Element} (h : m ∈ ms) :
    (fresh [] ms).countP (fun n => n.duplicates m) = 1 := by
  apply Nat.le_antisymm
  · exact countP_le_one (pairwise_append_fresh List.Pairwise.nil ms) m
  · obtain ⟨n, hn, hdup⟩ := exists_duplicate [] h
    exact List.countP_pos_iff.mpr ⟨n, hn, hdup⟩

/-- Looking the same. -/
def look (Element : Type) [BEq Element] [EquivBEq Element] : Setoid (Marker Element) where
  r m n := m.duplicates n = true
  iseqv := ⟨duplicates_self, duplicates_symm, duplicates_trans⟩

/-- A pass over a list keeps a marker of each key that a pass over some of its markers keeps. -/
theorem exists_key_fresh {ms ms' : List (Marker Element)} (h : ∀ m ∈ ms, m ∈ ms')
    {m : Marker Element} (hm : m ∈ fresh [] ms) : ∃ n ∈ fresh [] ms', (n.key == m.key) = true := by
  obtain ⟨n, hn, hdup⟩ := exists_duplicate [] (h m ((fresh_sublist [] ms).subset hm))
  exact ⟨n, hn, duplicates_eq_key n m ▸ hdup⟩

/-- Passes over lists with the same markers keep the same looks, each once. -/
theorem perm_look {ms ms' : List (Marker Element)} (h : ∀ m, m ∈ ms ↔ m ∈ ms') :
    ((fresh [] ms).map (Quotient.mk (look Element))).Perm
      ((fresh [] ms').map (Quotient.mk (look Element))) := by
  have hnodup : ∀ ms : List (Marker Element),
      ((fresh [] ms).map (Quotient.mk (look Element))).Nodup := by
    intro ms
    have hpairwise : (fresh [] ms).Pairwise fun m n => m.duplicates n = false :=
      pairwise_append_fresh List.Pairwise.nil ms
    refine List.pairwise_map.mpr (hpairwise.imp fun hdup heq => ?_)
    have hdup' := Quotient.exact heq
    exact Bool.false_ne_true (hdup.symm.trans hdup')
  have hsubset : ∀ {ms ms' : List (Marker Element)}, (∀ m ∈ ms, m ∈ ms') →
      ∀ l ∈ (fresh [] ms).map (Quotient.mk (look Element)),
        l ∈ (fresh [] ms').map (Quotient.mk (look Element)) := by
    intro ms ms' hms l hl
    obtain ⟨m, hm, rfl⟩ := List.mem_map.mp hl
    obtain ⟨n, hn, hkey⟩ := exists_key_fresh hms hm
    exact List.mem_map.mpr ⟨n, hn, Quotient.sound ((duplicates_eq_key n m).trans hkey)⟩
  rw [List.perm_ext_iff_of_nodup (hnodup ms) (hnodup ms')]
  exact fun l => ⟨hsubset (fun m => (h m).mp) l, hsubset (fun m => (h m).mpr) l⟩

end Marker

namespace Gutter

variable {Element Stamp : Type} [BEq Element] [BEq Stamp]

/-! ### One gutter -/

/-- Whether a gutter holds findings and the document no longer has their stamp. -/
def isOutdated (g : Gutter Element Stamp) (d : Document Element Stamp) : Bool :=
  match g.held with
  | none => false
  | some bindings => !(bindings.stamp == d.stamp)

/-- The markers that a gutter offers for a document: those of its findings whose elements exist,
unless the findings are out of date. -/
def offered (g : Gutter Element Stamp) (d : Document Element Stamp) : List (Marker Element) :=
  match g.held with
  | none => []
  | some bindings =>
      if bindings.stamp == d.stamp then markersOf g.style d bindings.anchors else []

omit [BEq Element] in
theorem mem_offered {g : Gutter Element Stamp} {d : Document Element Stamp}
    {m : Marker Element} :
    m ∈ g.offered d ↔ ∃ bindings f element range, g.held = some bindings ∧
      (bindings.stamp == d.stamp) = true ∧ bindings.anchors.get? f = some element ∧
      d.range element = some range ∧ m = marker g.style f element range := by
  rw [offered]
  rcases g.held with - | bindings
  · simp
  · rcases hstamp : bindings.stamp == d.stamp
    · simp [hstamp]
    · simp [hstamp, mem_markersOf]

omit [BEq Element] in
/-- What is out of date is not offered. -/
theorem offered_of_isOutdated {g : Gutter Element Stamp} {d : Document Element Stamp}
    (h : g.isOutdated d = true) : g.offered d = [] := by
  rw [isOutdated] at h
  rw [offered]
  rcases hheld : g.held with - | bindings
  · rfl
  · rw [hheld] at h
    dsimp only at h ⊢
    rw [if_neg]
    exact fun hstamp => Bool.false_ne_true ((congrArg not hstamp).symm.trans h)

/-- A gutter as collecting leaves it. -/
def collected (g : Gutter Element Stamp) (d : Document Element Stamp) : Gutter Element Stamp :=
  if g.isOutdated d then { g with held := none } else g

omit [BEq Element] in
/-- What collecting leaves is not out of date. -/
theorem isOutdated_collected (g : Gutter Element Stamp) (d : Document Element Stamp) :
    (g.collected d).isOutdated d = false := by
  rw [collected]
  split
  · rfl
  next hcurrent => exact eq_false_of_ne_true hcurrent

omit [BEq Element] in
theorem offered_collected (g : Gutter Element Stamp) (d : Document Element Stamp) :
    (g.collected d).offered d = g.offered d := by
  rw [collected]
  split
  next houtdated => exact (offered_of_isOutdated houtdated).symm
  · rfl

/-- Collecting adds what is fresh of what is offered, and gives up what is out of date. -/
theorem collect_eq (g : Gutter Element Stamp) (d : Document Element Stamp)
    (collection : List (Marker Element)) :
    g.collect d collection
      = (if g.isOutdated d then .invalidated
          else .added (Marker.fresh collection (g.offered d)).length,
        collection ++ Marker.fresh collection (g.offered d), g.collected d) := by
  rw [collected, isOutdated, offered]
  rcases hheld : g.held with - | bindings
  · rw [collect_of_none hheld]
    simp [Marker.fresh]
  · rcases hstamp : bindings.stamp == d.stamp
    · rw [collect_of_stale hheld hstamp]
      simp [hstamp, Marker.fresh]
    · rw [collect_of_current hheld hstamp]
      simp [hstamp]

/-- A gutter that was collected from adds nothing to a collection that has a marker for all it
offered. -/
theorem collect_collected {g : Gutter Element Stamp} {d : Document Element Stamp}
    {collection : List (Marker Element)}
    (h : ∀ m ∈ g.offered d, ∃ n ∈ collection, n.duplicates m = true) :
    (g.collected d).collect d collection = (.added 0, collection, g.collected d) := by
  have hleft : (g.collected d).collected d = g.collected d := by
    rw [collected, isOutdated_collected, if_neg Bool.false_ne_true]
  rw [collect_eq, isOutdated_collected, offered_collected, Marker.fresh_eq_nil h, hleft,
    List.append_nil]
  rfl

/-! ### One gutter after another -/

/-- Collect from gutters one after another.  What each answered and how it was left, and the
collection in the end. -/
def collectAll (d : Document Element Stamp) :
    List (Gutter Element Stamp) → List (Marker Element) →
      List (Collected × Gutter Element Stamp) × List (Marker Element)
  | [], collection => ([], collection)
  | g :: rest, collection =>
      let (answer, collection, left) := g.collect d collection
      let (turns, collection) := collectAll d rest collection
      ((answer, left) :: turns, collection)

/-- Collecting from gutters one after another is one pass over all they offer. -/
theorem markers_collectAll (d : Document Element Stamp) (gs : List (Gutter Element Stamp))
    (collection : List (Marker Element)) :
    (collectAll d gs collection).2
      = collection ++ Marker.fresh collection (gs.flatMap fun g => g.offered d) := by
  induction gs generalizing collection with
  | nil => exact (List.append_nil collection).symm
  | cons g rest ih =>
      rw [collectAll, collect_eq]
      show (collectAll d rest (collection ++ Marker.fresh collection (g.offered d))).2 = _
      rw [ih, List.flatMap_cons, Marker.fresh_append, List.append_assoc]

/-- Whatever is in the collection, a gutter gives up its findings just when they are out of date. -/
theorem turns_collectAll (d : Document Element Stamp) (gs : List (Gutter Element Stamp))
    (collection : List (Marker Element)) :
    List.Forall₂ (fun g turn => (turn.1 = .invalidated ↔ g.isOutdated d = true) ∧
      turn.2 = g.collected d) gs (collectAll d gs collection).1 := by
  induction gs generalizing collection with
  | nil => exact List.Forall₂.nil
  | cons g rest ih =>
      rw [collectAll, collect_eq]
      refine List.Forall₂.cons ⟨?_, rfl⟩ (ih _)
      split
      next houtdated => exact iff_of_true rfl houtdated
      next houtdated => exact iff_of_false (fun h => nomatch h) houtdated

/-- Each turn is that of one of the gutters. -/
theorem exists_of_mem_turns {d : Document Element Stamp} {gs : List (Gutter Element Stamp)}
    {collection : List (Marker Element)} {turn : Collected × Gutter Element Stamp}
    (h : turn ∈ (collectAll d gs collection).1) :
    ∃ g ∈ gs, (turn.1 = .invalidated ↔ g.isOutdated d = true) ∧ turn.2 = g.collected d := by
  have hturns := turns_collectAll d gs collection
  generalize (collectAll d gs collection).1 = turns at h hturns
  induction hturns with
  | nil => exact absurd h List.not_mem_nil
  | cons hturn _ ih =>
      rcases List.mem_cons.mp h with rfl | h
      · exact ⟨_, List.mem_cons_self, hturn⟩
      · obtain ⟨g, hg, hleft⟩ := ih h
        exact ⟨g, List.mem_cons_of_mem _ hg, hleft⟩

/-- The turns at which findings were given up are those of the gutters that are out of date. -/
theorem filter_turns (d : Document Element Stamp) (gs : List (Gutter Element Stamp))
    (collection : List (Marker Element)) :
    ((gs.zip (collectAll d gs collection).1).filter fun t => t.2.1 = .invalidated)
      = (gs.filter fun g => g.isOutdated d).map fun g => (g, .invalidated, g.collected d) := by
  have hturns := turns_collectAll d gs collection
  generalize (collectAll d gs collection).1 = turns at hturns ⊢
  induction hturns with
  | nil => rfl
  | @cons g turn gs turns hturn _ ih =>
      obtain ⟨answer, left⟩ := turn
      obtain ⟨hanswer, rfl⟩ := hturn
      rw [List.zip_cons_cons, List.filter_cons, List.filter_cons, ih]
      by_cases houtdated : g.isOutdated d = true
      · obtain rfl := hanswer.mpr houtdated
        simp [houtdated]
      · have hkept : ¬answer = .invalidated := fun heq => houtdated (hanswer.mp heq)
        simp [houtdated, hkept]

omit [BEq Element] in
/-- Gutters that are out of date offer nothing. -/
theorem flatMap_offered_filter (d : Document Element Stamp) (gs : List (Gutter Element Stamp)) :
    (gs.filter fun g => !g.isOutdated d).flatMap (fun g => g.offered d)
      = gs.flatMap fun g => g.offered d := by
  induction gs with
  | nil => rfl
  | cons g rest ih =>
      rw [List.flatMap_cons, ← ih]
      rcases houtdated : g.isOutdated d
      · rw [List.filter_cons_of_pos (by rw [houtdated]; rfl), List.flatMap_cons]
      · rw [List.filter_cons_of_neg (by rw [houtdated]; exact Bool.false_ne_true),
          offered_of_isOutdated houtdated, List.nil_append]

variable [EquivBEq Element]

/-- Gutters of whatever styles, collected from once each into an empty collection, come to the same
in any order, but for which of the markers that look the same is there.

* A gutter gives up its findings just when the document no longer has their stamp.  So in any order
  it is the same gutters that do, and the collection is what it would be without them.
* No two markers of the collection look the same.  Each finding that a gutter holds for the document
  as it is, at an element that exists, has exactly one marker there that looks like its own, and
  there are no other markers.
* Collecting from any of the gutters again, as it was left, adds nothing.
* In another order there are as many markers, and they have the same keys. -/
theorem collected_in_any_order (d : Document Element Stamp) (gs : List (Gutter Element Stamp)) :
    let turns := (collectAll d gs []).1
    let shown := (collectAll d gs []).2
    List.Forall₂ (fun g turn => (turn.1 = .invalidated ↔ g.isOutdated d = true) ∧
        turn.2 = g.collected d) gs turns ∧
      (collectAll d (gs.filter fun g => !g.isOutdated d) []).2 = shown ∧
      (shown.Pairwise fun m n => m.duplicates n = false ∧ n.duplicates m = false) ∧
      (∀ g ∈ gs, ∀ bindings, g.held = some bindings → (bindings.stamp == d.stamp) = true →
        ∀ f element range, bindings.anchors.get? f = some element → d.range element = some range →
          shown.countP (fun m => m.duplicates (marker g.style f element range)) = 1) ∧
      (∀ m ∈ shown, ∃ g ∈ gs, ∃ bindings f element range, g.held = some bindings ∧
        (bindings.stamp == d.stamp) = true ∧ bindings.anchors.get? f = some element ∧
        d.range element = some range ∧ m = marker g.style f element range) ∧
      (∀ turn ∈ turns, turn.2.collect d shown = (.added 0, shown, turn.2)) ∧
      ∀ others, others.Perm gs →
        let turns' := (collectAll d others []).1
        let shown' := (collectAll d others []).2
        ((others.zip turns').filter fun t => t.2.1 = .invalidated).Perm
            ((gs.zip turns).filter fun t => t.2.1 = .invalidated) ∧
          shown'.length = shown.length ∧
          (∀ m ∈ shown, ∃ n ∈ shown', (n.key == m.key) = true) ∧
          ∀ n ∈ shown', ∃ m ∈ shown, (m.key == n.key) = true := by
  intro turns shown
  have hpass : ∀ gs : List (Gutter Element Stamp), (collectAll d gs []).2
      = Marker.fresh [] (gs.flatMap fun g => g.offered d) :=
    fun gs => markers_collectAll d gs []
  have hshown : shown = Marker.fresh [] (gs.flatMap fun g => g.offered d) := hpass gs
  refine ⟨turns_collectAll d gs [], ?_, ?_, ?_, ?_, ?_, ?_⟩
  · rw [hpass, flatMap_offered_filter, hshown]
  · rw [hshown]
    refine (Marker.pairwise_append_fresh List.Pairwise.nil _).imp fun {m n} hdup => ⟨hdup, ?_⟩
    rw [← Bool.not_eq_true] at hdup ⊢
    exact fun hdup' => hdup (Marker.duplicates_symm hdup')
  · intro g hg bindings hheld hstamp f element range hf hrange
    rw [hshown]
    apply Marker.countP_fresh
    exact List.mem_flatMap.mpr
      ⟨g, hg, mem_offered.mpr ⟨bindings, f, element, range, hheld, hstamp, hf, hrange, rfl⟩⟩
  · intro m hm
    rw [hshown] at hm
    obtain ⟨g, hg, hm⟩ := List.mem_flatMap.mp ((Marker.fresh_sublist ..).subset hm)
    exact ⟨g, hg, mem_offered.mp hm⟩
  · intro turn hturn
    obtain ⟨g, hg, -, hleft⟩ := exists_of_mem_turns hturn
    rw [hleft]
    apply collect_collected
    intro m hm
    rw [hshown]
    exact Marker.exists_duplicate [] (List.mem_flatMap.mpr ⟨g, hg, hm⟩)
  · intro others hothers turns' shown'
    have hmem : ∀ m, m ∈ others.flatMap (fun g => g.offered d)
        ↔ m ∈ gs.flatMap fun g => g.offered d :=
      fun m => (hothers.flatMap_right fun g => g.offered d).mem_iff
    have hshown' : shown' = Marker.fresh [] (others.flatMap fun g => g.offered d) := hpass others
    refine ⟨?_, ?_, ?_, ?_⟩
    · rw [filter_turns, filter_turns]
      exact (hothers.filter _).map _
    · have hlength := (Marker.perm_look hmem).length_eq
      rw [List.length_map, List.length_map] at hlength
      rw [hshown', hshown, hlength]
    · rw [hshown', hshown]
      exact fun m hm => Marker.exists_key_fresh (fun m => (hmem m).mpr) hm
    · rw [hshown', hshown]
      exact fun m hm => Marker.exists_key_fresh (fun m => (hmem m).mp) hm

/-- Two gutters say the same at one element, a third says it in another pass, and a fourth is out of
date.  The first that is collected from shows the element, and in both orders two markers do. -/
theorem collected_in_two_orders :
    let d : Document Nat Nat :=
      { lineCount := 6, lineStart := fun line => some (10 * line)
        lineOf := fun offset => some (offset / 10), stamp := 7
        elementAt := fun offset => some (offset / 10), nextSibling := fun e => some (e + 1)
        range := fun e => if e = 5 then none else some ⟨10 * e, 10 * e + 4⟩ }
    let gutter (stamp : Nat) (style : Style) (line : UInt32) : Gutter Nat Nat :=
      ⟨some ⟨stamp, (FindingMap.empty.insert ⟨line, "x"⟩ 1).insert ⟨9, "gone"⟩ 5⟩, style⟩
    let lineStyle : Style := { refresh := .lineMarkers }
    let gs := [gutter 7 {} 1, gutter 7 {} 2, gutter 7 lineStyle 2, gutter 6 {} 3]
    let first := marker {} ⟨1, "x"⟩ 1 ⟨10, 14⟩
    let second := marker {} ⟨2, "x"⟩ 1 ⟨10, 14⟩
    let third := marker lineStyle ⟨2, "x"⟩ 1 ⟨10, 14⟩
    gs.reverse.Perm gs ∧ (collectAll d gs []).2 = [first, third] ∧
      (collectAll d gs []).2.countP (fun m => m.duplicates second) = 1 ∧
      (collectAll d gs.reverse []).2 = [third, second] ∧
      (collectAll d gs.reverse []).2.length = (collectAll d gs []).2.length ∧
      ∃ n ∈ (collectAll d gs.reverse []).2, (n.key == first.key) = true := by
  intro d gutter lineStyle gs first second third
  have hperm : gs.reverse.Perm gs := gs.reverse_perm
  have hfirst : (collectAll d gs []).2 = [first, third] := by decide
  obtain ⟨-, -, -, honce, -, -, hothers⟩ := collected_in_any_order d gs
  obtain ⟨-, hlength, hkeys, -⟩ := hothers gs.reverse hperm
  refine ⟨hperm, hfirst, ?_, by decide, hlength, hkeys first ?_⟩
  · have hsecond : gutter 7 {} 2 ∈ gs := List.mem_cons_of_mem _ List.mem_cons_self
    exact honce _ hsecond _ rfl (by decide) ⟨2, "x"⟩ 1 ⟨10, 14⟩ (by decide) (by decide)
  · rw [hfirst]
    exact List.mem_cons_self

end Gutter

/-- A number or none, compared as floating-point numbers are: what is no number is equal to nothing,
not even to itself. -/
inductive Numeric where
  | number (n : Nat)
  | undefined

instance : BEq Numeric where
  beq
    | .number m, .number n => m == n
    | _, _ => false

theorem Numeric.beq_iff {a b : Numeric} :
    (a == b) = true ↔ ∃ n, a = .number n ∧ b = .number n := by
  constructor
  · intro h
    cases a with
    | undefined => cases h
    | number m =>
        cases b with
        | undefined => cases h
        | number n =>
            have heq : m = n := beq_iff_eq.mp h
            exact ⟨n, congrArg number heq, rfl⟩
  · rintro ⟨n, rfl, rfl⟩
    exact beq_self_eq_true n

instance : PartialEquivBEq Numeric where
  symm h := by
    obtain ⟨n, rfl, rfl⟩ := Numeric.beq_iff.mp h
    exact h
  trans hab hbc := by
    obtain ⟨n, rfl, rfl⟩ := Numeric.beq_iff.mp hab
    exact hbc

namespace Gutter

/-- Where an element is not equal to itself, no marker looks like that of a finding attached to it.
Collecting again from a gutter then adds the marker again. -/
theorem collected_twice_from_undefined :
    let d : Document Numeric Nat :=
      { lineCount := 1, lineStart := fun _ => some 0, lineOf := fun _ => some 0, stamp := 0
        elementAt := fun _ => some .undefined, nextSibling := fun _ => none
        range := fun _ => some ⟨0, 1⟩ }
    let g := ((ofStyle {}).attach [⟨0, "x"⟩] d).2
    let shown := (collectAll d [g] []).2
    let m := marker {} ⟨0, "x"⟩ .undefined ⟨0, 1⟩
    PartialEquivBEq Numeric ∧ g.isOutdated d = false ∧ g.anchor? ⟨0, "x"⟩ = some .undefined ∧
      d.range .undefined = some ⟨0, 1⟩ ∧ shown = [m] ∧
      shown.countP (fun n => n.duplicates m) = 0 ∧ g.collect d shown = (.added 1, [m, m], g) :=
  ⟨inferInstance, rfl, rfl, rfl, rfl, rfl, rfl⟩

end Gutter

end Marginalia
