import Marginalia.Proofs.Gutter.History

/-!
Going through the markers of a document.

In each round a client asks for the markers and dismisses the finding of one of them, whichever it
likes (`Navigation`).  Of several findings that say the same at one element only the least has a
marker, so a finding may come to light when another one goes, and there may be more rounds than
there are markers at first.

A marker is shown when it is that of a held finding whose element exists, and no lesser finding is
its twin (`IsCurrent.mem_shown_iff`).  So a round takes one marker away, and the least twin of its
finding, if there is one, gets a marker in its place (`IsCurrent.mem_shown_dismiss_iff`).  Each
round takes one finding whose element exists, and markers are shown as long as there is such a
finding (`IsCurrent.shown_eq_nil_iff`), so their number is the number of rounds
(`Navigation.length_add_live`).
-/

namespace Marginalia.Gutter

variable {Element Stamp : Type}

/-! ### What is shown -/

/-- The number of held findings whose element exists. -/
def live (g : Gutter Element Stamp) (d : Document Element Stamp) : Nat :=
  g.findings.countP fun f => ((g.anchor? f).bind d.range).isSome

theorem live_of_held {g : Gutter Element Stamp} {bindings : Bindings Element Stamp}
    (h : g.held = some bindings) (d : Document Element Stamp) :
    g.live d = bindings.anchors.entries.countP fun e => (d.range e.2).isSome := by
  rw [live, Gutter.findings, h]
  show (bindings.anchors.entries.map Prod.fst).countP _ = _
  rw [List.countP_map]
  apply List.countP_congr
  rintro ⟨f, element⟩ hmem
  have hget : g.anchor? f = some element := by
    rw [anchor?, h]
    exact FindingMap.mem_entries_iff.mp hmem
  rw [Function.comp_apply, hget]
  rfl

/-- Another finding that is held at the element of a marker and says the same. -/
structure Twin (g : Gutter Element Stamp) (m : Marker Element) (f : Finding) : Prop where
  ne : f ≠ m.finding
  text : f.text = m.finding.text
  anchor : g.anchor? f = some m.anchor

/-- The least of them. -/
structure LeastTwin (g : Gutter Element Stamp) (m : Marker Element) (f : Finding) : Prop
    extends Twin g m f where
  least : ∀ f', Twin g m f' → ¬f' < f

/-- A finding whose element exists is no longer counted when it is dismissed. -/
theorem live_dismiss {g : Gutter Element Stamp} {d : Document Element Stamp} {f : Finding}
    {element : Element} {range : Span} (hanchor : g.anchor? f = some element)
    (hrange : d.range element = some range) : (g.dismiss f).2.live d + 1 = g.live d := by
  rcases hheld : g.held with - | bindings
  · rw [anchor?, hheld] at hanchor
    cases hanchor
  · rw [anchor?, hheld] at hanchor
    have hafter : (g.dismiss f).2.held
        = some { bindings with anchors := bindings.anchors.erase f } := by
      rw [dismiss, hheld]
    rw [live_of_held hheld, live_of_held hafter,
      (FindingMap.perm_entries_erase hanchor).countP_eq, List.countP_cons_of_pos]
    rw [hrange]
    rfl

theorem style_dismiss (g : Gutter Element Stamp) (f : Finding) :
    (g.dismiss f).2.style = g.style := by
  rw [dismiss]
  rcases g.held with - | bindings <;> rfl

theorem marker_eq {style : Style} {m : Marker Element}
    (h : m = marker style m.finding m.anchor m.range) (f : Finding) :
    marker style f m.anchor m.range = { m with finding := f } :=
  (congrArg (fun n : Marker Element => { n with finding := f }) h).symm

/-- Dismissing the finding of a marker leaves the twins of a marker but for that finding. -/
theorem twin_dismiss_iff {g : Gutter Element Stamp} {m n : Marker Element} {f : Finding} :
    Twin (g.dismiss m.finding).2 n f ↔ Twin g n f ∧ f ≠ m.finding := by
  constructor
  · rintro ⟨hne, htext, hanchor⟩
    rw [anchor?_dismiss] at hanchor
    split at hanchor
    · cases hanchor
    next hf => exact ⟨⟨hne, htext, hanchor⟩, hf⟩
  · rintro ⟨⟨hne, htext, hanchor⟩, hf⟩
    refine ⟨hne, htext, ?_⟩
    rw [anchor?_dismiss, if_neg hf]
    exact hanchor

variable [BEq Element] [BEq Stamp]

/-- The markers that are shown for a document. -/
def shown (g : Gutter Element Stamp) (d : Document Element Stamp) : List (Marker Element) :=
  (g.query d).1.toList

/-- Going from marker to marker.  In each round the markers are asked for and the finding of one of
them is dismissed.  The list is that of the markers that were chosen. -/
inductive Navigation (d : Document Element Stamp) :
    Gutter Element Stamp → List (Marker Element) → Gutter Element Stamp → Prop where
  | done (g : Gutter Element Stamp) : Navigation d g [] g
  | round {g last : Gutter Element Stamp} {m : Marker Element} {ms : List (Marker Element)}
      (hm : m ∈ g.shown d) (rest : Navigation d ((g.query d).2.dismiss m.finding).2 ms last) :
      Navigation d g (m :: ms) last

omit [BEq Element] in
/-- Whether findings are held that were attached when the document had the stamp it has. -/
def IsCurrent (d : Document Element Stamp) (g : Gutter Element Stamp) : Prop :=
  ∃ bindings, g.held = some bindings ∧ (bindings.stamp == d.stamp) = true

variable {d : Document Element Stamp} {g : Gutter Element Stamp} {m n : Marker Element}

omit [BEq Element] in
/-- Dismissing keeps the stamp. -/
theorem IsCurrent.dismiss (h : IsCurrent d g) (f : Finding) : IsCurrent d (g.dismiss f).2 := by
  obtain ⟨bindings, hheld, hstamp⟩ := h
  refine ⟨{ bindings with anchors := bindings.anchors.erase f }, ?_, hstamp⟩
  rw [Gutter.dismiss, hheld]

theorem IsCurrent.query_eq (h : IsCurrent d g) : g.query d = (.markers (g.shown d), g) := by
  obtain ⟨bindings, hheld, hstamp⟩ := h
  rw [shown, query_of_current hheld hstamp]
  rfl

theorem IsCurrent.round (h : IsCurrent d g) (f : Finding) :
    IsCurrent d ((g.query d).2.dismiss f).2 := by
  rw [h.query_eq]
  exact h.dismiss f

theorem Navigation.isCurrent {ms : List (Marker Element)} {last : Gutter Element Stamp}
    (hrun : Navigation d g ms last) (h : IsCurrent d g) : IsCurrent d last := by
  induction hrun with
  | done g => exact h
  | round hm rest ih => exact ih (h.round _)

theorem IsCurrent.pairwise_shown (h : IsCurrent d g) :
    (g.shown d).Pairwise fun m n => m.finding < n.finding := by
  obtain ⟨bindings, hheld, hstamp⟩ := h
  rw [shown, query_of_current hheld hstamp]
  exact pairwise_fresh_markersOf g.style d bindings.anchors []

variable [LawfulBEq Element]

/-- A marker is shown when it is that of a held finding whose element exists, and no lesser finding
says the same at that element. -/
theorem IsCurrent.mem_shown_iff (h : IsCurrent d g) :
    m ∈ g.shown d ↔ m = marker g.style m.finding m.anchor m.range ∧
      g.anchor? m.finding = some m.anchor ∧ d.range m.anchor = some m.range ∧
        ∀ f < m.finding, ¬Twin g m f := by
  obtain ⟨bindings, hheld, hstamp⟩ := h
  have hget : ∀ f, g.anchor? f = bindings.anchors.get? f := by
    intro f
    rw [anchor?, hheld]
  rw [shown, query_of_current hheld hstamp]
  show m ∈ Marker.fresh [] _ ↔ _
  rw [mem_fresh_markersOf, hget]
  constructor
  · rintro ⟨f, element, range, hf, hrange, rfl, -, hleast⟩
    refine ⟨rfl, hf, hrange, ?_⟩
    intro f' hlt htwin
    exact hleast f' hlt htwin.text ((hget f').symm.trans htwin.anchor)
  · rintro ⟨hm, hanchor, hrange, hleast⟩
    refine ⟨m.finding, m.anchor, m.range, hanchor, hrange, hm, ?_, ?_⟩
    · exact fun n hn => absurd hn List.not_mem_nil
    · intro f' hlt htext hf'
      exact hleast f' hlt ⟨Finding.ne_of_lt hlt, htext, (hget f').trans hf'⟩

/-- Every held finding whose element exists is shown, or another one that says the same there. -/
theorem IsCurrent.exists_shown (h : IsCurrent d g) {f : Finding} {element : Element} {range : Span}
    (hanchor : g.anchor? f = some element) (hrange : d.range element = some range) :
    ∃ n ∈ g.shown d, n.anchor = element ∧ n.finding.text = f.text := by
  obtain ⟨bindings, hheld, hstamp⟩ := h
  rw [anchor?, hheld] at hanchor
  have hmem : marker g.style f element range ∈ markersOf g.style d bindings.anchors :=
    mem_markersOf.mpr ⟨f, element, range, hanchor, hrange, rfl⟩
  obtain ⟨n, hn, hkey⟩ := Marker.exists_key [] hmem
  rw [shown, query_of_current hheld hstamp]
  refine ⟨n, hn, ?_⟩
  simp only [Marker.key, marker, Marker.tooltip, Prod.mk.injEq] at hkey
  exact ⟨hkey.1, hkey.2.2.2⟩

/-- At one element no two markers say the same. -/
theorem IsCurrent.eq_of_mem_shown (h : IsCurrent d g) (hm : m ∈ g.shown d) (hn : n ∈ g.shown d)
    (hanchor : n.anchor = m.anchor) (htext : n.finding.text = m.finding.text) : n = m := by
  obtain ⟨hm', hmanchor, hmrange, hmleast⟩ := h.mem_shown_iff.mp hm
  obtain ⟨hn', hnanchor, hnrange, hnleast⟩ := h.mem_shown_iff.mp hn
  rcases Finding.lt_trichotomy n.finding m.finding with hlt | heq | hlt
  · have htwin : Twin g m n.finding :=
      ⟨Finding.ne_of_lt hlt, htext, hnanchor.trans (congrArg some hanchor)⟩
    exact absurd htwin (hmleast _ hlt)
  · have hrange : n.range = m.range := by
      rw [hanchor, hmrange] at hnrange
      exact (Option.some.inj hnrange).symm
    rw [hm', hn', hanchor, heq, hrange]
  · have htwin : Twin g n m.finding :=
      ⟨Finding.ne_of_lt hlt, htext.symm, hmanchor.trans (congrArg some hanchor.symm)⟩
    exact absurd htwin (hnleast _ hlt)

/-- Nothing is shown just when no held finding has an element that exists. -/
theorem IsCurrent.shown_eq_nil_iff (h : IsCurrent d g) : g.shown d = [] ↔ g.live d = 0 := by
  rw [live, List.countP_eq_zero]
  constructor
  · intro hnil f _ hlive
    obtain ⟨range, hrange⟩ := Option.isSome_iff_exists.mp hlive
    obtain ⟨element, hanchor, hrange⟩ := Option.bind_eq_some_iff.mp hrange
    obtain ⟨n, hn, -⟩ := h.exists_shown hanchor hrange
    rw [hnil] at hn
    exact absurd hn List.not_mem_nil
  · intro hnone
    rw [List.eq_nil_iff_forall_not_mem]
    intro m hm
    obtain ⟨-, hanchor, hrange, -⟩ := h.mem_shown_iff.mp hm
    apply hnone m.finding (mem_findings_iff.mpr ⟨m.anchor, hanchor⟩)
    rw [hanchor, Option.bind_some, hrange]
    rfl

/-! ### One round -/

/-- A marker that was not chosen is shown after the round as well. -/
theorem IsCurrent.mem_shown_dismiss_of_ne (h : IsCurrent d g) (hm : m ∈ g.shown d)
    (hn : n ∈ g.shown d) (hne : n ≠ m) : n ∈ (g.dismiss m.finding).2.shown d := by
  obtain ⟨-, hmanchor, -, -⟩ := h.mem_shown_iff.mp hm
  obtain ⟨hn', hanchor, hrange, hleast⟩ := h.mem_shown_iff.mp hn
  -- no two markers are shown for one finding, so that of this one is still held
  have hfinding : n.finding ≠ m.finding := by
    intro heq
    apply hne
    apply h.eq_of_mem_shown hm hn ?_ (congrArg Finding.text heq)
    rw [heq, hmanchor] at hanchor
    exact (Option.some.inj hanchor).symm
  rw [(h.dismiss m.finding).mem_shown_iff, style_dismiss, anchor?_dismiss, if_neg hfinding]
  refine ⟨hn', hanchor, hrange, ?_⟩
  exact fun f hlt htwin => hleast f hlt (twin_dismiss_iff.mp htwin).1

/-- The least twin of the chosen marker's finding is shown after the round. -/
theorem IsCurrent.mem_shown_dismiss_of_leastTwin (h : IsCurrent d g) (hm : m ∈ g.shown d)
    {f : Finding} (hf : LeastTwin g m f) :
    { m with finding := f } ∈ (g.dismiss m.finding).2.shown d := by
  obtain ⟨hm', -, hrange, -⟩ := h.mem_shown_iff.mp hm
  rw [(h.dismiss m.finding).mem_shown_iff, style_dismiss, anchor?_dismiss, if_neg hf.ne]
  refine ⟨(marker_eq hm' f).symm, hf.anchor, hrange, ?_⟩
  -- a lesser twin of it that is held would be a lesser twin of the chosen one
  intro f' hlt htwin
  obtain ⟨⟨-, htext, hanchor⟩, hne⟩ := twin_dismiss_iff.mp htwin
  exact hf.least f' ⟨hne, htext.trans hf.text, hanchor⟩ hlt

/-- A marker that is shown after the round and is at another element than the chosen one, or says
something else, was shown before it. -/
theorem IsCurrent.mem_shown_of_dismiss (h : IsCurrent d g) (hm : m ∈ g.shown d)
    (hn : n ∈ (g.dismiss m.finding).2.shown d)
    (hother : ¬(n.anchor = m.anchor ∧ n.finding.text = m.finding.text)) : n ∈ g.shown d := by
  obtain ⟨-, hmanchor, -, -⟩ := h.mem_shown_iff.mp hm
  rw [(h.dismiss m.finding).mem_shown_iff, style_dismiss, anchor?_dismiss] at hn
  obtain ⟨hn', hanchor, hrange, hleast⟩ := hn
  split at hanchor
  · cases hanchor
  · refine h.mem_shown_iff.mpr ⟨hn', hanchor, hrange, ?_⟩
    intro f hlt htwin
    -- the dismissed finding is no twin of it
    refine hleast f hlt (twin_dismiss_iff.mpr ⟨htwin, ?_⟩)
    rintro rfl
    have hsame : n.anchor = m.anchor := Option.some.inj (htwin.anchor.symm.trans hmanchor)
    exact hother ⟨hsame, htwin.text.symm⟩

/-- A marker that is shown after the round and says the same as the chosen one, at the same element,
is that of the least twin. -/
theorem IsCurrent.leastTwin_of_mem_shown_dismiss (h : IsCurrent d g) (hm : m ∈ g.shown d)
    (hn : n ∈ (g.dismiss m.finding).2.shown d) (hsame : n.anchor = m.anchor)
    (htext : n.finding.text = m.finding.text) :
    LeastTwin g m n.finding ∧ n = { m with finding := n.finding } := by
  obtain ⟨hm', -, hmrange, -⟩ := h.mem_shown_iff.mp hm
  rw [(h.dismiss m.finding).mem_shown_iff, style_dismiss, anchor?_dismiss] at hn
  obtain ⟨hn', hanchor, hrange, hleast⟩ := hn
  split at hanchor
  · cases hanchor
  next hne =>
    refine ⟨⟨⟨hne, htext, hsame ▸ hanchor⟩, ?_⟩, ?_⟩
    · intro f htwin hlt
      have htwin' : Twin g n f := ⟨Finding.ne_of_lt hlt, htwin.text.trans htext.symm,
        htwin.anchor.trans (congrArg some hsame.symm)⟩
      exact hleast f hlt (twin_dismiss_iff.mpr ⟨htwin', htwin.ne⟩)
    · rw [hsame, hmrange] at hrange
      rw [hn', hsame, ← Option.some.inj hrange]
      exact marker_eq hm' n.finding

/-- After a round the chosen marker is gone, and the least twin of its finding, if there is one, has
a marker in its place. -/
theorem IsCurrent.mem_shown_dismiss_iff (h : IsCurrent d g) (hm : m ∈ g.shown d) :
    n ∈ (g.dismiss m.finding).2.shown d ↔
      (n ∈ g.shown d ∧ n ≠ m) ∨ ∃ f, LeastTwin g m f ∧ n = { m with finding := f } := by
  constructor
  · intro hn
    by_cases hsame : n.anchor = m.anchor ∧ n.finding.text = m.finding.text
    · exact Or.inr ⟨n.finding, h.leastTwin_of_mem_shown_dismiss hm hn hsame.1 hsame.2⟩
    · refine Or.inl ⟨h.mem_shown_of_dismiss hm hn hsame, ?_⟩
      rintro rfl
      exact hsame ⟨rfl, rfl⟩
  · rintro (⟨hn, hne⟩ | ⟨f, hf, rfl⟩)
    · exact h.mem_shown_dismiss_of_ne hm hn hne
    · exact h.mem_shown_dismiss_of_leastTwin hm hf

/-- Of the twins of a marker's finding one is the least. -/
theorem IsCurrent.exists_leastTwin (h : IsCurrent d g) (hm : m ∈ g.shown d) {f : Finding}
    (hf : Twin g m f) : ∃ f, LeastTwin g m f := by
  obtain ⟨-, -, hrange, -⟩ := h.mem_shown_iff.mp hm
  -- it is the one that comes to light when the marker goes
  have hanchor : (g.dismiss m.finding).2.anchor? f = some m.anchor := by
    rw [anchor?_dismiss, if_neg hf.ne]
    exact hf.anchor
  obtain ⟨n, hn, hsame, htext⟩ := (h.dismiss m.finding).exists_shown hanchor hrange
  exact ⟨n.finding, (h.leastTwin_of_mem_shown_dismiss hm hn hsame (htext.trans hf.text)).1⟩

/-! ### Runs -/

/-- In each round one finding goes whose element exists. -/
theorem Navigation.length_add_live {ms : List (Marker Element)} {last : Gutter Element Stamp}
    (hrun : Navigation d g ms last) (h : IsCurrent d g) :
    ms.length + last.live d = g.live d := by
  induction hrun with
  | done g => exact Nat.zero_add _
  | @round g last m ms hm rest ih =>
      obtain ⟨-, hanchor, hrange, -⟩ := h.mem_shown_iff.mp hm
      have hround := ih (h.round m.finding)
      rw [h.query_eq] at hround
      rw [List.length_cons, ← live_dismiss hanchor hrange, ← hround]
      omega

/-- Whatever markers are chosen, one can go on until none is shown. -/
theorem IsCurrent.exists_navigation (h : IsCurrent d g) :
    ∃ ms last, Navigation d g ms last ∧ last.shown d = [] := by
  induction hlive : g.live d generalizing g with
  | zero => exact ⟨[], g, Navigation.done g, h.shown_eq_nil_iff.mpr hlive⟩
  | succ k ih =>
      have hne : g.shown d ≠ [] := by
        rw [Ne, h.shown_eq_nil_iff, hlive]
        exact Nat.succ_ne_zero k
      obtain ⟨m, hm⟩ := List.exists_mem_of_ne_nil _ hne
      obtain ⟨-, hanchor, hrange, -⟩ := h.mem_shown_iff.mp hm
      have hrest : (g.dismiss m.finding).2.live d = k := by
        have := live_dismiss hanchor hrange
        omega
      obtain ⟨ms, last, hrun, hnil⟩ := ih (h.dismiss m.finding) hrest
      refine ⟨m :: ms, last, Navigation.round hm ?_, hnil⟩
      rw [h.query_eq]
      exact hrun

/-- Going through the markers is exact and comes to its end.  Take a gutter that holds findings, a
document with their stamp, and any rounds so far, in which any shown markers were chosen.

* The gutter is still bound, and asking for the markers, which ascend, leaves it as it is.
* There were as many rounds as findings with an element that exists are no longer held.  So nothing
  is shown any more just when there were as many rounds as there were such findings at first; and
  one can go on until then.
* Whichever shown marker is chosen next, its finding is held.  What is shown then is what was shown
  without that marker; and if other findings are held that say the same at the same element, the
  least of them now has the marker.  None of them had one before. -/
theorem navigation_exact {bindings : Bindings Element Stamp} {last : Gutter Element Stamp}
    {ms : List (Marker Element)} (hheld : g.held = some bindings)
    (hstamp : (bindings.stamp == d.stamp) = true) (hrun : Navigation d g ms last) :
    last.isBound = true ∧ last.query d = (.markers (last.shown d), last) ∧
      ((last.shown d).Pairwise fun m n => m.finding < n.finding) ∧
      ms.length + last.live d = g.live d ∧
      (last.shown d = [] ↔ ms.length = g.live d) ∧
      (∃ rest final, Navigation d last rest final ∧ final.shown d = []) ∧
      ∀ m ∈ last.shown d,
        let next := (last.dismiss m.finding).2
        (last.dismiss m.finding).1 = true ∧ next.query d = (.markers (next.shown d), next) ∧
          ((next.shown d).Pairwise fun m n => m.finding < n.finding) ∧
          (∀ n, n ∈ next.shown d ↔
            (n ∈ last.shown d ∧ n ≠ m) ∨ ∃ f, LeastTwin last m f ∧ n = { m with finding := f }) ∧
          ((∃ f, LeastTwin last m f) ↔ ∃ f, Twin last m f) ∧
          ∀ f, Twin last m f → { m with finding := f } ∉ last.shown d := by
  have hcurrent : IsCurrent d g := ⟨bindings, hheld, hstamp⟩
  have hlast : IsCurrent d last := hrun.isCurrent hcurrent
  have hlength : ms.length + last.live d = g.live d := hrun.length_add_live hcurrent
  refine ⟨?_, hlast.query_eq, hlast.pairwise_shown, hlength, ?_, hlast.exists_navigation, ?_⟩
  · obtain ⟨bindings', hheld', -⟩ := hlast
    rw [isBound, hheld']
    rfl
  · rw [hlast.shown_eq_nil_iff]
    omega
  · intro m hm next
    have hnext : IsCurrent d next := hlast.dismiss m.finding
    obtain ⟨-, hanchor, -, -⟩ := hlast.mem_shown_iff.mp hm
    refine ⟨dismiss_eq_true_iff.mpr ⟨m.anchor, hanchor⟩, hnext.query_eq, hnext.pairwise_shown,
      fun n => hlast.mem_shown_dismiss_iff hm, ⟨?_, ?_⟩, ?_⟩
    · rintro ⟨f, hleast⟩
      exact ⟨f, hleast.toTwin⟩
    · rintro ⟨f, htwin⟩
      exact hlast.exists_leastTwin hm htwin
    · intro f htwin hf
      have heq : { m with finding := f } = m := hlast.eq_of_mem_shown hm hf rfl htwin.text
      exact htwin.ne (congrArg Marker.finding heq)

/-- Three findings say the same at one element, and another one says something else there; the
element of a fifth is gone.  There are two markers, and four rounds.  When the marker of the first
is chosen the second comes to light. -/
theorem navigation_through_twins :
    let d : Document Nat Nat :=
      { lineCount := 6, lineStart := fun line => some (10 * line)
        lineOf := fun offset => some (offset / 10), stamp := 7
        elementAt := fun offset => some (offset / 10), nextSibling := fun e => some (e + 1)
        range := fun e => if e = 5 then none else some ⟨10 * e, 10 * e + 4⟩ }
    let anchors : FindingMap Nat :=
      ⟨[(⟨1, "a"⟩, 1), (⟨1, "b"⟩, 1), (⟨2, "a"⟩, 1), (⟨3, "a"⟩, 1), (⟨4, "a"⟩, 5)], by decide⟩
    let g : Gutter Nat Nat := ⟨some ⟨7, anchors⟩, {}⟩
    let shownAt (f : Finding) : Marker Nat := marker {} f 1 ⟨10, 14⟩
    let last := (g.dismiss ⟨1, "a"⟩).2
    (g.held = some ⟨7, anchors⟩ ∧ (7 == d.stamp) = true ∧
        Navigation d g [shownAt ⟨1, "a"⟩] last) ∧
      g.shown d = [shownAt ⟨1, "a"⟩, shownAt ⟨1, "b"⟩] ∧
      last.shown d = [shownAt ⟨1, "b"⟩, shownAt ⟨2, "a"⟩] ∧
      1 + last.live d = 4 ∧ (last.dismiss ⟨2, "a"⟩).1 = true ∧
      LeastTwin last (shownAt ⟨2, "a"⟩) ⟨3, "a"⟩ := by
  intro d anchors g shownAt last
  have hheld : g.held = some ⟨7, anchors⟩ := rfl
  have hstamp : (7 == d.stamp) = true := by
    decide
  have hrun : Navigation d g [shownAt ⟨1, "a"⟩] last :=
    Navigation.round (by decide) (Navigation.done _)
  obtain ⟨-, -, -, hlength, -, -, hnext⟩ := navigation_exact hheld hstamp hrun
  obtain ⟨hdismiss, -, -, hmem, -, -⟩ := hnext (shownAt ⟨2, "a"⟩) (by decide)
  refine ⟨⟨hheld, hstamp, hrun⟩, by decide, by decide, ?_, hdismiss, ?_⟩
  · rw [← show g.live d = 4 by decide]
    exact hlength
  · rcases (hmem (shownAt ⟨3, "a"⟩)).mp (by decide) with ⟨hshown, -⟩ | ⟨f, hleast, heq⟩
    · exact absurd hshown (by decide)
    · rw [show (⟨3, "a"⟩ : Finding) = f from congrArg Marker.finding heq]
      exact hleast

end Marginalia.Gutter
