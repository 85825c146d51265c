import Marginalia.Proofs.Gutter.Deduplication
import Marginalia.Proofs.OpenDocument.History

/-!
The markers of an open document are fresh.

A document does not keep the record of what a client did with it.  It keeps the stamp of the text
and, in the gutter, the stamp and the anchors from when the findings were attached.  `Tracks`
relates the two: what is held is what stands according to the record, the stamps differ by the
number of edits since, and as long as there are none the anchors are those the findings have in the
text, less the findings dismissed.  Every action preserves this (`tracks_perform`), so it holds
after any run (`tracks_run`), and what `markers` answers can be read off the record
(`markers_fresh`).
-/

namespace Marginalia

/-! ### What the document keeps of it -/

/-- What is held of the findings of a run when `since` has happened after it.  The stamps differ by
the number of edits since; while there are none, what is held is the anchors that the findings have
in the text, of those that have not been dismissed. -/
structure Keeps (source : SourceText) (bindings : Bindings Nat UInt64) (findings : List Finding)
    (since : List Happening) : Prop where
  stamp : bindings.stamp + UInt64.ofNat (since.count .edited) = source.stamp
  anchors : .edited ∉ since → ∀ f element, bindings.anchors.get? f = some element ↔
    (f ∈ findings ∧ .dismissed f ∉ since) ∧ source.document.anchor f.line = .ok element

/-- The document keeps the findings that stand, and none if none do. -/
def Tracks (history : List Happening) (o : OpenDocument) : Prop :=
  match o.gutter.held with
  | none => ∀ findings since, ¬Standing history findings since
  | some bindings =>
      ∃ findings since, Standing history findings since ∧ Keeps o.source bindings findings since

/-- What is held right after attaching. -/
theorem keeps_anchorAll (source : SourceText) (findings : List Finding) :
    Keeps source ⟨source.stamp, Gutter.anchorAll source.document findings⟩ findings [] where
  stamp := UInt64.add_zero source.stamp
  anchors := by
    intro _ f element
    rw [Gutter.get?_anchorAll_eq_some_iff, and_iff_left List.not_mem_nil]

namespace Keeps

variable {source : SourceText} {bindings : Bindings Nat UInt64} {findings : List Finding}
  {since : List Happening}

/-- A quiet happening changes nothing of what is held. -/
theorem quiet (h : Keeps source bindings findings since) {happening : Happening}
    (hquiet : happening.isQuiet) : Keeps source bindings findings (since ++ [happening]) where
  stamp := by
    have hedited : happening ≠ .edited := fun heq => by
      rw [heq] at hquiet
      cases hquiet
    rw [List.count_append, List.count_singleton, beq_eq_false_iff_ne.mpr hedited]
    exact h.stamp
  anchors := by
    intro hfresh f element
    have hdismissed : .dismissed f ≠ happening := fun heq => by
      rw [← heq] at hquiet
      cases hquiet
    rw [h.anchors (fun hmem => hfresh (List.mem_append_left _ hmem)), List.mem_append,
      List.mem_singleton]
    simp [hdismissed]

/-- A dismissed finding is no longer held. -/
theorem dismiss (h : Keeps source bindings findings since) (g : Finding) :
    Keeps source { bindings with anchors := bindings.anchors.erase g } findings
      (since ++ [.dismissed g]) where
  stamp := by
    rw [List.count_append]
    exact h.stamp
  anchors := by
    intro hfresh f element
    rw [FindingMap.get?_erase, List.mem_append, List.mem_singleton]
    by_cases hfg : f = g
    · simp [hfg]
    · rw [if_neg hfg, h.anchors fun hmem => hfresh (List.mem_append_left _ hmem)]
      simp [hfg]

/-- An edit gives the text the next stamp. -/
theorem edit (h : Keeps source bindings findings since) {edited : SourceText}
    (hstamp : edited.stamp = source.stamp + 1) :
    Keeps edited bindings findings (since ++ [.edited]) where
  stamp := by
    rw [List.count_append, hstamp, ← h.stamp, UInt64.ofNat_add, UInt64.add_assoc]
    rfl
  anchors := fun hfresh =>
    absurd (List.mem_append_right _ (List.mem_singleton.mpr rfl)) hfresh

/-- Short of `UInt64.size` edits, the stamps agree just when there were none. -/
theorem stamp_eq_iff (h : Keeps source bindings findings since)
    (hcount : since.count .edited < UInt64.size) :
    bindings.stamp = source.stamp ↔ .edited ∉ since := by
  rw [← List.count_eq_zero, ← h.stamp]
  constructor
  · intro heq
    -- a stamp comes back to itself only after `UInt64.size` edits
    have htoNat := congrArg UInt64.toNat heq
    rw [UInt64.toNat_add, UInt64.toNat_ofNat_of_lt' hcount] at htoNat
    have hstamp := bindings.stamp.toNat_lt
    have hsize : UInt64.size = 18446744073709551616 := rfl
    omega
  · intro hzero
    rw [hzero]
    exact (UInt64.add_zero bindings.stamp).symm

end Keeps

/-! ### One action -/

/-- An edit that is not refused gives the text the next stamp. -/
theorem SourceText.stamp_of_replace {s edited : SourceText} {span : Span} {replacement : String}
    (h : s.replace span replacement = .ok edited) : edited.stamp = s.stamp + 1 := by
  rw [replace] at h
  split at h
  · cases h
  · split at h
    · cases h
      rfl
    · cases h

/-- Every element to which a finding is anchored has a place in the text. -/
theorem SourceText.exists_range_of_anchor {s : SourceText} {line : UInt32} {element : Nat}
    (h : s.document.anchor line = .ok element) :
    ∃ range, s.document.range element = some range := by
  rw [Document.anchor] at h
  split at h
  · cases h
  · split at h
    · cases h
    next found _ =>
      split at h
      next hstart =>
        cases h
        obtain ⟨start, hstart, -⟩ := Option.bind_eq_some_iff.mp hstart
        obtain ⟨range, hrange, -⟩ := Option.map_eq_some_iff.mp hstart
        exact ⟨range, hrange⟩
      · split at h
        next sibling hsibling =>
          cases h
          have hsibling : s.nextToken found = some element := hsibling
          rw [nextToken] at hsibling
          split at hsibling
          next hlt =>
            cases hsibling
            exact ⟨s.tokens[found + 1], Array.getElem?_eq_getElem hlt⟩
          · cases hsibling
        · cases h

namespace OpenDocument

variable {history : List Happening} {o : OpenDocument} {bindings : Bindings Nat UInt64}

theorem tracks_iff_of_none (hheld : o.gutter.held = none) :
    Tracks history o ↔ ∀ findings since, ¬Standing history findings since := by
  rw [Tracks, hheld]

theorem tracks_iff_of_some (hheld : o.gutter.held = some bindings) :
    Tracks history o ↔
      ∃ findings since, Standing history findings since ∧
        Keeps o.source bindings findings since := by
  rw [Tracks, hheld]

theorem tracks_ofText (text : String) (style : Style) : Tracks [] (ofText text style) :=
  fun _ _ => Standing.not_nil

theorem tracks_annotate (history : List Happening) (o : OpenDocument) (findings : List Finding) :
    Tracks (history ++ [.annotated findings]) (o.annotate findings).2 :=
  ⟨findings, [], Standing.annotated history findings, keeps_anchorAll o.source findings⟩

/-- A happening that is no turn is tracked if what is held before it becomes what is held after it.
-/
theorem tracks_append (h : Tracks history o) {happening : Happening}
    (hturn : happening.isTurn = false) {after : OpenDocument}
    (hnone : o.gutter.held = none → after.gutter.held = none)
    (hsome : ∀ bindings, o.gutter.held = some bindings →
      ∃ kept, after.gutter.held = some kept ∧ ∀ findings since,
        Keeps o.source bindings findings since →
          Keeps after.source kept findings (since ++ [happening])) :
    Tracks (history ++ [happening]) after := by
  rcases hheld : o.gutter.held with - | bindings
  · rw [tracks_iff_of_none hheld] at h
    rw [tracks_iff_of_none (hnone hheld)]
    exact fun findings since => Standing.not_append h hturn
  · rw [tracks_iff_of_some hheld] at h
    obtain ⟨findings, since, hstanding, hkeeps⟩ := h
    obtain ⟨kept, hkept, hnext⟩ := hsome bindings hheld
    rw [tracks_iff_of_some hkept]
    exact ⟨findings, since ++ [happening], hstanding.extend hturn, hnext findings since hkeeps⟩

/-- A quiet happening changes neither what stands nor what is held. -/
theorem tracks_quiet (h : Tracks history o) {happening : Happening} (hquiet : happening.isQuiet) :
    Tracks (history ++ [happening]) o := by
  apply tracks_append h (Happening.isTurn_of_isQuiet hquiet) id
  intro bindings hheld
  exact ⟨bindings, hheld, fun findings since hkeeps => hkeeps.quiet hquiet⟩

theorem markers_of_none (hheld : o.gutter.held = none) : o.markers = (.markers [], o) := by
  rw [markers, Gutter.query_of_none hheld]

theorem markers_of_fresh (hheld : o.gutter.held = some bindings)
    (hstamp : bindings.stamp = o.source.stamp) :
    o.markers = (.markers (Marker.fresh []
      (Gutter.markersOf o.gutter.style o.source.document bindings.anchors)), o) := by
  rw [markers, Gutter.query_of_current hheld (beq_iff_eq.mpr hstamp)]

theorem markers_of_stale (hheld : o.gutter.held = some bindings)
    (hstamp : bindings.stamp ≠ o.source.stamp) :
    o.markers = (.invalidated, { o with gutter := { o.gutter with held := none } }) := by
  rw [markers, Gutter.query_of_stale hheld (beq_eq_false_iff_ne.mpr hstamp)]

theorem tracks_markers (h : Tracks history o) :
    Tracks (history ++ [.shown o.markers.1]) o.markers.2 := by
  rcases hheld : o.gutter.held with - | bindings
  · rw [markers_of_none hheld]
    exact tracks_quiet h rfl
  · by_cases hstamp : bindings.stamp = o.source.stamp
    · rw [markers_of_fresh hheld hstamp]
      exact tracks_quiet h rfl
    · rw [markers_of_stale hheld hstamp]
      exact fun _ _ => Standing.not_invalidated

theorem tracks_dismiss (h : Tracks history o) (f : Finding) :
    Tracks (history ++ [.dismissed f]) (o.dismiss f).2 := by
  apply tracks_append h rfl
  · intro hheld
    rw [dismiss, Gutter.dismiss, hheld]
    exact hheld
  · intro bindings hheld
    refine ⟨{ bindings with anchors := bindings.anchors.erase f }, ?_, ?_⟩
    · rw [dismiss, Gutter.dismiss, hheld]
    · exact fun findings since hkeeps => hkeeps.dismiss f

/-- An edit leaves the gutter as it is. -/
theorem tracks_edit (h : Tracks history o) {edited : SourceText}
    (hstamp : edited.stamp = o.source.stamp + 1) :
    Tracks (history ++ [.edited]) { o with source := edited } := by
  apply tracks_append h rfl
  · exact fun hheld => hheld
  · intro bindings hheld
    exact ⟨bindings, hheld, fun findings since hkeeps => hkeeps.edit hstamp⟩

/-- The document keeps what stands after every action. -/
theorem tracks_perform (h : Tracks history o) (action : Action) :
    Tracks (history ++ [(o.perform action).1]) (o.perform action).2 := by
  cases action with
  | annotate findings => exact tracks_annotate history o findings
  | markers => exact tracks_markers h
  | dismiss f => exact tracks_dismiss h f
  | replace span replacement =>
      rw [perform, replace]
      rcases hreplace : o.source.replace span replacement with error | edited
      · -- a refused edit leaves everything as it was
        show Tracks (history ++ [.refused error]) o
        exact tracks_quiet h rfl
      · exact tracks_edit h (SourceText.stamp_of_replace hreplace)
  | setText text => exact tracks_edit h rfl

/-! ### Runs -/

theorem tracks_run (h : Tracks history o) (actions : List Action) :
    Tracks (history ++ (o.run actions).1) (o.run actions).2 := by
  induction actions generalizing history o with
  | nil =>
      rw [run, List.append_nil]
      exact h
  | cons action actions ih =>
      rw [run, List.append_cons]
      exact ih (tracks_perform h action)

/-! ### The markers -/

/-- The markers shown for the findings of a run are each that of a finding not dismissed since, at
its anchor and place in the text as it is. -/
theorem mem_shown {findings : List Finding} {since : List Happening}
    (h : Keeps o.source bindings findings since) (hfresh : .edited ∉ since) {m : Marker Nat}
    (hm : m ∈ Marker.fresh []
      (Gutter.markersOf o.gutter.style o.source.document bindings.anchors)) :
    m.finding ∈ findings ∧ .dismissed m.finding ∉ since ∧
      o.source.document.anchor m.finding.line = .ok m.anchor ∧
      o.source.document.range m.anchor = some m.range := by
  obtain ⟨f, element, range, hheld, hrange, rfl⟩ :=
    Gutter.mem_markersOf.mp ((Marker.fresh_sublist ..).subset hm)
  obtain ⟨⟨hf, hdismissed⟩, hanchor⟩ := (h.anchors hfresh f element).mp hheld
  exact ⟨hf, hdismissed, hanchor, hrange⟩

/-- Every finding of a run that has an anchor and has not been dismissed since is shown at its
anchor. -/
theorem exists_shown {findings : List Finding} {since : List Happening}
    (h : Keeps o.source bindings findings since) (hfresh : .edited ∉ since) {f : Finding}
    (hf : f ∈ findings) (hdismissed : .dismissed f ∉ since) {element : Nat}
    (hanchor : o.source.document.anchor f.line = .ok element) :
    ∃ m ∈ Marker.fresh []
        (Gutter.markersOf o.gutter.style o.source.document bindings.anchors),
      m.anchor = element ∧ m.finding.text = f.text := by
  obtain ⟨range, hrange⟩ := SourceText.exists_range_of_anchor hanchor
  have hheld : bindings.anchors.get? f = some element :=
    (h.anchors hfresh f element).mpr ⟨⟨hf, hdismissed⟩, hanchor⟩
  -- the finding is shown by its own marker, or by that of another one that says the same there
  obtain ⟨m, hm, hkey⟩ :=
    Marker.exists_key [] (Gutter.mem_markersOf.mpr ⟨f, element, range, hheld, hrange, rfl⟩)
  exact ⟨m, hm, congrArg (·.1) hkey, congrArg (·.2.2.2) hkey⟩

/-- Whatever a client does with a document, in any order, asking for the markers shows the findings
of the last run of the analyzer as they stand in the text as it is.

The answer is that they are gone just when they stand and the text has been edited since, be it to
the same text.  Otherwise there are markers: none if no findings stand; if some do, each marker is
that of a finding that has not been dismissed, at the anchor the finding has now and where that is
now, and each such finding that has an anchor is shown at it.  The stamp counts edits in 64 bits, so
this holds short of `UInt64.size` of them. -/
theorem markers_fresh (text : String) (style : Style) (actions : List Action)
    (hcount : ((ofText text style).run actions).1.count .edited < UInt64.size) :
    let history := ((ofText text style).run actions).1
    let o := ((ofText text style).run actions).2
    (o.markers.1 = .invalidated ↔
        ∃ findings since, Standing history findings since ∧ .edited ∈ since) ∧
      ∀ ms, o.markers.1 = .markers ms →
        ((∀ findings since, ¬Standing history findings since) → ms = []) ∧
        ∀ findings since, Standing history findings since →
          (∀ m ∈ ms, m.finding ∈ findings ∧ .dismissed m.finding ∉ since ∧
            o.source.document.anchor m.finding.line = .ok m.anchor ∧
            o.source.document.range m.anchor = some m.range) ∧
          ∀ f ∈ findings, .dismissed f ∉ since →
            ∀ element, o.source.document.anchor f.line = .ok element →
              ∃ m ∈ ms, m.anchor = element ∧ m.finding.text = f.text := by
  intro history o
  have htracks : Tracks history o := tracks_run (tracks_ofText text style) actions
  rcases hheld : o.gutter.held with - | bindings
  · -- nothing is held, so nothing stands
    rw [tracks_iff_of_none hheld] at htracks
    rw [markers_of_none hheld]
    refine ⟨⟨?_, ?_⟩, ?_⟩
    · intro h
      cases h
    · rintro ⟨findings, since, hstanding, -⟩
      exact absurd hstanding (htracks findings since)
    · rintro ms hms
      cases hms
      exact ⟨fun _ => rfl, fun findings since hstanding =>
        absurd hstanding (htracks findings since)⟩
  · rw [tracks_iff_of_some hheld] at htracks
    obtain ⟨findings, since, hstanding, hkeeps⟩ := htracks
    have hstamp : bindings.stamp = o.source.stamp ↔ .edited ∉ since :=
      hkeeps.stamp_eq_iff (Nat.lt_of_le_of_lt hstanding.count_le hcount)
    by_cases hfresh : .edited ∈ since
    · -- what is held is out of date, and is given up
      rw [markers_of_stale hheld fun heq => hstamp.mp heq hfresh]
      refine ⟨⟨fun _ => ⟨findings, since, hstanding, hfresh⟩, fun _ => rfl⟩, ?_⟩
      intro ms hms
      cases hms
    · -- what is held is what stands, and is shown
      rw [markers_of_fresh hheld (hstamp.mpr hfresh)]
      refine ⟨⟨?_, ?_⟩, ?_⟩
      · intro h
        cases h
      · rintro ⟨findings', since', hstanding', hedited⟩
        obtain ⟨-, rfl⟩ := hstanding.unique hstanding'
        exact absurd hedited hfresh
      · rintro ms hms
        cases hms
        refine ⟨fun hnone => absurd hstanding (hnone findings since), ?_⟩
        intro findings' since' hstanding'
        obtain ⟨rfl, rfl⟩ := hstanding.unique hstanding'
        exact ⟨fun m hm => mem_shown hkeeps hfresh hm, fun f hf hdismissed element hanchor =>
          exists_shown hkeeps hfresh hf hdismissed hanchor⟩

/-- Two findings, one of them dismissed, and an edit that is refused: the other one is shown.  After
an edit to the same text the findings are gone. -/
theorem markers_fresh_dismissed_and_edited :
    let actions : List Action :=
      [.annotate [⟨0, " x"⟩, ⟨1, " y"⟩], .dismiss ⟨0, " x"⟩, .replace ⟨9, 9⟩ "c"]
    let shown := (ofText "a\nb" {}).run actions
    let edited := (ofText "a\nb" {}).run (actions ++ [.setText "a\nb"])
    (shown.1.count .edited < UInt64.size ∧
        ∀ ms, shown.2.markers.1 = .markers ms →
          (∀ m ∈ ms, m.finding = ⟨1, " y"⟩) ∧ ∃ m ∈ ms, m.anchor = 2 ∧ m.finding.text = " y") ∧
      edited.1.count .edited < UInt64.size ∧ edited.2.markers.1 = .invalidated := by
  intro actions shown edited
  have hshown : shown.1.count .edited < UInt64.size := by
    decide
  have hedited : edited.1.count .edited < UInt64.size := by
    decide
  have hanchor : shown.2.source.document.anchor 1 = .ok 2 :=
    toOption_eq_some_iff.mp (by decide +kernel)
  have hstanding : Standing shown.1 [⟨0, " x"⟩, ⟨1, " y"⟩]
      [.dismissed ⟨0, " x"⟩, .refused (.outOfBounds ⟨9, 9⟩ 3)] :=
    ⟨⟨[], rfl⟩, by simp, by simp⟩
  have hstanding' : Standing edited.1 [⟨0, " x"⟩, ⟨1, " y"⟩]
      [.dismissed ⟨0, " x"⟩, .refused (.outOfBounds ⟨9, 9⟩ 3), .edited] :=
    ⟨⟨[], rfl⟩, by simp, by simp⟩
  refine ⟨⟨hshown, ?_⟩, hedited, ?_⟩
  · intro ms hms
    obtain ⟨-, hruns⟩ := (markers_fresh "a\nb" {} actions hshown).2 ms hms
    obtain ⟨hsound, hcomplete⟩ := hruns _ _ hstanding
    refine ⟨?_, hcomplete ⟨1, " y"⟩ (by simp) (by simp) 2 hanchor⟩
    intro m hm
    obtain ⟨hmem, hdismissed, -⟩ := hsound m hm
    rcases List.mem_cons.mp hmem with hx | hy
    · rw [hx] at hdismissed
      exact absurd List.mem_cons_self hdismissed
    · exact List.mem_singleton.mp hy
  · refine (markers_fresh "a\nb" {} (actions ++ [.setText "a\nb"]) hedited).1.mpr ?_
    exact ⟨_, _, hstanding', by simp⟩

end OpenDocument

end Marginalia
