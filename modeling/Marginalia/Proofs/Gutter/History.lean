import Marginalia.Proofs.Gutter.Deduplication
import Marginalia.Proofs.Record

/-!
What a gutter holds after any history.

A client works with a gutter by any operations in any order (`Operation`), each on whatever the
document then is: stamps may change and come back, elements may go.  The record of what happened
(`Incident`) says what the gutter holds.  Findings that were attached are held until others are
attached, until they are removed, or until the client is told that they are gone; `HeldSince` says
what is held of them meanwhile.

`Follows` relates a gutter to its record.  Every operation preserves it (`follows_step`), so it
holds after any run (`follows_run`), and all that the gutter answers can be read off the record
(`held_after_any_history`).
-/

namespace Marginalia.Gutter

variable {Element Stamp : Type}

/-! ### Operations and what they bring about -/

/-- What a client does with a gutter.  A document is what its host shows at that moment. -/
inductive Operation (Element Stamp : Type) where
  | attach (findings : List Finding) (document : Document Element Stamp)
  | query (document : Document Element Stamp)
  | collect (document : Document Element Stamp) (collection : List (Marker Element))
  | dismiss (finding : Finding)
  | clear
  | withStyle (style : Style)

/-- What happened to a gutter. -/
inductive Incident (Element Stamp : Type) where
  | attached (findings : List Finding) (document : Document Element Stamp)
  | queried (outcome : Outcome Element)
  | collected (outcome : Collected)
  | dismissed (finding : Finding)
  | cleared
  | restyled

namespace Incident

/-- Whether the client was told that the findings are gone. -/
def isInvalidation : Incident Element Stamp → Bool
  | queried .invalidated => true
  | collected .invalidated => true
  | _ => false

/-- Whether the findings are no longer held, and none are attached in their place. -/
def isEnd : Incident Element Stamp → Bool
  | cleared => true
  | incident => incident.isInvalidation

/-- Whether findings were attached. -/
def isAttaching : Incident Element Stamp → Bool
  | attached _ _ => true
  | _ => false

/-- Whether an incident leaves what is held as it is. -/
def isQuiet : Incident Element Stamp → Bool
  | queried (.markers _) => true
  | collected (.added _) => true
  | restyled => true
  | _ => false

theorem isEnd_of_isInvalidation {incident : Incident Element Stamp}
    (h : incident.isInvalidation = true) : incident.isEnd = true := by
  cases incident with
  | attached findings d => cases h
  | queried outcome => exact h
  | collected outcome => exact h
  | dismissed f => cases h
  | cleared => cases h
  | restyled => cases h

/-- A quiet incident attaches nothing, ends nothing and removes nothing. -/
theorem of_isQuiet {incident : Incident Element Stamp} (h : incident.isQuiet = true) :
    incident.isAttaching = false ∧ incident.isEnd = false ∧ ∀ f, incident ≠ .dismissed f := by
  rcases incident with ⟨findings, d⟩ | ⟨ms | -⟩ | ⟨count | -⟩ | f | - | - <;>
    simp_all [isQuiet, isAttaching, isEnd, isInvalidation]

end Incident

variable [BEq Element] [BEq Stamp]

/-- Do one thing with a gutter. -/
def step (g : Gutter Element Stamp) :
    Operation Element Stamp → Incident Element Stamp × Gutter Element Stamp
  | .attach findings d => (.attached findings d, (g.attach findings d).2)
  | .query d => (.queried (g.query d).1, (g.query d).2)
  | .collect d collection =>
      (.collected (g.collect d collection).1, (g.collect d collection).2.2)
  | .dismiss f => (.dismissed f, (g.dismiss f).2)
  | .clear => (.cleared, g.clear)
  | .withStyle style => (.restyled, g.withStyle style)

/-- Do one thing after another.  The record is in the order of the operations. -/
def run (g : Gutter Element Stamp) :
    List (Operation Element Stamp) → List (Incident Element Stamp) × Gutter Element Stamp
  | [] => ([], g)
  | operation :: operations =>
      let first := g.step operation
      let rest := first.2.run operations
      (first.1 :: rest.1, rest.2)

/-- Every entry of a record is what one operation brought about, after those before it. -/
theorem exists_step_of_run {g : Gutter Element Stamp} {operations : List (Operation Element Stamp)}
    {before after : List (Incident Element Stamp)} {incident : Incident Element Stamp}
    (h : (g.run operations).1 = before ++ incident :: after) :
    ∃ done operation, (g.run done).1 = before ∧ ((g.run done).2.step operation).1 = incident := by
  induction operations generalizing g before with
  | nil => cases before <;> cases h
  | cons operation operations ih =>
      rw [run] at h
      cases before with
      | nil => exact ⟨[], operation, rfl, (List.cons.inj h).1⟩
      | cons first before =>
          obtain ⟨rfl, hrest⟩ := List.cons.inj h
          obtain ⟨done, operation', hdone, hincident⟩ := ih hrest
          refine ⟨operation :: done, operation', ?_, hincident⟩
          rw [run, hdone]

/-! ### What the record says -/

omit [BEq Element] [BEq Stamp]

/-- What is held of findings that were attached to a document when `since` has happened after it:
each finding that has an anchor, at the anchor it had then, unless it was dismissed; and the stamp
of the document.  Nothing else was attached since, and the findings have not ended. -/
structure HeldSince (bindings : Bindings Element Stamp) (findings : List Finding)
    (d : Document Element Stamp) (since : List (Incident Element Stamp)) : Prop where
  latest : ∀ incident ∈ since, incident.isAttaching = false
  standing : ∀ incident ∈ since, incident.isEnd = false
  stamp : bindings.stamp = d.stamp
  anchors : ∀ f element, bindings.anchors.get? f = some element ↔
    (f ∈ findings ∧ .dismissed f ∉ since) ∧ d.anchor f.line = .ok element

/-- The gutter holds what its record says: the findings attached last, or none if all that were ever
attached have ended. -/
def Follows (history : List (Incident Element Stamp)) (g : Gutter Element Stamp) : Prop :=
  match g.held with
  | none => ∀ findings d since, After history (.attached findings d) since →
      ∃ incident ∈ since, incident.isEnd = true
  | some bindings => ∃ findings d since, After history (.attached findings d) since ∧
      HeldSince bindings findings d since

namespace HeldSince

variable {bindings : Bindings Element Stamp} {findings : List Finding} {d : Document Element Stamp}
  {since : List (Incident Element Stamp)}

/-- What is held right after attaching. -/
theorem nil (findings : List Finding) (d : Document Element Stamp) :
    HeldSince ⟨d.stamp, anchorAll d findings⟩ findings d [] where
  latest := fun _ h => absurd h List.not_mem_nil
  standing := fun _ h => absurd h List.not_mem_nil
  stamp := rfl
  anchors := by
    intro f element
    rw [get?_anchorAll_eq_some_iff, and_iff_left List.not_mem_nil]

/-- A property of all that happened since still holds if it holds of what happens next. -/
theorem forall_mem_concat {p : Incident Element Stamp → Prop} {incident : Incident Element Stamp}
    (h : ∀ e ∈ since, p e) (hincident : p incident) : ∀ e ∈ since ++ [incident], p e := by
  intro e he
  rcases List.mem_append.mp he with he | he
  · exact h e he
  · rw [List.mem_singleton.mp he]
    exact hincident

/-- A quiet incident changes nothing of what is held. -/
theorem quiet (h : HeldSince bindings findings d since) {incident : Incident Element Stamp}
    (hquiet : incident.isQuiet = true) :
    HeldSince bindings findings d (since ++ [incident]) where
  latest := forall_mem_concat h.latest (Incident.of_isQuiet hquiet).1
  standing := forall_mem_concat h.standing (Incident.of_isQuiet hquiet).2.1
  stamp := h.stamp
  anchors := by
    intro f element
    have hdismissed : .dismissed f ≠ incident := ((Incident.of_isQuiet hquiet).2.2 f).symm
    rw [h.anchors, List.mem_append, List.mem_singleton]
    simp [hdismissed]

/-- A dismissed finding is no longer held, and all others are. -/
theorem dismiss (h : HeldSince bindings findings d since) (g : Finding) :
    HeldSince { bindings with anchors := bindings.anchors.erase g } findings d
      (since ++ [.dismissed g]) where
  latest := forall_mem_concat h.latest rfl
  standing := forall_mem_concat h.standing rfl
  stamp := h.stamp
  anchors := by
    intro f element
    rw [FindingMap.get?_erase, List.mem_append, List.mem_singleton]
    by_cases hfg : f = g
    · simp [hfg]
    · rw [if_neg hfg, h.anchors]
      simp [hfg]

end HeldSince

/-! ### One operation -/

variable {history : List (Incident Element Stamp)} {g : Gutter Element Stamp}
  {bindings : Bindings Element Stamp}

theorem follows_iff_of_none (hheld : g.held = none) :
    Follows history g ↔ ∀ findings d since, After history (.attached findings d) since →
      ∃ incident ∈ since, incident.isEnd = true := by
  rw [Follows, hheld]

theorem follows_iff_of_some (hheld : g.held = some bindings) :
    Follows history g ↔ ∃ findings d since, After history (.attached findings d) since ∧
      HeldSince bindings findings d since := by
  rw [Follows, hheld]

theorem follows_ofStyle (style : Style) :
    Follows [] (ofStyle style : Gutter Element Stamp) :=
  fun _ _ _ h => absurd h After.not_nil

theorem follows_attach (history : List (Incident Element Stamp)) (g : Gutter Element Stamp)
    (findings : List Finding) (d : Document Element Stamp) :
    Follows (history ++ [.attached findings d]) (g.attach findings d).2 :=
  ⟨findings, d, [], After.concat history _, HeldSince.nil findings d⟩

/-- Where findings end, those attached before have ended. -/
theorem follows_end {incident : Incident Element Stamp} (hend : incident.isEnd = true)
    (hheld : g.held = none) : Follows (history ++ [incident]) g := by
  rw [follows_iff_of_none hheld]
  intro findings d since hafter
  rcases After.concat_iff.mp hafter with ⟨-, rfl⟩ | ⟨earlier, rfl, -⟩
  · cases hend
  · exact ⟨incident, List.mem_append_right _ (List.mem_singleton.mpr rfl), hend⟩

/-- An incident that neither attaches findings nor ends them is followed if what is held before it
becomes what is held after it. -/
theorem follows_append (h : Follows history g) {incident : Incident Element Stamp}
    (hincident : incident.isAttaching = false) {after : Gutter Element Stamp}
    (hnone : g.held = none → after.held = none)
    (hsome : ∀ bindings, g.held = some bindings →
      ∃ kept, after.held = some kept ∧ ∀ findings d since,
        HeldSince bindings findings d since →
          HeldSince kept findings d (since ++ [incident])) :
    Follows (history ++ [incident]) after := by
  rcases hheld : g.held with - | bindings
  · rw [follows_iff_of_none hheld] at h
    rw [follows_iff_of_none (hnone hheld)]
    intro findings d since hafter
    rcases After.concat_iff.mp hafter with ⟨-, rfl⟩ | ⟨earlier, rfl, hearlier⟩
    · cases hincident
    · obtain ⟨e, he, hend⟩ := h findings d earlier hearlier
      exact ⟨e, List.mem_append_left _ he, hend⟩
  · rw [follows_iff_of_some hheld] at h
    obtain ⟨findings, d, since, hafter, hsince⟩ := h
    obtain ⟨kept, hkept, hnext⟩ := hsome bindings hheld
    rw [follows_iff_of_some hkept]
    exact ⟨findings, d, since ++ [incident], hafter.append _, hnext findings d since hsince⟩

/-- A quiet incident is followed by a gutter that holds the same. -/
theorem follows_quiet (h : Follows history g) {incident : Incident Element Stamp}
    (hquiet : incident.isQuiet = true) {after : Gutter Element Stamp}
    (hheld : after.held = g.held) : Follows (history ++ [incident]) after := by
  apply follows_append h (Incident.of_isQuiet hquiet).1
  · exact fun hnone => hheld.trans hnone
  · intro bindings hsome
    exact ⟨bindings, hheld.trans hsome, fun findings d since hsince => hsince.quiet hquiet⟩

theorem follows_dismiss (h : Follows history g) (f : Finding) :
    Follows (history ++ [.dismissed f]) (g.dismiss f).2 := by
  apply follows_append h rfl
  · intro hheld
    rw [dismiss, hheld]
    exact hheld
  · intro bindings hheld
    refine ⟨{ bindings with anchors := bindings.anchors.erase f }, ?_, ?_⟩
    · rw [dismiss, hheld]
    · exact fun findings d since hsince => hsince.dismiss f

variable [BEq Element] [BEq Stamp]

/-- Asking is followed, whichever way it is put on record: it ends the findings if the client is
told that they are gone, and else is quiet. -/
theorem follows_collect (h : Follows history g) {d : Document Element Stamp}
    {collection : List (Marker Element)} {incident : Incident Element Stamp}
    (hend : (g.collect d collection).1 = .invalidated → incident.isEnd = true)
    (hquiet : (g.collect d collection).1 ≠ .invalidated → incident.isQuiet = true) :
    Follows (history ++ [incident]) (g.collect d collection).2.2 := by
  by_cases hgone : (g.collect d collection).1 = .invalidated
  · obtain ⟨bindings, hheld, hstamp⟩ := collect_eq_invalidated_iff.mp hgone
    apply follows_end (hend hgone)
    rw [collect_of_stale hheld hstamp]
  · rw [gutter_of_collect hgone]
    exact follows_quiet h (hquiet hgone) rfl

/-- The gutter follows its record through every operation. -/
theorem follows_step (h : Follows history g) (operation : Operation Element Stamp) :
    Follows (history ++ [(g.step operation).1]) (g.step operation).2 := by
  cases operation with
  | attach findings d => exact follows_attach history g findings d
  | query d =>
      show Follows (history ++ [.queried (g.query d).1]) (g.query d).2
      rw [gutter_of_query]
      apply follows_collect h
      · intro hgone
        rw [query_eq_invalidated_iff.mpr hgone]
        rfl
      · intro hgone
        rcases hquery : (g.query d).1 with ms | -
        · rfl
        · exact absurd (query_eq_invalidated_iff.mp hquery) hgone
  | collect d collection =>
      show Follows (history ++ [.collected (g.collect d collection).1]) _
      apply follows_collect h
      · intro hgone
        rw [hgone]
        rfl
      · intro hgone
        rcases hcollect : (g.collect d collection).1 with count | -
        · rfl
        · exact absurd hcollect hgone
  | dismiss f => exact follows_dismiss h f
  | clear => exact follows_end rfl rfl
  | withStyle style => exact follows_quiet h rfl rfl

/-! ### Runs -/

theorem follows_run (h : Follows history g) (operations : List (Operation Element Stamp)) :
    Follows (history ++ (g.run operations).1) (g.run operations).2 := by
  induction operations generalizing history g with
  | nil =>
      rw [run, List.append_nil]
      exact h
  | cons operation operations ih =>
      rw [run, List.append_cons]
      exact ih (follows_step h operation)

/-- Only a gutter that holds findings tells that they are gone. -/
theorem exists_held_of_isInvalidation {operation : Operation Element Stamp}
    (h : (g.step operation).1.isInvalidation = true) : ∃ bindings, g.held = some bindings := by
  have hcollect : ∀ {d : Document Element Stamp} {collection : List (Marker Element)},
      (g.collect d collection).1 = .invalidated → ∃ bindings, g.held = some bindings := by
    intro d collection hgone
    obtain ⟨bindings, hheld, -⟩ := collect_eq_invalidated_iff.mp hgone
    exact ⟨bindings, hheld⟩
  cases operation with
  | attach findings d => cases h
  | query d =>
      rw [step] at h
      rcases hquery : (g.query d).1 with ms | -
      · rw [hquery] at h
        cases h
      · exact hcollect (query_eq_invalidated_iff.mp hquery)
  | collect d collection =>
      rw [step] at h
      rcases hgone : (g.collect d collection).1 with count | -
      · rw [hgone] at h
        cases h
      · exact hcollect hgone
  | dismiss f => cases h
  | clear => cases h
  | withStyle style => cases h

/-- Between being told twice that findings are gone, findings were attached. -/
theorem exists_attached_between {style : Style} {operations : List (Operation Element Stamp)}
    {before between after : List (Incident Element Stamp)} {first second : Incident Element Stamp}
    (h : ((ofStyle style).run operations).1 = before ++ first :: between ++ second :: after)
    (hfirst : first.isInvalidation = true) (hsecond : second.isInvalidation = true) :
    ∃ findings d, .attached findings d ∈ between := by
  obtain ⟨done, operation, hdone, rfl⟩ := exists_step_of_run h
  obtain ⟨bindings, hheld⟩ := exists_held_of_isInvalidation hsecond
  have hfollows := follows_run (follows_ofStyle style) done
  rw [follows_iff_of_some hheld, List.nil_append, hdone] at hfollows
  obtain ⟨findings, d, since, hafter, hsince⟩ := hfollows
  -- what is held has not ended, so it was attached after the first of the two
  have hfirst' : After (before ++ first :: between) first between := ⟨before, rfl⟩
  rcases hafter.eq_or_mem hfirst' with ⟨rfl, -⟩ | hmem | hmem
  · cases hfirst
  · exact ⟨findings, d, hmem⟩
  · have hend := Incident.isEnd_of_isInvalidation hfirst
    rw [hsince.standing first hmem] at hend
    cases hend

/-! ### Dismissing -/

omit [BEq Element] [BEq Stamp] in
/-- A finding is said to have been attached if it is held. -/
theorem dismiss_eq_true_iff {f : Finding} :
    (g.dismiss f).1 = true ↔ ∃ element, g.anchor? f = some element := by
  rw [dismiss, anchor?]
  rcases g.held with - | bindings
  · simp
  · exact Option.isSome_iff_exists

omit [BEq Element] [BEq Stamp] in
/-- Dismissing keeps a gutter bound, also where nothing is left in it. -/
theorem isBound_dismiss (g : Gutter Element Stamp) (f : Finding) :
    (g.dismiss f).2.isBound = g.isBound := by
  rw [dismiss]
  rcases hheld : g.held with - | bindings
  · rfl
  · rw [isBound, isBound, hheld]
    rfl

omit [BEq Element] [BEq Stamp] in
/-- Dismissing removes one finding and no other. -/
theorem anchor?_dismiss (g : Gutter Element Stamp) (f f' : Finding) :
    (g.dismiss f).2.anchor? f' = if f' = f then none else g.anchor? f' := by
  rw [dismiss]
  rcases hheld : g.held with - | bindings
  · simp [anchor?, hheld]
  · simp [anchor?, hheld, FindingMap.get?_erase]

/-! ### What a gutter holds -/

/-- Whatever a client does with a gutter, in any order and with any documents, the gutter is as its
record says.

* It is bound just when findings were attached and have not ended since.
* What it holds is what was attached last: each finding that had an anchor then, at that anchor,
  unless it was dismissed since; with the stamp the document had then.
* Asked for markers, either way, it tells that the findings are gone just when it is bound and the
  document has another stamp, and between telling so twice findings were attached.  Else asking
  leaves it as it is, whatever has become of the elements.
* Dismissing tells whether the finding was held, removes no other, and keeps the gutter bound. -/
theorem held_after_any_history (style : Style) (operations : List (Operation Element Stamp)) :
    let history := ((ofStyle style).run operations).1
    let g := ((ofStyle style).run operations).2
    (g.isBound = true ↔ ∃ findings d since, After history (.attached findings d) since ∧
        ∀ incident ∈ since, incident.isEnd = false) ∧
      (∀ bindings, g.held = some bindings → ∃ findings d since,
        After history (.attached findings d) since ∧ HeldSince bindings findings d since) ∧
      (∀ d, (g.query d).1 = .invalidated
        ↔ ∃ bindings, g.held = some bindings ∧ (bindings.stamp == d.stamp) = false) ∧
      (∀ d collection, (g.collect d collection).1 = .invalidated
        ↔ ∃ bindings, g.held = some bindings ∧ (bindings.stamp == d.stamp) = false) ∧
      (∀ before first between second after,
        history = before ++ first :: between ++ second :: after →
          first.isInvalidation = true → second.isInvalidation = true →
            ∃ findings d, .attached findings d ∈ between) ∧
      (∀ d, (g.query d).1 ≠ .invalidated → (g.query d).2 = g) ∧
      (∀ d collection, (g.collect d collection).1 ≠ .invalidated →
        (g.collect d collection).2.2 = g) ∧
      ∀ f, ((g.dismiss f).1 = true ↔ ∃ element, g.anchor? f = some element) ∧
        (g.dismiss f).2.isBound = g.isBound ∧
        ∀ f', (g.dismiss f).2.anchor? f' = if f' = f then none else g.anchor? f' := by
  intro history g
  have hfollows : Follows history g := follows_run (follows_ofStyle style) operations
  refine ⟨?_, ?_, ?_, ?_, ?_, ?_, ?_, ?_⟩
  · rcases hheld : g.held with - | bindings
    · -- nothing is held, so all that was attached has ended
      rw [follows_iff_of_none hheld] at hfollows
      rw [isBound, hheld]
      refine ⟨fun h => (nomatch h), ?_⟩
      rintro ⟨findings, d, since, hafter, hstanding⟩
      obtain ⟨incident, hmem, hend⟩ := hfollows findings d since hafter
      rw [hstanding incident hmem] at hend
      cases hend
    · rw [follows_iff_of_some hheld] at hfollows
      obtain ⟨findings, d, since, hafter, hsince⟩ := hfollows
      rw [isBound, hheld]
      exact ⟨fun _ => ⟨findings, d, since, hafter, hsince.standing⟩, fun _ => rfl⟩
  · intro bindings hheld
    exact (follows_iff_of_some hheld).mp hfollows
  · exact fun d => query_eq_invalidated_iff.trans collect_eq_invalidated_iff
  · exact fun d collection => collect_eq_invalidated_iff
  · intro before first between second after hhistory hfirst hsecond
    exact exists_attached_between hhistory hfirst hsecond
  · intro d hgone
    rw [gutter_of_query]
    exact gutter_of_collect fun h => hgone (query_eq_invalidated_iff.mpr h)
  · exact fun d collection hgone => gutter_of_collect hgone
  · exact fun f => ⟨dismiss_eq_true_iff, isBound_dismiss g f, anchor?_dismiss g f⟩

/-- The stamp of a document changes and comes back, findings are attached again, one of them has no
anchor, the style changes and one is dismissed: what was attached last is held.  When the stamp has
changed once more the client is told a second time. -/
theorem held_after_stamp_returns :
    let doc (stamp : Nat) : Document Nat Nat :=
      { lineCount := 2, lineStart := fun line => if line < 2 then some (10 * line) else none
        lineOf := fun offset => some (offset / 10), stamp := stamp
        elementAt := fun offset => some offset, nextSibling := fun _ => none
        range := fun e => some ⟨e - 2, e + 1⟩, start := some }
    let again : List Finding := [⟨0, "x"⟩, ⟨1, "y"⟩, ⟨9, "z"⟩]
    let operations : List (Operation Nat Nat) :=
      [.attach [⟨0, "x"⟩] (doc 1), .query (doc 2), .query (doc 1), .attach again (doc 1),
        .withStyle { icon := .warning }, .dismiss ⟨0, "x"⟩, .query (doc 1)]
    let kept := (ofStyle {}).run operations
    let told := (ofStyle {}).run (operations ++ [.collect (doc 3) []])
    kept.2.isBound = true ∧
      (∃ bindings, kept.2.held = some bindings ∧ ∃ findings d since,
        After kept.1 (.attached findings d) since ∧ HeldSince bindings findings d since) ∧
      (kept.2.collect (doc 3) []).1 = .invalidated ∧ (kept.2.collect (doc 1) []).2.2 = kept.2 ∧
      (kept.2.dismiss ⟨1, "y"⟩).1 = true ∧
      ∃ before first between second after,
        (told.1 = before ++ first :: between ++ second :: after ∧
          first.isInvalidation = true ∧ second.isInvalidation = true) ∧
        ∃ findings d, .attached findings d ∈ between := by
  intro doc again operations kept told
  obtain ⟨hbound, hheld, -, hcollect, -, -, hkept, hdismiss⟩ :=
    held_after_any_history {} operations
  obtain ⟨-, -, -, -, hbetween, -⟩ :=
    held_after_any_history {} (operations ++ [.collect (doc 3) []])
  have hbindings : kept.2.held = some ⟨1, ⟨[(⟨1, "y"⟩, 10)], List.pairwise_singleton ..⟩⟩ := rfl
  refine ⟨?_, ⟨_, hbindings, hheld _ hbindings⟩, ?_, ?_, ?_, ?_⟩
  · refine hbound.mpr ⟨again, doc 1, _, ⟨[_, _, _], rfl⟩, ?_⟩
    decide
  · exact (hcollect (doc 3) []).mpr ⟨_, hbindings, rfl⟩
  · exact hkept (doc 1) [] (by decide)
  · exact (hdismiss ⟨1, "y"⟩).1.mpr ⟨10, rfl⟩
  · refine ⟨[_], _, [_, _, _, _, _], _, [], ⟨rfl, rfl, rfl⟩, ?_⟩
    exact hbetween [_] _ [_, _, _, _, _] _ [] rfl rfl rfl

end Marginalia.Gutter
