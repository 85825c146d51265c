import Marginalia.Proofs.Gutter.Markers
import Marginalia.Proofs.Text.ByteOrder

/-!
Attaching as a function of a set of findings.

Findings come as a list, in any order and with repetitions, but what is held after attaching depends
only on which findings with an anchor are in the list (`anchorAll_congr`): a map is known by its
values, and those are the anchors of the members.  The count of findings without an anchor does
depend on repetitions, and not on the order.

A gutter lists its findings by line and, on one line, by the bytes of their texts
(`pairwise_findings`).
-/

namespace Marginalia.Gutter

open Text.Utf8 (encode encode_lt_encode_iff)

variable {Element Stamp : Type} {d : Document Element Stamp} {findings : List Finding}

/-! ### What is listed -/

/-- The findings of a gutter are listed by line, and on one line by the bytes of their texts. -/
theorem pairwise_findings (g : Gutter Element Stamp) :
    g.findings.Pairwise fun a b =>
      a.line < b.line ∨ a.line = b.line ∧ encode a.text.toList < encode b.text.toList := by
  simp only [encode_lt_encode_iff]
  rcases hheld : g.held with - | bindings
  · rw [Gutter.findings, hheld]
    exact List.Pairwise.nil
  · rw [Gutter.findings, hheld]
    exact List.pairwise_map.mpr bindings.anchors.ascending

theorem length_findings (g : Gutter Element Stamp) : g.findings.length = g.size := by
  rw [Gutter.findings, size]
  rcases g.held with - | bindings
  · rfl
  · exact List.length_map _

/-! ### What is attached -/

/-- Where the same findings with an anchor are attached, the same is held. -/
theorem anchorAll_congr {others : List Finding}
    (h : ∀ f element, d.anchor f.line = .ok element → (f ∈ others ↔ f ∈ findings)) :
    anchorAll d others = anchorAll d findings := by
  apply FindingMap.ext_get?
  intro f
  apply Option.ext
  intro element
  rw [get?_anchorAll_eq_some_iff, get?_anchorAll_eq_some_iff]
  exact and_congr_left (h f element)

/-- Where the same findings with an anchor are attached, and as many without, attaching does the
same. -/
theorem attach_congr (g : Gutter Element Stamp) {others : List Finding}
    (hanchored : ∀ f element, d.anchor f.line = .ok element → (f ∈ others ↔ f ∈ findings))
    (hlost : others.countP (isLost d) = findings.countP (isLost d)) :
    g.attach others d = g.attach findings d := by
  rw [attach, attach, anchorAll_congr hanchored, hlost]

theorem isLost_eq (d : Document Element Stamp) (f : Finding) :
    isLost d f = !(d.anchor f.line).isOk := by
  rw [isLost]
  cases d.anchor f.line <;> rfl

/-- Attaching is a function of the set of findings.

* What is held afterwards is each finding of the list that has an anchor, once, at that anchor.  It
  is listed by line and, on one line, by the bytes of the texts.
* The answer counts those findings once each, and the ones without an anchor as often as they occur.
* What was held before does not matter, nor does the order of the list.
* Only the findings with an anchor matter for what is held, and repeating one changes nothing. -/
theorem attach_depends_on_set (g : Gutter Element Stamp) (findings : List Finding)
    (d : Document Element Stamp) :
    let tally := (g.attach findings d).1
    let after := (g.attach findings d).2
    after.isBound = true ∧
      (∀ f, f ∈ after.findings ↔ f ∈ findings ∧ ∃ element, d.anchor f.line = .ok element) ∧
      (after.findings.Pairwise fun a b =>
        a.line < b.line ∨ a.line = b.line ∧ encode a.text.toList < encode b.text.toList) ∧
      (∀ f element, after.anchor? f = some element
        ↔ f ∈ findings ∧ d.anchor f.line = .ok element) ∧
      tally.bound = after.findings.length ∧
      tally.dropped = (findings.filter fun f => !(d.anchor f.line).isOk).length ∧
      (∀ before : Gutter Element Stamp, before.style = g.style →
        before.attach findings d = g.attach findings d) ∧
      (∀ others, (∀ f element, d.anchor f.line = .ok element → (f ∈ others ↔ f ∈ findings)) →
        (g.attach others d).2 = after) ∧
      (∀ others, others.Perm findings → g.attach others d = g.attach findings d) ∧
      ∀ before f rest element, findings = before ++ rest → f ∈ findings →
        d.anchor f.line = .ok element →
          g.attach (before ++ f :: rest) d = g.attach findings d := by
  intro tally after
  have hanchor : ∀ f element, after.anchor? f = some element
      ↔ f ∈ findings ∧ d.anchor f.line = .ok element :=
    fun f element => get?_anchorAll_eq_some_iff
  refine ⟨rfl, ?_, pairwise_findings after, ?_, ?_, ?_, ?_, ?_, ?_, ?_⟩
  · intro f
    rw [mem_findings_iff]
    simp only [hanchor, exists_and_left]
  · exact hanchor
  · exact (length_findings after).symm
  · show findings.countP (isLost d) = _
    rw [List.countP_eq_length_filter]
    simp only [funext (isLost_eq d)]
  · intro before hstyle
    rw [attach, attach, hstyle]
  · intro others hothers
    show { g with held := some ⟨d.stamp, anchorAll d others⟩ } = after
    rw [anchorAll_congr hothers]
    rfl
  · intro others hperm
    exact attach_congr g (fun f _ _ => hperm.mem_iff) (hperm.countP_eq _)
  · rintro before f rest element rfl hf hanchor
    apply attach_congr g
    · -- the repeated finding was there before
      intro f' _ _
      rw [List.perm_middle.mem_iff, List.mem_cons]
      exact or_iff_right_of_imp fun heq => heq ▸ hf
    · rw [List.perm_middle.countP_eq, List.countP_cons_of_neg]
      rw [isLost_eq, hanchor]
      exact Bool.false_ne_true

/-- Two findings of one line come in the wrong order, one of them twice, and so does one that is out
of the document.  The range of an element begins two bytes before its own text: for the element at
the start of the second line, on the first. -/
theorem attach_repeated_and_lost :
    let d : Document Nat Nat :=
      { lineCount := 2, lineStart := fun line => if line < 2 then some (10 * line) else none
        lineOf := fun offset => some (offset / 10), stamp := 7
        elementAt := fun offset => some offset, nextSibling := fun _ => none
        range := fun e => some ⟨e - 2, e + 1⟩, start := some }
    let g : Gutter Nat Nat := ⟨some ⟨5, FindingMap.empty.insert ⟨0, "old"⟩ 3⟩, {}⟩
    let findings : List Finding := [⟨1, "é"⟩, ⟨9, "z"⟩, ⟨0, "x"⟩, ⟨1, "z"⟩, ⟨1, "é"⟩, ⟨9, "z"⟩]
    (g.attach findings d).1 = ⟨3, 2⟩ ∧
      (g.attach findings d).2.findings = [⟨0, "x"⟩, ⟨1, "z"⟩, ⟨1, "é"⟩] ∧
      (ofStyle {}).attach findings d = g.attach findings d ∧
      (g.attach [⟨0, "x"⟩, ⟨1, "z"⟩, ⟨1, "é"⟩] d).2 = (g.attach findings d).2 ∧
      g.attach findings.reverse d = g.attach findings d ∧
      g.attach (⟨0, "x"⟩ :: findings) d = g.attach findings d := by
  intro d g findings
  obtain ⟨-, -, -, -, -, -, hbefore, hset, hperm, hrepeat⟩ := attach_depends_on_set g findings d
  refine ⟨by decide, by decide, hbefore (ofStyle {}) rfl, ?_, ?_, ?_⟩
  · apply hset
    intro f element hanchor
    have hlost : f ≠ ⟨9, "z"⟩ := by
      rintro rfl
      cases hanchor
    simp only [findings, List.mem_cons, hlost, List.not_mem_nil]
    tauto
  · exact hperm findings.reverse findings.reverse_perm
  · exact hrepeat [] ⟨0, "x"⟩ findings 0 rfl (by decide) (by rfl)

end Marginalia.Gutter
