import Marginalia.Listing
import Marginalia.Proofs.OpenDocument.Freshness
import Marginalia.Proofs.SourceText.Anchor

/-!
Where the markers of a listing stand.

A listing prints the line number of a marker counted from 1, which is one more than a number of 32
bits may hold, and looks up the text of the anchor, which might not be there.  Neither goes wrong for
the markers of an open document: only findings on lines of the text have an anchor, and an anchor is
a token of the text, which starts where its line starts or after it (`standsAt_of_anchor`).  Later
lines have later anchors, so the markers, which ascend as their findings do, ascend by the places
where they start as well.
-/

namespace Marginalia

open Text

/-! ### Tokens in order -/

/-- A later token starts no earlier. -/
theorem SourceText.start_le_start {text : String} {stamp : UInt64} {i j : Nat} {a b : Span}
    (hij : i ≤ j) (ha : (index text stamp).tokens[i]? = some a)
    (hb : (index text stamp).tokens[j]? = some b) : a.start ≤ b.start := by
  rw [getElem?_tokens] at ha hb
  obtain ⟨hi, rfl⟩ := List.getElem?_eq_some_iff.mp ha
  obtain ⟨hj, rfl⟩ := List.getElem?_eq_some_iff.mp hb
  rcases Nat.eq_or_lt_of_le hij with rfl | hlt
  · exact Nat.le_refl _
  · have hstop := List.pairwise_iff_getElem.mp (pairwise_spansFrom 0 (runs text.toList)) i j hi hj hlt
    exact Nat.le_trans (bounds_of_mem_spansFrom (List.getElem_mem hi)).2.1 hstop

/-! ### After a run of the analyzer -/

namespace OpenDocument

/-- Dismiss findings one after another. -/
def dismissAll (o : OpenDocument) (findings : List Finding) : OpenDocument :=
  findings.foldl (fun o f => (o.dismiss f).2) o

/-- After a run of the analyzer, and after any dismissals since, findings are held for the text as
it is, each of them at its anchor. -/
theorem held_dismissAll {o : OpenDocument} {bindings : Bindings Nat UInt64}
    (hheld : o.gutter.held = some bindings) (hstamp : bindings.stamp = o.source.stamp)
    (hanchors : ∀ f element, bindings.anchors.get? f = some element →
      o.source.document.anchor f.line = .ok element) (dismissed : List Finding) :
    (o.dismissAll dismissed).source = o.source ∧
      ∃ left, (o.dismissAll dismissed).gutter.held = some left ∧ left.stamp = o.source.stamp ∧
        ∀ f element, left.anchors.get? f = some element →
          o.source.document.anchor f.line = .ok element := by
  induction dismissed generalizing o bindings with
  | nil => exact ⟨rfl, bindings, hheld, hstamp, hanchors⟩
  | cons f rest ih =>
      have hnext : (o.dismiss f).2 = { o with gutter := { o.gutter with
          held := some { bindings with anchors := bindings.anchors.erase f } } } := by
        rw [dismiss, Gutter.dismiss, hheld]
      rw [dismissAll, List.foldl_cons, hnext]
      refine ih rfl hstamp fun f' element hf' => ?_
      rw [FindingMap.get?_erase] at hf'
      split at hf'
      · cases hf'
      · exact hanchors f' element hf'

end OpenDocument

/-! ### Places -/

namespace Listing

open SourceText (index)
open Terminal (sanitize)

/-- A marker stands at a word of a text, on a line of the text or after the start of it. -/
structure StandsAt (source : SourceText) (m : Marker Nat) (before word after : List Char) :
    Prop where
  split : source.text.toList = before ++ (word ++ after)
  nonempty : word ≠ []
  range : m.range = ⟨byteLength before, byteLength before + byteLength word⟩
  anchor : source.tokenText m.anchor = some (String.ofList word)
  line_lt : m.finding.line.toNat < source.document.lineCount
  start_le : ∃ start, source.document.lineStart m.finding.line.toNat = some start ∧
    start ≤ m.range.start

section Place

variable {text : String} {stamp : UInt64} {m n : Marker Nat}

/-- A marker at the anchor of its finding stands at the token that is the anchor. -/
theorem standsAt_of_anchor
    (hanchor : (index text stamp).document.anchor m.finding.line = .ok m.anchor)
    (hrange : (index text stamp).document.range m.anchor = some m.range) :
    ∃ before word after, StandsAt (index text stamp) m before word after := by
  obtain ⟨a, run, b, hruns, hlength, hspan⟩ := SourceText.exists_runs_of_getElem? hrange
  obtain ⟨before, after, hcut, hfirst⟩ := SourceText.isFirstFrom_of_anchor hanchor
  have hmem : run ∈ runs text.toList := by
    rw [hruns]
    exact List.mem_append_right _ List.mem_cons_self
  refine ⟨a.flatten, run, b.flatten, ?_, ne_nil_of_mem_runs hmem, hspan, ?_, ?_, ?_⟩
  · show text.toList = _
    rw [← flatten_runs text.toList, hruns, List.flatten_append, List.flatten_cons]
  · rw [← hlength]
    exact SourceText.tokenText_of_runs hruns
  · show _ < (index text stamp).lineStarts.size
    rw [SourceText.size_lineStarts, hcut.split, List.count_append, hcut.count]
    omega
  · obtain ⟨span, hspan', hle⟩ := hfirst.starts
    have hsame : some span = some m.range := hspan'.symm.trans hrange
    obtain rfl := Option.some.inj hsame
    exact ⟨byteLength before, SourceText.lineStart_of_lineCut hcut, hle⟩

/-- A marker of a greater finding starts no earlier. -/
theorem start_le_of_lt (hlt : m.finding < n.finding)
    (hm : (index text stamp).document.anchor m.finding.line = .ok m.anchor)
    (hn : (index text stamp).document.anchor n.finding.line = .ok n.anchor)
    (hm' : (index text stamp).document.range m.anchor = some m.range)
    (hn' : (index text stamp).document.range n.anchor = some n.range) :
    m.range.start ≤ n.range.start := by
  have hline : m.finding.line ≤ n.finding.line := by
    rcases hlt with hlt | ⟨heq, -⟩
    · exact UInt32.le_of_lt hlt
    · rw [heq]
      exact UInt32.le_refl _
  exact SourceText.start_le_start (SourceText.anchor_le hline hm hn) hm' hn'

variable {source : SourceText} {before word after : List Char}

/-- In a text of fewer than `UInt32.size` lines, the number of a line counted from 1 is one more. -/
theorem StandsAt.lineNumber_eq (h : StandsAt source m before word after)
    (hlines : source.document.lineCount < UInt32.size) :
    (lineNumber m.finding).toNat = m.finding.line.toNat + 1 :=
  toNat_lineNumber (Nat.lt_of_le_of_lt (Nat.succ_le_of_lt h.line_lt) hlines)

/-- The record of a marker shows the line counted from 1 and the word it stands at. -/
theorem StandsAt.record_eq (h : StandsAt source m before word after)
    (hlines : source.document.lineCount < UInt32.size) (file : String) :
    record file source m
      = [("file", .text file), ("line", .number (m.finding.line.toNat + 1)),
        ("anchor", .text (String.ofList word)), ("start", .number (byteLength before)),
        ("end", .number (byteLength before + byteLength word)), ("icon", .text m.icon.name),
        ("refresh", .text m.refresh.name), ("text", .text (sanitize m.finding.text))] := by
  rw [record, h.anchor, h.range, h.lineNumber_eq hlines]
  rfl

end Place

/-- After a run of the analyzer over a text, and after any dismissals since, a document answers with
markers.  They ascend by line and message, and the places where they start do not descend.  Each
stands at a word of the text, on its line or after the start of it.  In a text of fewer than
`UInt32.size` lines, the number printed for it is one more than its line and at most the number of
lines, and its record has the word between its offsets as the text of the anchor. -/
theorem markers_stand_in_text (text : String) (stamp : UInt64) (gutter : Gutter Nat UInt64)
    (findings dismissed : List Finding) (file : String)
    (hlines : (index text stamp).document.lineCount < UInt32.size) :
    let source := index text stamp
    let o := (OpenDocument.annotate ⟨source, gutter⟩ findings).2.dismissAll dismissed
    ∃ ms, o.markers.1 = .markers ms ∧
      (ms.Pairwise fun m n => m.finding < n.finding) ∧
      (ms.Pairwise fun m n => m.range.start ≤ n.range.start) ∧
      ∀ m ∈ ms, (lineNumber m.finding).toNat = m.finding.line.toNat + 1 ∧
        (lineNumber m.finding).toNat ≤ source.document.lineCount ∧
        ∃ before word after, StandsAt source m before word after ∧
          record file source m
            = [("file", .text file), ("line", .number (m.finding.line.toNat + 1)),
              ("anchor", .text (String.ofList word)), ("start", .number (byteLength before)),
              ("end", .number (byteLength before + byteLength word)),
              ("icon", .text m.icon.name), ("refresh", .text m.refresh.name),
              ("text", .text (sanitize m.finding.text))] := by
  intro source o
  obtain ⟨hsource, left, hheld, hstamp, hanchors⟩ :=
    OpenDocument.held_dismissAll (o := (OpenDocument.annotate ⟨source, gutter⟩ findings).2) rfl rfl
      (fun f element hf => (Gutter.get?_anchorAll_eq_some_iff.mp hf).2) dismissed
  have hsource : o.source = source := hsource
  have hanswer := OpenDocument.markers_of_fresh hheld (hstamp.trans (congrArg _ hsource.symm))
  have hplace : ∀ m ∈ Marker.fresh [] (Gutter.markersOf o.gutter.style o.source.document
      left.anchors), source.document.anchor m.finding.line = .ok m.anchor ∧
        source.document.range m.anchor = some m.range := by
    intro m hm
    obtain ⟨f, element, range, hf, hrange, rfl⟩ :=
      Gutter.mem_markersOf.mp ((Marker.fresh_sublist ..).subset hm)
    exact ⟨hanchors f element hf, hsource ▸ hrange⟩
  have hascending := Gutter.pairwise_fresh_markersOf o.gutter.style o.source.document left.anchors []
  refine ⟨_, congrArg Prod.fst hanswer, hascending, ?_, ?_⟩
  · refine hascending.imp_of_mem fun hm hn hlt => ?_
    exact start_le_of_lt hlt (hplace _ hm).1 (hplace _ hn).1 (hplace _ hm).2 (hplace _ hn).2
  · intro m hm
    obtain ⟨before, word, after, hstands⟩ := standsAt_of_anchor (hplace m hm).1 (hplace m hm).2
    have hnumber := hstands.lineNumber_eq hlines
    refine ⟨hnumber, ?_, before, word, after, hstands, hstands.record_eq hlines file⟩
    rw [hnumber]
    exact hstands.line_lt

/-- Findings on a blank line and on the indented line after it stand at one word.  One on the last
line that there can be, far beyond the text, has no marker. -/
theorem markers_stand_in_indented_text :
    let source := index "é\n\n  b c" 0
    let findings : List Finding := [⟨2, " y"⟩, ⟨4294967295, " z"⟩, ⟨1, " x"⟩, ⟨0, " w"⟩]
    let gutter : Gutter Nat UInt64 := Gutter.ofStyle {}
    let o := (OpenDocument.annotate ⟨source, gutter⟩ findings).2.dismissAll [⟨0, " w"⟩]
    let marker (f : Finding) : Marker Nat := ⟨2, ⟨6, 7⟩, Style.icon {}, Style.refresh {}, f⟩
    source.document.lineCount < UInt32.size ∧
      o.markers.1 = .markers [marker ⟨1, " x"⟩, marker ⟨2, " y"⟩] ∧
      (lineNumber ⟨1, " x"⟩).toNat = 2 ∧
      ∃ before word after, StandsAt source (marker ⟨1, " x"⟩) before word after := by
  intro source findings gutter o marker
  have hlines : source.document.lineCount < UInt32.size := by decide +kernel
  have hanswer : o.markers.1 = .markers [marker ⟨1, " x"⟩, marker ⟨2, " y"⟩] := by decide +kernel
  obtain ⟨ms, hms, -, -, hplaces⟩ :=
    markers_stand_in_text "é\n\n  b c" 0 gutter findings [⟨0, " w"⟩] "f" hlines
  obtain rfl := Outcome.markers.inj (hanswer.symm.trans hms)
  obtain ⟨hnumber, -, before, word, after, hstands, -⟩ :=
    hplaces (marker ⟨1, " x"⟩) List.mem_cons_self
  exact ⟨hlines, hanswer, hnumber, before, word, after, hstands⟩

end Listing

end Marginalia
