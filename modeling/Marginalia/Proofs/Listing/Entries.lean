import Mathlib.Data.List.SplitBy
import Marginalia.Proofs.Listing.Body

/-!
The entries of a listing in text form.

A marker is printed as an entry: a head line with the file, the line number and one line of the
message, and then the rest of the message, indented.  Messages come from another program and may
hold anything, but what is printed of them is plain (`isPlain_of_mem_textLines`): a message makes no
lines but those of its own entry, and no line of it but the first is without the indent.  So a reader
who knows nothing but the text of the listing finds each marker's entry in it, by its line feeds and
the lines that are not indented (`splitBy_textLines`).
-/

namespace Marginalia.Listing

open Text (lines joined decimalText)
open Terminal

/-! ### Indented lines -/

/-- Whether a line is indented by four spaces. -/
def isIndented (line : String) : Bool := "    ".toList.isPrefixOf line.toList

theorem isIndented_append (line : String) : isIndented ("    " ++ line) = true := by
  rw [isIndented, String.toList_append, List.isPrefixOf_iff_prefix]
  exact List.prefix_append _ _

/-- What starts a text, and does not hold a character that is in it, starts what is before it. -/
theorem isPrefix_of_isPrefix_append {p chars rest : List Char} {c : Char} (hc : c ∉ p)
    (h : p <+: chars ++ c :: rest) : p <+: chars := by
  obtain ⟨tail, htail⟩ := h
  rcases List.append_eq_append_iff.mp htail with ⟨between, rfl, -⟩ | ⟨between, rfl, hbetween⟩
  · exact List.prefix_append _ _
  · cases between with
    | nil => simp
    | cons d between =>
        obtain ⟨rfl, -⟩ := List.cons.inj hbetween
        exact absurd (List.mem_append_right _ List.mem_cons_self) hc

/-- A line that starts with a file and a colon is not indented if the file is not. -/
theorem isIndented_of_file {file : String} (h : isIndented file = false) (rest : String) :
    isIndented (file ++ ":" ++ rest) = false := by
  rw [isIndented, ← Bool.not_eq_true, List.isPrefixOf_iff_prefix] at h ⊢
  intro hprefix
  rw [String.toList_append, String.toList_append, List.append_assoc] at hprefix
  exact h (isPrefix_of_isPrefix_append (by decide) hprefix)

theorem isIndented_headLine {file : String} (h : isIndented file = false) (m : Marker Nat) :
    isIndented (headLine file m) = false := by
  rw [headLine, String.append_assoc, String.append_assoc]
  exact isIndented_of_file h _

/-! ### What is printed of a message -/

theorem lineFeed_not_mem_summary (f : Finding) : '\n' ∉ f.summary.toList := by
  intro hmem
  rw [Finding.summary, String.toList_ofList, Text.firstLine] at hmem
  have hfirst := Text.mem_of_mem_trim hmem
  rcases hlines : lines f.text.toList with - | ⟨first, rest⟩
  · rw [hlines] at hfirst
    exact absurd hfirst List.not_mem_nil
  · rw [hlines] at hfirst
    have hline : first ∈ lines f.text.toList := hlines ▸ List.mem_cons_self
    exact (Text.mem_of_mem_lines hline hfirst).2 rfl

/-- The lines of a sanitized message are its pieces between line feeds, but for an empty piece at the
end. -/
theorem splitOn_sanitize (message : String) :
    ∃ last, (last = [] ∨ last = [[]]) ∧
      (sanitize message).toList.splitOn '\n' = lines (sanitize message).toList ++ last := by
  apply Text.splitOn_lineFeed
  rw [toList_sanitize]
  exact fun hmem => absurd (mem_strip hmem).2 (by decide)

/-- The lines printed after the first are the pieces after the first line feed. -/
theorem tail_splitOn_sanitize (m : Marker Nat) :
    ∃ last, (last = [] ∨ last = [[]]) ∧
      ((sanitize m.tooltip).toList.splitOn '\n').tail
        = (bodyLines m).map String.toList ++ last := by
  obtain ⟨last, hlast, hsplit⟩ := splitOn_sanitize m.tooltip
  rw [hsplit, toList_bodyLines, ← Marker.tooltip]
  rcases lines (sanitize m.tooltip).toList with - | ⟨first, rest⟩
  · rcases hlast with rfl | rfl
    · exact ⟨[], Or.inl rfl, rfl⟩
    · exact ⟨[], Or.inl rfl, rfl⟩
  · exact ⟨last, hlast, rfl⟩

/-- Whatever a message holds, what is printed of it is plain. -/
theorem isPlain_of_mem_textLines {file : String} (hfile : IsPlain file.toList) {m : Marker Nat}
    {line : String} (h : line ∈ textLines file m) : IsPlain line.toList := by
  rcases List.mem_cons.mp h with rfl | h
  · refine Text.forall_mem_toList_append (Text.forall_mem_toList_append
      (Text.forall_mem_toList_append (Text.forall_mem_toList_append hfile ?_)
        (isPlain_decimalText _)) ?_) (isPlain_sanitize (lineFeed_not_mem_summary m.finding))
    · exact Text.forall_mem_of_all (by decide)
    · exact Text.forall_mem_of_all (by decide)
  · obtain ⟨body, hbody, rfl⟩ := List.mem_map.mp h
    refine Text.forall_mem_toList_append ?_ (isPlain_of_mem_bodyLines hbody)
    exact Text.forall_mem_of_all (by decide)

/-! ### Entries -/

section Entries

variable {file : String} (hfile : isIndented file = false) (markers : List (Marker Nat))

include hfile

/-- The lines that are not indented are the head lines. -/
theorem filter_textLines :
    (markers.flatMap (textLines file)).filter (fun line => !isIndented line)
      = markers.map (headLine file) := by
  have hone : ∀ m, (textLines file m).filter (fun line => !isIndented line)
      = [headLine file m] := by
    intro m
    rw [textLines, List.filter_cons_of_pos (by rw [isIndented_headLine hfile]; rfl),
      List.filter_eq_nil_iff.mpr]
    intro line hline
    obtain ⟨body, -, rfl⟩ := List.mem_map.mp hline
    rw [isIndented_append]
    exact Bool.false_ne_true
  rw [List.filter_flatMap, funext hone]
  exact List.map_eq_flatMap.symm

/-- The lines up to the next one that is not indented are the lines of one marker. -/
theorem splitBy_textLines :
    (markers.flatMap (textLines file)).splitBy (fun _ line => isIndented line)
      = markers.map (textLines file) := by
  apply List.splitBy_flatten
  · intro hmem
    obtain ⟨m, -, hnil⟩ := List.mem_map.mp hmem
    exact List.cons_ne_nil _ _ hnil
  · intro entry hentry
    obtain ⟨m, -, rfl⟩ := List.mem_map.mp hentry
    have hbody : ∀ line ∈ (bodyLines m).map ("    " ++ ·), isIndented line = true := by
      intro line hline
      obtain ⟨body, -, rfl⟩ := List.mem_map.mp hline
      exact isIndented_append body
    apply List.Pairwise.isChain
    exact List.pairwise_cons.mpr
      ⟨hbody, List.pairwise_of_forall_mem_list fun _ _ line hline => hbody line hline⟩
  · apply List.Pairwise.isChain
    apply List.pairwise_of_forall_mem_list
    intro entry hentry next hnext
    obtain ⟨m, -, rfl⟩ := List.mem_map.mp hentry
    obtain ⟨n, -, rfl⟩ := List.mem_map.mp hnext
    exact ⟨List.cons_ne_nil _ _, List.cons_ne_nil _ _, isIndented_headLine hfile n⟩

end Entries

/-- A listing in text form cannot be forged by what its messages hold.

* It has no control characters but line feeds and tabs.
* Each of its lines ends in a line feed.
* The lines that are not indented are one for each marker, in their order: the file, the number of
  the line counted from 1, and a message on that line alone.
* The lines from such a line up to the next one are those of one marker: after the first, they are
  the lines of its sanitized message after the first, indented. -/
theorem entries_of_listing (file : String) (source : SourceText) (markers : List (Marker Nat))
    (hfile : ∀ c ∈ file.toList, isUnsafe c = false ∧ c ≠ '\n')
    (hindent : isIndented file = false)
    (hlines : ∀ m ∈ markers, m.finding.line.toNat < UInt32.size - 1) :
    let out := write .text file source markers
    let head (m : Marker Nat) := file ++ ":" ++ decimalText (m.finding.line.toNat + 1) ++ ": "
      ++ sanitize m.finding.summary
    (∀ c ∈ out.toList, isControl c = true → c = '\n' ∨ c = '\t') ∧
      (∀ m ∈ markers, '\n' ∉ (sanitize m.finding.summary).toList) ∧
      (∀ m ∈ markers, ∃ last, (last = [] ∨ last = [[]]) ∧
        ((sanitize m.tooltip).toList.splitOn '\n').tail
          = (bodyLines m).map String.toList ++ last) ∧
      ∃ shown : List String, out.toList.splitOn '\n' = shown.map String.toList ++ [[]] ∧
        shown.filter (fun line => !isIndented line) = markers.map head ∧
        shown.splitBy (fun _ line => isIndented line)
          = markers.map fun m => head m :: (bodyLines m).map ("    " ++ ·) := by
  intro out head
  have hout : out.toList = joined (markers.flatMap (textLines file)) := Text.toList_join_lines _
  have hplain : ∀ line ∈ markers.flatMap (textLines file), IsPlain line.toList := by
    intro line hline
    obtain ⟨m, -, hline⟩ := List.mem_flatMap.mp hline
    exact isPlain_of_mem_textLines hfile hline
  have hhead : ∀ m ∈ markers, headLine file m = head m := by
    intro m hm
    rw [headLine, toNat_lineNumber (Nat.add_lt_of_lt_sub (hlines m hm))]
  refine ⟨?_, ?_, fun m _ => tail_splitOn_sanitize m, markers.flatMap (textLines file), ?_, ?_, ?_⟩
  · intro c hc hcontrol
    rw [hout] at hc
    obtain ⟨line, hline, hc⟩ := List.mem_flatMap.mp hc
    rcases List.mem_append.mp hc with hc | hc
    · have hsafe := (hplain line hline c hc).1
      rw [isUnsafe, hcontrol] at hsafe
      by_contra hne
      obtain ⟨hfeed, htab⟩ := not_or.mp hne
      simp [hfeed, htab] at hsafe
    · exact Or.inl (List.mem_singleton.mp hc)
  · intro m _ hmem
    exact (isPlain_sanitize (lineFeed_not_mem_summary m.finding) _ hmem).2 rfl
  · rw [hout]
    exact Text.splitOn_joined fun line hline hmem => (hplain line hline _ hmem).2 rfl
  · rw [filter_textLines hindent, List.map_congr_left hhead]
  · rw [splitBy_textLines hindent]
    exact List.map_congr_left fun m hm => by rw [textLines, hhead m hm]

/-- Messages that hold lines like those of other markers, line ends of other kinds, and escape
sequences, one of them unfinished. -/
theorem entries_of_hostile_messages :
    let marker (line : UInt32) (message : String) : Marker Nat :=
      ⟨0, ⟨0, 1⟩, Style.icon {}, Style.refresh {}, ⟨line, message⟩⟩
    let markers := [marker 0 " a\r\nf:9: b\r\n\nf:8: c\u2028f:7: d",
      marker 4294967293 "\x1b[1m\x0b\nf:6: e\x1b]0;\nf:5: g"]
    let out := write .text "f" (SourceText.index "x" 0) markers
    (∀ c ∈ "f".toList, isUnsafe c = false ∧ c ≠ '\n') ∧ isIndented "f" = false ∧
      (∀ m ∈ markers, m.finding.line.toNat < UInt32.size - 1) ∧
      out = "f:1: a\n    f:9: b\n    \n    f:8: c\u2028f:7: d\nf:4294967294: \n    f:6: e\n" ∧
      ∃ shown : List String, out.toList.splitOn '\n' = shown.map String.toList ++ [[]] ∧
        shown.filter (fun line => !isIndented line)
          = markers.map fun m => "f" ++ ":" ++ decimalText (m.finding.line.toNat + 1) ++ ": "
            ++ sanitize m.finding.summary := by
  intro marker markers out
  have hfile : ∀ c ∈ "f".toList, isUnsafe c = false ∧ c ≠ '\n' :=
    Text.forall_mem_of_all (by decide)
  have hindent : isIndented "f" = false := by decide
  have hlines : ∀ m ∈ markers, m.finding.line.toNat < UInt32.size - 1 := by decide
  obtain ⟨-, -, -, shown, hsplit, hheads, -⟩ :=
    entries_of_listing "f" (SourceText.index "x" 0) markers hfile hindent hlines
  exact ⟨hfile, hindent, hlines, by decide +kernel, shown, hsplit, hheads⟩

end Marginalia.Listing
