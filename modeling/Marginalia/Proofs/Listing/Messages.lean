import Marginalia.Proofs.Listing.Entries

/-!
The message of a marker in the two forms of a listing.

In text form a message is cut to its first line and trimmed before it is sanitized.  In JSON form it
is sanitized as a whole.  That comes to the same where the first line ends the escape sequences that
begin in it (`trim_summary_of_closed`), or there is one line only (`trim_summary_of_not_mem`): white
space begins no escape sequence, and an unfinished one takes it away as trimming does
(`trim_strip_trim`).  The messages of an analyzer are of these two kinds, so their two forms agree
(`formats_agree`).
-/

namespace Marginalia.Listing

open Text (lines firstLine trim AllBlank IsUnbroken decimalText)
open Terminal
open Wire (rangeFinding)

/-! ### Trimming and stripping -/

theorem allBlank_strip (mode : Mode) {chars : List Char} (h : AllBlank chars) :
    AllBlank (strip mode chars) :=
  fun c hc => h c (mem_strip hc).1

/-- White space begins no escape sequence. -/
theorem run_plain_of_allBlank {chars : List Char} (h : AllBlank chars) :
    Mode.plain.run chars = .plain := by
  induction chars with
  | nil => rfl
  | cons c chars ih =>
      obtain ⟨hc, hchars⟩ := List.forall_mem_cons.mp h
      have hescape : c ≠ escape := by
        rintro rfl
        exact absurd hc (by decide)
      rw [Mode.run, List.foldl_cons, Mode.after, if_neg hescape]
      exact ih hchars

/-- A text can be trimmed before it is stripped, if what is left is trimmed. -/
theorem trim_strip_trim (chars : List Char) :
    trim (strip .plain (trim chars)) = trim (strip .plain chars) := by
  obtain ⟨before, after, hbefore, hafter, hchars⟩ := Text.exists_append_trim chars
  calc trim (strip .plain (trim chars))
    _ = trim (strip .plain before
          ++ (strip .plain (trim chars) ++ strip (Mode.plain.run (trim chars)) after)) :=
        (Text.trim_append (allBlank_strip _ hbefore) (allBlank_strip _ hafter) _).symm
    _ = trim (strip .plain (before ++ (trim chars ++ after))) := by
        rw [strip_append, run_plain_of_allBlank hbefore, strip_append]
    _ = trim (strip .plain chars) := by rw [← hchars]

/-! ### The first line of a message -/

theorem toList_sanitize_summary (f : Finding) :
    (sanitize f.summary).toList = strip .plain (firstLine f.text.toList) := by
  rw [toList_sanitize, Finding.summary, String.toList_ofList]

/-- A message of one line is the same, trimmed, in both forms. -/
theorem trim_summary_of_not_mem {f : Finding} (h : '\n' ∉ f.text.toList) :
    trim (sanitize f.summary).toList = firstLine (sanitize f.text).toList := by
  have hshown : '\n' ∉ strip .plain f.text.toList := fun hmem => h (mem_strip hmem).1
  rw [toList_sanitize_summary, toList_sanitize, Text.firstLine_of_not_mem h,
    Text.firstLine_of_not_mem hshown, trim_strip_trim]

/-- So is the first line of a message, if the escape sequences that begin in it end in it. -/
theorem trim_summary_of_closed {f : Finding} {first rest : List Char} (hfirst : IsUnbroken first)
    (hclosed : Mode.plain.run first = .plain) (htext : f.text.toList = first ++ '\n' :: rest) :
    trim (sanitize f.summary).toList = firstLine (sanitize f.text).toList := by
  have hshown : strip .plain f.text.toList = strip .plain first ++ '\n' :: strip .plain rest := by
    rw [htext, strip_append, hclosed]
    rfl
  rw [toList_sanitize_summary, toList_sanitize, hshown, htext, Text.firstLine_append hfirst,
    Text.firstLine_append (isUnbroken_strip .plain hfirst.not_mem), trim_strip_trim]

/-- The first lines of the two forms of a finding of the analyzer are the same, trimmed. -/
theorem trim_summary_of_mem {output : List UInt8} {f : Finding}
    (h : f ∈ Wire.findingsOfBytes output) :
    trim (sanitize f.summary).toList = firstLine (sanitize f.text).toList := by
  rcases single_or_range_of_mem h with ⟨number, message, rfl, hmessage⟩ | ⟨first, last, body, rfl, -⟩
  · apply trim_summary_of_not_mem
    rw [String.toList_append, List.mem_append, not_or]
    exact ⟨by decide, hmessage⟩
  · have hplain := isPlain_rangeTitle_blank first last
    exact trim_summary_of_closed (isUnbroken_of_isPlain hplain)
      (run_plain_of_safe fun c hc => (hplain c hc).1) (toList_text_rangeFinding first last body)

/-- The two forms of a listing show the message of a finding of the analyzer alike.

* The text in the JSON object is the sanitized message.
* The marker is printed as the file, the number of the line and the sanitized first line of the
  message, and then the lines of the sanitized message after the first, indented, whatever is printed
  before it and after it.
* Trimmed, what is printed on the first line is the first line of the sanitized message.
* The lines of the sanitized message are its pieces between line feeds, but for an empty piece at the
  end.
* For a range finding the first line is its title. -/
theorem formats_agree (output : List UInt8) (f : Finding) (h : f ∈ Wire.findingsOfBytes output)
    (m : Marker Nat) (hm : m.finding = f) (file : String) (source : SourceText)
    (before after : List (Marker Nat)) :
    let shown := sanitize f.text
    let message := sanitize f.summary
    (record file source m).lookup "text" = some (.text shown) ∧
      (∃ body : List String, body.map String.toList = (lines shown.toList).tail ∧
        write .text file source (before ++ m :: after)
          = write .text file source before
            ++ String.join (((file ++ ":" ++ decimalText (lineNumber f).toNat ++ ": " ++ message)
              :: body.map ("    " ++ ·)).map (· ++ "\n"))
            ++ write .text file source after) ∧
      trim message.toList = firstLine shown.toList ∧
      (∃ last, (last = [] ∨ last = [[]]) ∧
        shown.toList.splitOn '\n' = lines shown.toList ++ last) ∧
      ∀ first last body, f = rangeFinding first last body →
        message = "Refactor lines " ++ decimalText first.toNat ++ "-" ++ decimalText last.toNat
          ++ " into new function:" := by
  intro shown message
  subst hm
  refine ⟨rfl, ⟨bodyLines m, toList_bodyLines m, text_append_cons file before m after⟩,
    trim_summary_of_mem h, splitOn_sanitize _, ?_⟩
  intro first last body hrange
  have hmessage : message = rangeTitle first last := by
    rw [← sanitize_rangeTitle, ← summary_rangeFinding first last body, ← hrange]
  exact hmessage

/-- A message with an unfinished escape sequence at its end, and a body with escape sequences that
take line feeds. -/
theorem formats_agree_on_unfinished_escapes :
    let output := Text.Utf8.encode
      "\tline 2: \x1b[1mfoo \x1b[ \t\nline 1-1 (d):\na\x1b\nb\x1b]\n".toList
    let f : Finding := ⟨1, " \x1b[1mfoo \x1b[ \t"⟩
    let g := rangeFinding 1 1 ["a\x1b", "b\x1b]"]
    let marker (f : Finding) : Marker Nat := ⟨0, ⟨0, 1⟩, Style.icon {}, Style.refresh {}, f⟩
    let source := SourceText.index "x" 0
    f ∈ Wire.findingsOfBytes output ∧ g ∈ Wire.findingsOfBytes output ∧
      write .text "f" source [marker g, marker f]
        = "f:1: Refactor lines 1-1 into new function:\n    ab\nf:2: foo \n" ∧
      (record "f" source (marker f)).lookup "text" = some (.text " foo ") ∧
      trim (sanitize f.summary).toList = "foo".toList ∧
      trim (sanitize g.summary).toList = firstLine (sanitize g.text).toList := by
  intro output f g marker source
  have hf : f ∈ Wire.findingsOfBytes output := by
    rw [Wire.findingsOfBytes_eq_scan]
    decide +kernel
  have hg : g ∈ Wire.findingsOfBytes output := by
    rw [Wire.findingsOfBytes_eq_scan]
    decide +kernel
  obtain ⟨htext, -, hmessage, -⟩ :=
    formats_agree output f hf (marker f) rfl "f" source [marker g] []
  obtain ⟨-, -, htitle, -⟩ := formats_agree output g hg (marker g) rfl "f" source [] [marker f]
  have hshown : sanitize f.text = " foo " := by decide +kernel
  have hfirst : firstLine (sanitize f.text).toList = "foo".toList := by decide +kernel
  exact ⟨hf, hg, by decide +kernel, hshown ▸ htext, hmessage.trans hfirst, htitle⟩

/-- The first lines differ where a first line leaves an escape sequence unfinished, as no finding of
the analyzer does. -/
example :
    let f : Finding := ⟨0, "a\x1b\nb"⟩
    trim (sanitize f.summary).toList = ['a'] ∧ firstLine (sanitize f.text).toList = ['a', 'b'] := by
  decide +kernel

end Marginalia.Listing
