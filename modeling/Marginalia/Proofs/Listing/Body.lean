import Marginalia.Listing
import Marginalia.Proofs.Terminal.Stripping
import Marginalia.Proofs.Text.Blank
import Marginalia.Proofs.Text.Decimal
import Marginalia.Proofs.Text.Lines
import Marginalia.Proofs.Wire.RoundTrip

/-!
How the body of a range finding is shown.

A message is sanitized as a whole and shown line by line.  The scan does not stop at a line feed, so
an escape sequence that a line leaves unfinished takes the line feed with it, and what it reaches to
in the lines after (`strip_joined_cons_of_ne`).  The body keeps its lines where none does so
(`KeepsLines`), and only there: a line feed that is lost is a line less, and stripping makes no
lines (`length_lines_strip_le`).  This is read off what is printed (`text_of_range_iff`), and holds
of every output of the analyzer (`body_lines_shown_iff`).
-/

namespace Marginalia.Listing

/-! ### A body, stripped -/

open Text (lines joined IsUnbroken decimalText)
open Terminal
open Wire (rangeFinding)

/-- Every escape sequence that begins in a line of a body ends in it.  In the last line one may be
left unfinished, if the line shows something. -/
def KeepsLines (body : List String) : Prop :=
  (∀ line ∈ body.dropLast, IsClosed line) ∧
    ∀ line ∈ body.getLast?, IsClosed line ∨ sanitize line ≠ ""

theorem keepsLines_nil : KeepsLines [] := by
  simp [KeepsLines]

theorem keepsLines_singleton {line : String} :
    KeepsLines [line] ↔ IsClosed line ∨ sanitize line ≠ "" := by
  simp [KeepsLines]

theorem keepsLines_cons {line : String} {rest : List String} (h : rest ≠ []) :
    KeepsLines (line :: rest) ↔ IsClosed line ∧ KeepsLines rest := by
  obtain ⟨next, rest, rfl⟩ := List.exists_cons_of_ne_nil h
  simp [KeepsLines, and_assoc]

/-- What is safe has no line ends but line feeds. -/
theorem isUnbroken_of_isPlain {chars : List Char} (h : IsPlain chars) : IsUnbroken chars := by
  intro c hc
  refine ⟨(h c hc).2, ?_⟩
  rintro rfl
  exact absurd (h _ hc).1 (by decide)

/-- Stripping makes no line ends. -/
theorem isUnbroken_strip (mode : Mode) {chars : List Char} (h : '\n' ∉ chars) :
    IsUnbroken (strip mode chars) :=
  isUnbroken_of_isPlain (isPlain_strip mode h)

/-- The line feed after a line is kept where the scan is in plain text. -/
theorem strip_joined_cons_of_plain {mode : Mode} {line : String}
    (h : mode.run line.toList = .plain) (rest : List String) :
    strip mode (joined (line :: rest))
      = strip mode line.toList ++ '\n' :: strip .plain (joined rest) := by
  rw [Text.joined_cons, strip_append, h]
  rfl

/-- Elsewhere the line feed is lost, and the scan goes on in the next line. -/
theorem strip_joined_cons_of_ne {mode : Mode} {line : String}
    (h : mode.run line.toList ≠ .plain) (rest : List String) :
    strip mode (joined (line :: rest)) = strip mode line.toList
      ++ strip ((mode.run line.toList).after '\n') (joined rest) := by
  rw [Text.joined_cons, strip_append, strip, if_neg fun hkept => h hkept.1]

/-- Stripping makes no lines, whatever mode it begins in. -/
theorem length_lines_strip_le (mode : Mode) {start : List Char} (hstart : IsUnbroken start)
    {body : List String} (hbody : ∀ line ∈ body, '\n' ∉ line.toList) :
    (lines (start ++ strip mode (joined body))).length ≤ max 1 body.length := by
  -- what is before the body gains the lines whose line feeds are lost, so it is generalised
  induction body generalizing mode start with
  | nil =>
      have hnil : strip mode (joined []) = [] := rfl
      rw [hnil, List.append_nil, Text.lines_of_not_mem hstart.not_mem]
      split
      · exact Nat.zero_le _
      · exact Nat.le_max_left 1 _
  | cons line rest ih =>
      obtain ⟨hline, hrest⟩ := List.forall_mem_cons.mp hbody
      have hnext : IsUnbroken (start ++ strip mode line.toList) :=
        Text.isUnbroken_append.mpr ⟨hstart, isUnbroken_strip mode hline⟩
      rw [List.length_cons]
      by_cases hplain : mode.run line.toList = .plain
      · rw [strip_joined_cons_of_plain hplain, ← List.append_assoc,
          Text.lines_append_lineFeed hnext, List.length_cons]
        cases rest with
        | nil => exact Nat.le_max_left 1 _
        | cons next rest =>
            have hlength := ih .plain Text.isUnbroken_nil hrest
            rw [List.nil_append, List.length_cons] at hlength
            rw [List.length_cons]
            omega
      · rw [strip_joined_cons_of_ne hplain, ← List.append_assoc]
        have hlength := ih ((mode.run line.toList).after '\n') hnext hrest
        omega

/-- A body keeps its lines when it is stripped just when no escape sequence reaches beyond its line,
or only the last one does and its line shows something. -/
theorem lines_strip_joined_iff {body : List String} (hbody : ∀ line ∈ body, '\n' ∉ line.toList) :
    lines (strip .plain (joined body)) = body.map (fun line => strip .plain line.toList) ↔
      KeepsLines body := by
  induction body with
  | nil => exact iff_of_true rfl keepsLines_nil
  | cons line rest ih =>
      obtain ⟨hline, hrest⟩ := List.forall_mem_cons.mp hbody
      have hfirst := isUnbroken_strip .plain hline
      by_cases hclosed : IsClosed line
      · rw [strip_joined_cons_of_plain hclosed, Text.lines_append_lineFeed hfirst,
          List.map_cons, List.cons.injEq, and_iff_right rfl, ih hrest]
        cases rest with
        | nil => exact iff_of_true keepsLines_nil (keepsLines_singleton.mpr (Or.inl hclosed))
        | cons next rest => rw [keepsLines_cons (List.cons_ne_nil next rest), and_iff_right hclosed]
      · rw [strip_joined_cons_of_ne hclosed]
        cases rest with
        | nil =>
            have hnil : strip ((Mode.plain.run line.toList).after '\n') (joined []) = [] := rfl
            rw [hnil, List.append_nil, Text.lines_of_not_mem hfirst.not_mem, keepsLines_singleton,
              or_iff_right hclosed, List.map_cons, List.map_nil, ← toList_sanitize, ne_eq,
              ← String.toList_eq_nil_iff]
            by_cases hempty : (sanitize line).toList = []
            · simp [hempty]
            · simp [hempty]
        | cons next rest =>
            rw [keepsLines_cons (List.cons_ne_nil next rest)]
            refine iff_of_false (fun h => ?_) (fun h => hclosed h.1)
            -- one line feed is lost, so there are fewer lines than there were
            have hlength := length_lines_strip_le ((Mode.plain.run line.toList).after '\n')
              hfirst hrest
            rw [h, List.length_map, List.length_cons, List.length_cons] at hlength
            omega

/-! ### What is printed -/

theorem isUnbroken_indent {line : String} (h : IsUnbroken line.toList) :
    IsUnbroken ("    " ++ line).toList :=
  Text.forall_mem_toList_append (Text.forall_mem_of_all (by decide)) h

theorem isUnbroken_sanitize {line : String} (h : '\n' ∉ line.toList) :
    IsUnbroken (sanitize line).toList :=
  isUnbroken_of_isPlain (isPlain_sanitize h)

theorem isPlain_of_mem_bodyLines {m : Marker Nat} {line : String} (h : line ∈ bodyLines m) :
    IsPlain line.toList := by
  obtain ⟨chars, hchars, rfl⟩ := List.mem_map.mp h
  have hmem := List.mem_of_mem_drop hchars
  rw [toList_sanitize] at hmem
  rw [String.toList_ofList]
  exact fun c hc => ⟨(mem_strip (Text.mem_of_mem_lines hmem hc).1).2,
    (Text.mem_of_mem_lines hmem hc).2⟩

theorem toList_bodyLines (m : Marker Nat) :
    (bodyLines m).map String.toList = (lines (sanitize m.finding.text).toList).tail := by
  rw [bodyLines, List.map_map, List.drop_one]
  exact (List.map_congr_left fun _ _ => String.toList_ofList).trans (List.map_id _)

/-- A marker is printed as its lines, whatever is printed before it and after it. -/
theorem text_append_cons (file : String) (before : List (Marker Nat)) (m : Marker Nat)
    (after : List (Marker Nat)) :
    text file (before ++ m :: after)
      = text file before ++ String.join ((textLines file m).map (· ++ "\n"))
        ++ text file after := by
  simp [text, String.join_append, String.append_assoc]

/-! ### Range findings -/

/-- The message of a range finding, without its body. -/
def rangeTitle (first last : UInt32) : String :=
  "Refactor lines " ++ decimalText first.toNat ++ "-" ++ decimalText last.toNat
    ++ " into new function:"

/-- The message of a range finding is its title, a blank, and the body. -/
theorem text_rangeFinding (first last : UInt32) (body : List String) :
    (rangeFinding first last body).text
      = rangeTitle first last ++ " " ++ "\n" ++ String.join (body.map (· ++ "\n")) := by
  have hassoc : ∀ a b c d e f : String, b = c ++ d ++ e →
      a ++ b ++ f = a ++ c ++ d ++ e ++ f := by
    rintro a b c d e f rfl
    simp only [String.append_assoc]
  exact hassoc _ _ _ _ _ _ (by decide)

theorem toList_text_rangeFinding (first last : UInt32) (body : List String) :
    (rangeFinding first last body).text.toList
      = ((rangeTitle first last).toList ++ [' ']) ++ '\n' :: joined body := by
  rw [text_rangeFinding, String.toList_append, Text.toList_join_lines,
    String.toList_append, String.toList_append, List.append_assoc]
  rfl

theorem isPlain_decimalText (n : Nat) : IsPlain (decimalText n).toList := by
  intro c hc
  rw [Text.toList_decimalText] at hc
  obtain ⟨hlow, hhigh⟩ :=
    Text.digit_iff.mp (Nat.isDigit_of_mem_toDigits (by decide) (by decide) hc)
  have hlow : 0x30 ≤ c.toNat := hlow
  have hhigh : c.toNat ≤ 0x39 := hhigh
  have hcontrol : isControl c = false := by
    rw [isControl]
    simp
    omega
  refine ⟨by rw [isUnsafe, hcontrol]; rfl, ?_⟩
  rintro rfl
  exact absurd hlow (by decide)

/-- A title is safe to print, on one line. -/
theorem isPlain_rangeTitle (first last : UInt32) : IsPlain (rangeTitle first last).toList := by
  refine Text.forall_mem_toList_append (Text.forall_mem_toList_append (Text.forall_mem_toList_append
    (Text.forall_mem_toList_append ?_ (isPlain_decimalText _)) ?_) (isPlain_decimalText _)) ?_
  · exact Text.forall_mem_of_all (by decide)
  · exact Text.forall_mem_of_all (by decide)
  · exact Text.forall_mem_of_all (by decide)

/-- So it is with a blank after it. -/
theorem isPlain_rangeTitle_blank (first last : UInt32) :
    IsPlain ((rangeTitle first last).toList ++ [' ']) :=
  isPlain_append.mpr ⟨isPlain_rangeTitle first last, List.forall_mem_singleton.mpr (by decide)⟩

theorem trim_rangeTitle (first last : UInt32) :
    Text.trim ((rangeTitle first last).toList ++ [' ']) = (rangeTitle first last).toList := by
  have hends : ∀ a b c d e a' e' : String, a = "R" ++ a' → e = e' ++ ":" →
      a ++ b ++ c ++ d ++ e = "R" ++ (a' ++ b ++ c ++ d ++ e') ++ ":" := by
    rintro a b c d e a' e' rfl rfl
    simp only [String.append_assoc]
  have htitle : rangeTitle first last = _ :=
    hends _ _ _ _ _ "efactor lines " " into new function" (by decide) (by decide)
  have htrim : Text.trim (rangeTitle first last).toList = (rangeTitle first last).toList := by
    rw [htitle, String.toList_append, String.toList_append]
    exact Text.trim_of_ends (by decide) (by decide) _
  have hblank : Text.AllBlank [' '] := List.forall_mem_singleton.mpr (by decide)
  calc Text.trim ((rangeTitle first last).toList ++ [' '])
    _ = Text.trim (rangeTitle first last).toList :=
        Text.trim_append (fun _ hc => absurd hc List.not_mem_nil) hblank _
    _ = (rangeTitle first last).toList := htrim

/-- A title and the blank after it are the first line of a text that begins with them. -/
theorem lines_rangeTitle (first last : UInt32) (rest : List Char) :
    lines ((rangeTitle first last).toList ++ [' '] ++ '\n' :: rest)
      = ((rangeTitle first last).toList ++ [' ']) :: lines rest :=
  Text.lines_append_lineFeed (isUnbroken_of_isPlain (isPlain_rangeTitle_blank first last)) rest

theorem summary_rangeFinding (first last : UInt32) (body : List String) :
    (rangeFinding first last body).summary = rangeTitle first last := by
  have htitle := isUnbroken_of_isPlain (isPlain_rangeTitle_blank first last)
  rw [Finding.summary, toList_text_rangeFinding, Text.firstLine_append htitle, trim_rangeTitle,
    String.ofList_toList]

theorem sanitize_rangeTitle (first last : UInt32) :
    sanitize (rangeTitle first last) = rangeTitle first last :=
  sanitize_of_stripped? <|
    stripped?_eq_none_iff.mpr fun c hc => (isPlain_rangeTitle first last c hc).1

/-- Stripping leaves a title as it is, and the body is stripped from its beginning. -/
theorem strip_text_rangeFinding (first last : UInt32) (body : List String) :
    strip .plain (rangeFinding first last body).text.toList
      = (rangeTitle first last).toList ++ [' '] ++ '\n' :: strip .plain (joined body) := by
  have hsafe : ∀ c ∈ (rangeTitle first last).toList ++ [' '], isUnsafe c = false :=
    fun c hc => (isPlain_rangeTitle_blank first last c hc).1
  rw [toList_text_rangeFinding, strip_append, strip_of_safe hsafe, run_plain_of_safe hsafe]
  rfl

section Range

variable {first last : UInt32} {body : List String} {m : Marker Nat}

theorem headLine_of_range (file : String) (hm : m.finding = rangeFinding first last body) :
    headLine file m
      = file ++ ":" ++ decimalText first.toNat ++ ": " ++ rangeTitle first last := by
  have hnumber : lineNumber (rangeFinding first last body) = first :=
    UInt32.sub_add_cancel first 1
  rw [headLine, hm, hnumber, summary_rangeFinding, sanitize_rangeTitle]

theorem bodyLines_of_range (hm : m.finding = rangeFinding first last body) :
    bodyLines m = (lines (strip .plain (joined body))).map String.ofList := by
  rw [bodyLines, hm, toList_sanitize, strip_text_rangeFinding, lines_rangeTitle]
  rfl

/-- The lines of a body are shown as they are, sanitized, just when none reaches beyond its end. -/
theorem bodyLines_of_range_iff (hm : m.finding = rangeFinding first last body)
    (hbody : ∀ line ∈ body, '\n' ∉ line.toList) :
    bodyLines m = body.map sanitize ↔ KeepsLines body := by
  have hsanitize : body.map sanitize
      = (body.map fun line => strip .plain line.toList).map String.ofList := by
    rw [List.map_map]
    refine List.map_congr_left fun line _ => ?_
    rw [Function.comp_apply, ← toList_sanitize, String.ofList_toList]
  rw [bodyLines_of_range hm, hsanitize, ← lines_strip_joined_iff hbody]
  exact (List.map_injective_iff.mpr fun _ _ => String.ofList_injective).eq_iff

end Range

/-- The lines of a range finding, each line of the body shown on its own. -/
def rangeLines (file : String) (first last : UInt32) (body : List String) : List String :=
  (file ++ ":" ++ decimalText first.toNat ++ ": " ++ rangeTitle first last)
    :: body.map fun line => "    " ++ sanitize line

/-- A range finding is printed with each line of its body on its own just when none reaches beyond
its end, wherever its marker stands. -/
theorem text_of_range_iff {first last : UInt32} {body : List String} {m : Marker Nat}
    (hm : m.finding = rangeFinding first last body) (hbody : ∀ line ∈ body, '\n' ∉ line.toList)
    (file : String) (before after : List (Marker Nat)) :
    text file (before ++ m :: after)
        = text file before ++ String.join ((rangeLines file first last body).map (· ++ "\n"))
          ++ text file after
      ↔ KeepsLines body := by
  have hshown : body.map (fun line => "    " ++ sanitize line)
      = (body.map sanitize).map ("    " ++ ·) := by
    rw [List.map_map]
    rfl
  rw [text_append_cons, String.append_left_inj, String.append_right_inj, textLines, rangeLines,
    headLine_of_range file hm, List.map_cons, List.map_cons, String.join_cons, String.join_cons,
    String.append_right_inj, hshown, Text.join_inj, ← bodyLines_of_range_iff hm hbody]
  · exact (List.map_injective_iff.mpr fun _ _ => (String.append_right_inj _).mp).eq_iff
  · intro indented hindented
    obtain ⟨line, hline, rfl⟩ := List.mem_map.mp hindented
    exact isUnbroken_indent (isUnbroken_of_isPlain (isPlain_of_mem_bodyLines hline))
  · intro indented hindented
    obtain ⟨sanitized, hsanitized, rfl⟩ := List.mem_map.mp hindented
    obtain ⟨line, hline, rfl⟩ := List.mem_map.mp hsanitized
    exact isUnbroken_indent (isUnbroken_sanitize (hbody line hline))

/-- A finding in an output of the analyzer has a message of one line, or is a range finding, the
lines of its body neither empty nor broken. -/
theorem single_or_range_of_mem {output : List UInt8} {f : Finding}
    (h : f ∈ Wire.findingsOfBytes output) :
    (∃ number message, f = ⟨number - 1, " " ++ message⟩ ∧ '\n' ∉ message.toList) ∨
      ∃ first last body, f = rangeFinding first last body ∧
        ∀ line ∈ body, line ≠ "" ∧ '\n' ∉ line.toList := by
  rw [Wire.findingsOfBytes_eq_scan] at h
  obtain ⟨item, hitem⟩ := Wire.exists_item_of_mem_scan
    (fun _ hnone => absurd hnone (Option.not_mem_none _)) (Wire.outputLines_unbroken output) h
  cases item with
  | noise line unbroken unrecognised => cases hitem
  | single number message counted unbroken =>
      cases hitem
      exact Or.inl ⟨number, message, rfl, unbroken⟩
  | range first last description body counted unclosed unbroken lines =>
      cases hitem
      exact Or.inr ⟨first, last, body, rfl, lines⟩

/-- A finding in an output of the analyzer is one line, or has a body.  A finding with a body is
printed as its title and then each line of the body on its own, indented and sanitized, just when
each escape sequence that begins in a line of the body ends in it, or only the last one does not and
its line shows something. -/
theorem body_lines_shown_iff (output : List UInt8) :
    (∀ f ∈ Wire.findingsOfBytes output,
      (∃ number message, f = ⟨number - 1, " " ++ message⟩ ∧ '\n' ∉ message.toList) ∨
        ∃ first last body, f = rangeFinding first last body ∧
          ∀ line ∈ body, line ≠ "" ∧ '\n' ∉ line.toList) ∧
      ∀ first last body, rangeFinding first last body ∈ Wire.findingsOfBytes output →
        (∀ line ∈ body, '\n' ∉ line.toList) →
          ∀ file before m after, m.finding = rangeFinding first last body →
            (text file (before ++ m :: after)
                = text file before
                  ++ String.join ((rangeLines file first last body).map (· ++ "\n"))
                  ++ text file after
              ↔ KeepsLines body) := by
  refine ⟨fun f h => single_or_range_of_mem h, ?_⟩
  intro first last body _ hbody file before m after hm
  exact text_of_range_iff hm hbody file before after

/-- A line with escape sequences that end, one of nothing else, and a last line with one that does
not. -/
theorem body_lines_shown_of_closed :
    let output := Text.Utf8.encode
      "line 2-4 (why):\n\x1b[1ma\x1b[0m\n\x1b]0;t\x07\nb\x1b[31\n".toList
    let body := ["\x1b[1ma\x1b[0m", "\x1b]0;t\x07", "b\x1b[31"]
    let m : Marker Nat :=
      ⟨0, ⟨0, 1⟩, Style.icon {}, Style.refresh {}, rangeFinding 2 4 body⟩
    rangeFinding 2 4 body ∈ Wire.findingsOfBytes output ∧ KeepsLines body ∧
      text "f" [m] = "f:2: Refactor lines 2-4 into new function:\n    a\n    \n    b\n" := by
  intro output body m
  have hmem : rangeFinding 2 4 body ∈ Wire.findingsOfBytes output := by
    rw [Wire.findingsOfBytes_eq_scan]
    decide +kernel
  have hkeeps : KeepsLines body := by
    refine ⟨by decide +kernel, fun line hline => Or.inr ?_⟩
    cases hline
    decide +kernel
  refine ⟨hmem, hkeeps, ?_⟩
  have hshown := ((body_lines_shown_iff output).2 2 4 body hmem (by decide +kernel)
    "f" [] m [] rfl).mpr hkeeps
  exact hshown.trans (by decide +kernel)

/-- An escape at the end of a line takes the line feed with it, and two lines of the body are shown
as one. -/
theorem escape_merges_body_lines :
    let output := Text.Utf8.encode "line 1-1 (d):\na\x1b\nb\n".toList
    let body := ["a\x1b", "b"]
    let m : Marker Nat :=
      ⟨0, ⟨0, 1⟩, Style.icon {}, Style.refresh {}, rangeFinding 1 1 body⟩
    rangeFinding 1 1 body ∈ Wire.findingsOfBytes output ∧
      (∀ line ∈ body, line ≠ "" ∧ '\n' ∉ line.toList) ∧
      text "f.py" [m] = "f.py:1: Refactor lines 1-1 into new function:\n    ab\n" ∧
      text "f.py" [m] ≠ String.join ((rangeLines "f.py" 1 1 body).map (· ++ "\n")) := by
  intro output body m
  have hmem : rangeFinding 1 1 body ∈ Wire.findingsOfBytes output := by
    rw [Wire.findingsOfBytes_eq_scan]
    decide +kernel
  exact ⟨hmem, by decide +kernel, by decide +kernel, by decide +kernel⟩

end Marginalia.Listing
