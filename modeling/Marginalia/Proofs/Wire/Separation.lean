import Marginalia.Proofs.Wire.Truncation

/-!
Outputs one after another, with an empty line between them.

An empty line completes the body under way and is noise outside of one, and so is the end of an
output (`scan_empty_line`).  An output may break off inside a line; the line feed that comes first
then ends that line, as the end of the output does (`scan_unfinished_empty_line`).  So whatever an
output ends in, two line feeds after it do what its end does (`scan_append_empty_line`), and the
findings of outputs that are separated in this way are those of each output in turn
(`empty_line_separates`).
-/

namespace Marginalia.Wire

/-! ### An empty line -/

/-- An empty line completes the body under way, if there is one, and is no finding itself. -/
theorem scan_empty_line (body : Option Finding) (rest : List String) :
    scan body ("" :: rest) = body.toList ++ scan none rest := by
  cases body with
  | none =>
      -- outside of a body the line is classified, and has neither shape
      have hnoise : classify "" = none := by decide
      rw [scan, hnoise]
      rfl
  | some finding =>
      rw [scan, if_pos rfl]
      rfl

/-- A line and an empty line after it bring what the line brings at the end of an output, where it
is no line if it has no bytes.  What comes after them is read from the start. -/
theorem scan_unfinished_empty_line (body : Option Finding) {line : List UInt8}
    (h : lineFeed ∉ line) (rest : List String) :
    scan body (lineText line :: "" :: rest) = scan body (outputLines line) ++ scan none rest := by
  rw [outputLines, rawLines_of_not_mem h]
  by_cases hline : line = []
  · -- without bytes the line is empty as well, and the second empty line finds no body to complete
    subst hline
    show scan body ("" :: "" :: rest) = body.toList ++ scan none rest
    rw [scan_empty_line, scan_empty_line]
    rfl
  · rw [if_neg hline, List.map_singleton, scan_cons body, scan_cons body]
    rcases accept body (lineText line) with finding | next
    · show finding :: scan none ("" :: rest) = finding :: scan none rest
      rw [scan_empty_line]
      rfl
    · exact scan_empty_line next rest

/-! ### Two outputs -/

/-- The lines of an unfinished line, two line feeds and more. -/
theorem outputLines_empty_line {line : List UInt8} (h : lineFeed ∉ line) (more : List UInt8) :
    outputLines (line ++ lineFeed :: lineFeed :: more)
      = lineText line :: "" :: outputLines more := by
  have hempty : rawLines (lineFeed :: more) = [] :: rawLines more :=
    rawLines_append_lineFeed List.not_mem_nil more
  rw [outputLines, rawLines_append_lineFeed h, hempty]
  rfl

/-- Whatever an output ends in, and whether a body was under way before it or not, two line feeds
after it do what its end does. -/
theorem scan_append_empty_line (body : Option Finding) (output more : List UInt8) :
    scan body (outputLines (output ++ lineFeed :: lineFeed :: more))
      = scan body (outputLines output) ++ scan none (outputLines more) := by
  obtain ⟨line, hline, hlines⟩ := exists_unfinished output
  have hend : outputLines output = endedLines output ++ outputLines line := by
    have := hlines []
    rwa [List.append_nil, List.append_nil] at this
  -- the lines that have ended leave a body under way, which the unfinished line is read in
  rw [hlines, hend, outputLines_empty_line hline, scan_append, scan_append,
    scan_unfinished_empty_line _ hline, List.append_assoc]

theorem findingsOfBytes_append_empty_line (output more : List UInt8) :
    findingsOfBytes (output ++ lineFeed :: lineFeed :: more)
      = findingsOfBytes output ++ findingsOfBytes more := by
  rw [findingsOfBytes_eq_scan, findingsOfBytes_eq_scan, findingsOfBytes_eq_scan]
  exact scan_append_empty_line none output more

/-! ### Any number of outputs -/

theorem findingsOfBytes_intercalate (outputs : List (List UInt8)) :
    findingsOfBytes ([lineFeed, lineFeed].intercalate outputs)
      = outputs.flatMap findingsOfBytes := by
  induction outputs with
  | nil => exact findingsOfBytes_eq_scan []
  | cons output outputs ih =>
      rcases outputs with - | ⟨next, outputs⟩
      · rw [List.intercalate_singleton, List.flatMap_singleton]
      · rw [List.intercalate_cons_cons, List.append_assoc, List.flatMap_cons, ← ih]
        exact findingsOfBytes_append_empty_line output _

/-- An empty line between two outputs separates their findings: those of the first come first, as if
it had ended there, and those of the second after them, as if nothing had been before it.  So the
end of an output acts as two line feeds do, at whatever byte the output ends: asked any number of
times, a reader gives the same answers with them and without.  Of any number of outputs with empty
lines between them, the findings are those of each output in turn. -/
theorem empty_line_separates :
    (∀ output more : List UInt8,
      findingsOfBytes (output ++ [lineFeed, lineFeed] ++ more)
        = findingsOfBytes output ++ findingsOfBytes more) ∧
    (∀ (output : List UInt8) (calls : Nat),
      (LatchingReader.ofFeed (Feed.ofBytes (output ++ [lineFeed, lineFeed]))).answers calls
        = (LatchingReader.ofFeed (Feed.ofBytes output)).answers calls) ∧
    ∀ outputs : List (List UInt8),
      findingsOfBytes ([lineFeed, lineFeed].intercalate outputs)
        = outputs.flatMap findingsOfBytes := by
  refine ⟨?_, ?_, findingsOfBytes_intercalate⟩
  · intro output more
    rw [List.append_assoc]
    exact findingsOfBytes_append_empty_line output more
  · intro output calls
    have hscan : scan none (outputLines (output ++ [lineFeed, lineFeed]))
        = scan none (outputLines output) := by
      rw [scan_append_empty_line]
      exact List.append_nil _
    rw [LatchingReader.answers_of_bytes (uninterrupted_ofBytes _),
      LatchingReader.answers_of_bytes (uninterrupted_ofBytes _), hscan]

end Marginalia.Wire
