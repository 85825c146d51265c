import Marginalia.Proofs.Text.Decoding
import Marginalia.Proofs.Wire.Scan

/-!
Reading an output as characters.

The readers cut bytes into lines and decode each line.  One may as well decode the whole output and
cut the characters (`outputLines_eq_textLines`): a line feed is decoded as itself wherever it stands
and by nothing else, so the pieces between line feeds are decoded by themselves
(`splitOn_decodeLossy`), and so is a carriage return at the end of a line (`lineText_eq`).  Hence
an output and the text that it decodes to have the same lines, whatever is malformed in it, and the
same findings (`decoding_first_reads_the_same`).
-/

namespace Marginalia.Wire

open Text Text.Utf8

/-! ### Lines of characters -/

/-- A line without the carriage return that belongs to its end. -/
def chomp (line : List Char) : List Char :=
  if line.getLast? = some '\r' then line.dropLast else line

/-- The lines of a text.  An empty piece after the last line feed is no line. -/
def textLines (chars : List Char) : List String :=
  let pieces := chars.splitOn '\n'
  (if pieces.getLast? = some [] then pieces.dropLast else pieces).map fun line =>
    String.ofList (chomp line)

/-! ### Line feeds -/

theorem decodeLossy_append_lineFeed (bytes more : List UInt8) :
    decodeLossy (bytes ++ lineFeed :: more) = decodeLossy bytes ++ '\n' :: decodeLossy more :=
  decodeLossy_append_ascii (a := '\n') (by decide) bytes more

theorem lineFeed_not_mem_decodeLossy {bytes : List UInt8} (h : lineFeed ∉ bytes) :
    '\n' ∉ decodeLossy bytes :=
  fun hmem => h (mem_of_mem_decodeLossy (a := '\n') (by decide) (by decide) hmem)

/-- The line feeds are where they were, and each piece between them is decoded by itself. -/
theorem splitOn_decodeLossy (output : List UInt8) :
    (decodeLossy output).splitOn '\n' = (output.splitOn lineFeed).map decodeLossy := by
  by_cases hmem : lineFeed ∈ output
  · obtain ⟨first, rest, rfl, hfirst⟩ := List.eq_append_cons_of_mem hmem
    rw [decodeLossy_append_lineFeed, List.splitOn_append_cons_self_of_not_mem hfirst,
      List.splitOn_append_cons_self_of_not_mem (lineFeed_not_mem_decodeLossy hfirst),
      splitOn_decodeLossy rest, List.map_cons]
  · rw [List.splitOn_eq_singleton hmem,
      List.splitOn_eq_singleton (lineFeed_not_mem_decodeLossy hmem), List.map_singleton]
  termination_by output.length
  decreasing_by
    rw [‹output = _›, List.length_append, List.length_cons]
    omega

/-! ### Carriage returns -/

/-- What decodes to a carriage return at the end has one there. -/
theorem getLast?_of_getLast?_decodeLossy {bytes : List UInt8}
    (h : (decodeLossy bytes).getLast? = some '\r') : bytes.getLast? = some carriageReturn := by
  have hmem : carriageReturn ∈ bytes :=
    mem_of_mem_decodeLossy (a := '\r') (by decide) (by decide) (List.mem_of_getLast? h)
  obtain ⟨first, rest, rfl, -⟩ := List.eq_append_cons_of_mem hmem
  by_cases hrest : rest = []
  · rw [hrest, List.getLast?_concat]
  · -- more follows, which decodes to something that ends in a carriage return as well
    have hdecode : decodeLossy (first ++ carriageReturn :: rest)
        = (decodeLossy first ++ ['\r']) ++ decodeLossy rest := by
      rw [List.append_assoc]
      exact decodeLossy_append_ascii (a := '\r') (by decide) first rest
    rw [hdecode, List.getLast?_append_of_ne_nil _ (mt decodeLossy_eq_nil_iff.mp hrest)] at h
    rw [List.append_cons, List.getLast?_append_of_ne_nil _ hrest]
    exact getLast?_of_getLast?_decodeLossy h
  termination_by bytes.length
  decreasing_by
    rw [‹bytes = _›, List.length_append, List.length_cons]
    omega

/-- The carriage return at the end of a line may be taken away before the line is decoded or
after. -/
theorem lineText_eq (line : List UInt8) :
    lineText line = String.ofList (chomp (decodeLossy line)) := by
  rw [lineText]
  by_cases hlast : line.getLast? = some carriageReturn
  · obtain ⟨before, rfl⟩ := List.getLast?_eq_some_iff.mp hlast
    have hdecode : decodeLossy (before ++ [carriageReturn]) = decodeLossy before ++ ['\r'] :=
      decodeLossy_append_ascii (a := '\r') (by decide) before []
    rw [if_pos hlast, List.dropLast_concat, hdecode, chomp, List.getLast?_concat, if_pos rfl,
      List.dropLast_concat]
  · rw [if_neg hlast, chomp, if_neg fun h => hlast (getLast?_of_getLast?_decodeLossy h)]

/-! ### Whole outputs -/

/-- The lines of an output are the lines of the text that it decodes to. -/
theorem outputLines_eq_textLines (output : List UInt8) :
    outputLines output = textLines (decodeLossy output) := by
  let pieces := output.splitOn lineFeed
  -- an empty piece at the end is empty before and after decoding
  have hlast : (pieces.map decodeLossy).getLast? = some [] ↔ pieces.getLast? = some [] := by
    simp [List.getLast?_map, decodeLossy_eq_nil_iff]
  rw [outputLines, rawLines, textLines, splitOn_decodeLossy]
  show (if pieces.getLast? = some [] then pieces.dropLast else pieces).map lineText = _
  by_cases hempty : pieces.getLast? = some []
  · rw [if_pos hempty, if_pos (hlast.mpr hempty), ← List.map_dropLast, List.map_map]
    exact List.map_congr_left fun line _ => lineText_eq line
  · rw [if_neg hempty, if_neg (mt hlast.mp hempty), List.map_map]
    exact List.map_congr_left fun line _ => lineText_eq line

/-- The lines of a text's encoding are the lines of the text. -/
theorem outputLines_encode (chars : List Char) : outputLines (encode chars) = textLines chars := by
  rw [outputLines_eq_textLines, decodeLossy_encode]

/-- Decoding an output first and reading it then brings what reading it brings.

* The findings are those of the text that the output decodes to.  Output and text have the same
  lines: none is lost, none is added, and each is classified by the same characters.
* The line feeds of the text are those of the output, and each piece between them is decoded by
  itself.  So a malformed piece shows in its own line alone, and takes no line end with it.
* The text is the one reading of the output, with a replacement character for each malformed piece.
* Where the output is the encoding of a text, it is read as that text and nothing is replaced. -/
theorem decoding_first_reads_the_same (output : List UInt8) :
    let text := String.ofList (decodeLossy output)
    findingsOfBytes output = findingsOfText text ∧
      outputLines output = textLines text.toList ∧
      outputLines (encode text.toList) = textLines text.toList ∧
      text.toList.splitOn '\n' = (output.splitOn lineFeed).map decodeLossy ∧
      (∃ reading, (∀ out, Decoding output out ↔ out = reading) ∧
        text.toList = reading.map fun mark => mark.getD '\uFFFD') ∧
      ∀ chars, output = encode chars ↔ none ∉ decode output ∧ text.toList = chars := by
  intro text
  have htext : text.toList = decodeLossy output := String.toList_ofList
  rw [htext]
  refine ⟨?_, outputLines_eq_textLines output, outputLines_encode _, splitOn_decodeLossy output,
    ⟨decode output, fun out => decoding_iff, rfl⟩, fun chars => eq_encode_iff⟩
  rw [findingsOfText, htext, findingsOfBytes_eq_scan, findingsOfBytes_eq_scan, outputLines_encode,
    outputLines_eq_textLines]

end Marginalia.Wire
