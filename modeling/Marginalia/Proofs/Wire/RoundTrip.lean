import Marginalia.Proofs.Text.Utf8
import Marginalia.Proofs.Wire.Line
import Marginalia.Proofs.Wire.Scan

/-!
What is written is read back, and what is read could have been written.

An `Item` is what an analyzer writes: noise, a single finding, or a range finding with its body.
An item cannot be built from texts that its lines could not hold.  `write` ends every line of some
items with a line end, `"\r\n"` or `"\n"`.

* The lines of a written output are the lines that were written, whatever characters they hold
  (`outputLines_crlf`); with plain line feeds, if none of them ends in a carriage return
  (`outputLines_lf`).
* Scanning the lines of an item brings its finding and goes on after it (`scan_lines`): the lines of
  a body are not looked at, and the empty line closes it.
* Whatever was scanned, a finding is that of some item (`exists_item_of_mem_scan`).  The body under
  way is an item's finding at every line, which is the invariant.
-/

namespace Marginalia.Wire

open Text

/-! ### Items -/

/-- The finding of a range and the lines of its body. -/
def rangeFinding (first last : UInt32) (body : List String) : Finding where
  line := first - 1
  text := "Refactor lines " ++ decimalText first.toNat ++ "-" ++ decimalText last.toNat
    ++ " into new function: \n" ++ String.join (body.map (· ++ "\n"))

/-- What an analyzer writes.  Lines are counted from 1.  No text holds a line feed, noise is not
recognised as a finding, a description does not close its parenthesis, and no line of a body is
empty. -/
inductive Item where
  | noise (line : String) (unbroken : '\n' ∉ line.toList)
      (unrecognised : ∀ shape, classify line ≠ some (.ok shape))
  | single (number : UInt32) (message : String) (counted : number ≠ 0)
      (unbroken : '\n' ∉ message.toList)
  | range (first last : UInt32) (description : String) (body : List String) (counted : first ≠ 0)
      (unclosed : ')' ∉ description.toList) (unbroken : '\n' ∉ description.toList)
      (lines : ∀ line ∈ body, line ≠ "" ∧ '\n' ∉ line.toList)

namespace Item

/-- The lines of an item. -/
def lines : Item → List String
  | noise line _ _ => [line]
  | single number message _ _ => [singleLine number message]
  | range first last description body _ _ _ _ => headerLine first last description :: (body ++ [""])

/-- The finding of an item, if it has one. -/
def finding? : Item → Option Finding
  | noise _ _ _ => none
  | single number message _ _ => some ⟨number - 1, " " ++ message⟩
  | range first last _ body _ _ _ _ => some (rangeFinding first last body)

end Item

/-- The output that holds the lines of some items, each with a line end. -/
def write (ending : String) (items : List Item) : String :=
  String.join ((items.flatMap Item.lines).map (· ++ ending))

/-! ### Lines of a written output -/

theorem rawLines_flatMap {pieces : List (List UInt8)} (h : ∀ piece ∈ pieces, lineFeed ∉ piece) :
    rawLines (pieces.flatMap (· ++ [lineFeed])) = pieces := by
  induction pieces with
  | nil => rfl
  | cons piece pieces ih =>
      obtain ⟨hpiece, hpieces⟩ := List.forall_mem_cons.mp h
      rw [List.flatMap_cons, List.append_assoc]
      show rawLines (piece ++ lineFeed :: pieces.flatMap (· ++ [lineFeed])) = _
      rw [rawLines_append_lineFeed hpiece, ih hpieces]

/-- The line feed is encoded as itself, and by no other character. -/
theorem lineFeed_mem_encode {chars : List Char} : lineFeed ∈ Utf8.encode chars ↔ '\n' ∈ chars :=
  Utf8.mem_encode_iff (a := '\n') (by decide)

theorem encode_join (lines : List String) (tail : String) :
    Utf8.encode (String.join (lines.map (· ++ (tail ++ "\n")))).toList
      = (lines.map fun line => Utf8.encode (line ++ tail).toList).flatMap (· ++ [lineFeed]) := by
  induction lines with
  | nil => rfl
  | cons line lines ih =>
      rw [List.map_cons, String.join_cons, String.toList_append, Utf8.encode_append, ih,
        ← String.append_assoc, String.toList_append, Utf8.encode_append]
      rfl

/-- The lines of texts that are each followed by a tail and a line feed. -/
theorem outputLines_join {lines : List String} {tail : String}
    (h : ∀ line ∈ lines, '\n' ∉ (line ++ tail).toList) :
    outputLines (Utf8.encode (String.join (lines.map (· ++ (tail ++ "\n")))).toList)
      = lines.map fun line => lineText (Utf8.encode (line ++ tail).toList) := by
  have hpieces : ∀ piece ∈ lines.map fun line => Utf8.encode (line ++ tail).toList,
      lineFeed ∉ piece := by
    intro piece hpiece hmem
    obtain ⟨line, hline, rfl⟩ := List.mem_map.mp hpiece
    exact h line hline (lineFeed_mem_encode.mp hmem)
  rw [outputLines, encode_join, rawLines_flatMap hpieces, List.map_map]
  rfl

/-- A carriage return after a line is not part of it. -/
theorem lineText_encode_carriageReturn (line : String) :
    lineText (Utf8.encode (line ++ "\r").toList) = line := by
  have hbytes : Utf8.encode (line ++ "\r").toList
      = Utf8.encode line.toList ++ [carriageReturn] := by
    rw [String.toList_append, Utf8.encode_append]
    rfl
  rw [lineText, hbytes, List.getLast?_concat, if_pos rfl, List.dropLast_concat,
    Utf8.decodeLossy_encode, String.ofList_toList]

/-- A line that does not end in a carriage return is read as it was written. -/
theorem lineText_encode {line : String} (h : line.toList.getLast? ≠ some '\r') :
    lineText (Utf8.encode line.toList) = line := by
  have hlast : (Utf8.encode line.toList).getLast? ≠ some carriageReturn := fun hlast =>
    h (Utf8.getLast?_of_getLast?_encode (by decide) hlast)
  rw [lineText, if_neg hlast, Utf8.decodeLossy_encode, String.ofList_toList]

theorem outputLines_crlf {lines : List String} (h : ∀ line ∈ lines, '\n' ∉ line.toList) :
    outputLines (Utf8.encode (String.join (lines.map (· ++ "\r\n"))).toList) = lines := by
  have htail : ∀ line ∈ lines, '\n' ∉ (line ++ "\r").toList := by
    intro line hline hmem
    rw [String.toList_append, List.mem_append] at hmem
    rcases hmem with hmem | hmem
    · exact h line hline hmem
    · exact absurd hmem (by decide)
  show outputLines (Utf8.encode (String.join (lines.map (· ++ ("\r" ++ "\n")))).toList) = lines
  rw [outputLines_join htail, funext lineText_encode_carriageReturn]
  exact List.map_id lines

theorem outputLines_lf {lines : List String} (h : ∀ line ∈ lines, '\n' ∉ line.toList)
    (hlast : ∀ line ∈ lines, line.toList.getLast? ≠ some '\r') :
    outputLines (Utf8.encode (String.join (lines.map (· ++ "\n"))).toList) = lines := by
  have htail : ∀ line ∈ lines, '\n' ∉ (line ++ "").toList := by
    intro line hline
    rw [String.append_empty]
    exact h line hline
  have htext : ∀ line ∈ lines, lineText (Utf8.encode (line ++ "").toList) = line := by
    intro line hline
    rw [String.append_empty, lineText_encode (hlast line hline)]
  show outputLines (Utf8.encode (String.join (lines.map (· ++ ("" ++ "\n")))).toList) = lines
  rw [outputLines_join htail, List.map_congr_left htext]
  exact List.map_id lines

theorem lineFeed_not_mem_toDigits (n : Nat) : '\n' ∉ Nat.toDigits 10 n := by
  intro h
  exact absurd (isDigit_of_mem_toDigits h) (by decide)

theorem singleLine_unbroken (number : UInt32) {message : String} (h : '\n' ∉ message.toList) :
    '\n' ∉ (singleLine number message).toList := by
  simp [singleLine, toList_decimalText, lineFeed_not_mem_toDigits, h]

theorem headerLine_unbroken (first last : UInt32) {description : String}
    (h : '\n' ∉ description.toList) : '\n' ∉ (headerLine first last description).toList := by
  simp [headerLine, toList_decimalText, lineFeed_not_mem_toDigits, h]

/-- No line of an item holds a line feed. -/
theorem Item.lines_unbroken (item : Item) : ∀ line ∈ item.lines, '\n' ∉ line.toList := by
  cases item with
  | noise line unbroken unrecognised =>
      intro line' hline
      rw [List.mem_singleton.mp hline]
      exact unbroken
  | single number message counted unbroken =>
      intro line hline
      rw [List.mem_singleton.mp hline]
      exact singleLine_unbroken number unbroken
  | range first last description body counted unclosed unbroken lines =>
      intro line hline
      rcases List.mem_cons.mp hline with rfl | hline
      · exact headerLine_unbroken first last unbroken
      · rcases List.mem_append.mp hline with hline | hline
        · exact (lines line hline).2
        · rw [List.mem_singleton.mp hline]
          exact List.not_mem_nil

theorem lines_unbroken (items : List Item) :
    ∀ line ∈ items.flatMap Item.lines, '\n' ∉ line.toList := by
  intro line hline
  obtain ⟨item, -, hline⟩ := List.mem_flatMap.mp hline
  exact item.lines_unbroken line hline

/-! ### Scanning what was written -/

/-- A header opens the finding of its range, with no line of the body. -/
theorem opened_eq (header : Header) :
    header.opened = rangeFinding header.first header.last [] := by
  rw [rangeFinding, List.map_nil, String.join_nil, String.append_empty]
  rfl

/-- A line added to a range finding is one more line of its body. -/
theorem pushLine_rangeFinding (first last : UInt32) (body : List String) (line : String) :
    (rangeFinding first last body).pushLine line = rangeFinding first last (body ++ [line]) := by
  rw [Finding.pushLine, rangeFinding, rangeFinding, List.map_append, String.join_append]
  simp only [String.append_assoc, List.map_cons, List.map_nil, String.join_cons, String.join_nil,
    String.append_empty]

/-- The lines of a body are taken as they are, up to the empty line. -/
theorem scan_body (first last : UInt32) (read : List String) {body : List String}
    (h : ∀ line ∈ body, line ≠ "") (rest : List String) :
    scan (some (rangeFinding first last read)) (body ++ "" :: rest)
      = rangeFinding first last (read ++ body) :: scan none rest := by
  -- a line is added at the end of those read so far, so these are generalised
  induction body generalizing read with
  | nil => rw [List.nil_append, List.append_nil, scan, if_pos rfl]
  | cons line body ih =>
      obtain ⟨hline, hbody⟩ := List.forall_mem_cons.mp h
      rw [List.cons_append, scan, if_neg hline, pushLine_rangeFinding, ih _ hbody,
        List.append_assoc]
      rfl

/-- The lines of an item bring its finding, whatever follows. -/
theorem scan_lines (item : Item) (rest : List String) :
    scan none (item.lines ++ rest) = item.finding?.toList ++ scan none rest := by
  cases item with
  | noise line unbroken unrecognised =>
      show scan none (line :: rest) = scan none rest
      rw [scan]
      rcases hline : classify line with - | fault | shape
      · rfl
      · rfl
      · exact absurd hline (unrecognised shape)
  | single number message counted unbroken =>
      show scan none (singleLine number message :: rest) = _
      rw [scan, classify_singleLine counted unbroken]
      rfl
  | range first last description body counted unclosed unbroken lines =>
      -- the header opens the finding, the body fills it and the empty line closes it
      show scan none (headerLine first last description :: (body ++ [""] ++ rest)) = _
      rw [scan, classify_headerLine counted last unclosed, List.append_assoc]
      show scan (some (Header.mk first last).opened) (body ++ "" :: rest) = _
      rw [opened_eq, scan_body first last [] fun line hline => (lines line hline).1]
      rfl

theorem scan_flatMap_lines (items : List Item) :
    scan none (items.flatMap Item.lines) = items.filterMap Item.finding? := by
  induction items with
  | nil => rfl
  | cons item items ih =>
      rw [List.flatMap_cons, scan_lines, ih, List.filterMap_cons]
      cases item.finding? <;> rfl

/-! ### Writing what was scanned -/

/-- No line of an output holds a line feed: decoding does not make one up. -/
theorem outputLines_unbroken (output : List UInt8) :
    ∀ line ∈ outputLines output, '\n' ∉ line.toList := by
  intro line hline hmem
  obtain ⟨bytes, hbytes, rfl⟩ := List.mem_map.mp hline
  have hfeed : lineFeed ∉ bytes := not_mem_of_mem_rawLines hbytes
  rw [lineText, String.toList_ofList] at hmem
  -- a line feed in the text would be one among the bytes
  have hbyte := Utf8.mem_of_mem_decodeLossy (by decide) (by decide) hmem
  split at hbyte
  · exact hfeed (List.dropLast_subset bytes hbyte)
  · exact hfeed hbyte

/-- A finding whose body is being read is that of a range and the lines read. -/
def IsOpen (finding : Finding) : Prop :=
  ∃ first last body, first ≠ 0 ∧ (∀ line ∈ body, line ≠ "" ∧ '\n' ∉ line.toList) ∧
    finding = rangeFinding first last body

theorem IsOpen.exists_item {finding : Finding} (h : IsOpen finding) :
    ∃ item : Item, item.finding? = some finding := by
  obtain ⟨first, last, body, counted, lines, rfl⟩ := h
  exact ⟨.range first last "" body counted List.not_mem_nil List.not_mem_nil lines, rfl⟩

theorem isOpen_opened {header : Header} (h : header.first ≠ 0) : IsOpen header.opened :=
  ⟨header.first, header.last, [], h, fun _ hline => absurd hline List.not_mem_nil, opened_eq header⟩

theorem IsOpen.pushLine {finding : Finding} (h : IsOpen finding) {line : String} (hne : line ≠ "")
    (hline : '\n' ∉ line.toList) : IsOpen (finding.pushLine line) := by
  obtain ⟨first, last, body, counted, lines, rfl⟩ := h
  refine ⟨first, last, body ++ [line], counted, ?_, pushLine_rangeFinding first last body line⟩
  intro line' hmem
  rcases List.mem_append.mp hmem with hmem | hmem
  · exact lines line' hmem
  · rw [List.mem_singleton.mp hmem]
    exact ⟨hne, hline⟩

/-- A line completed the finding of an item, or left none but an open one. -/
def Progress.Sound : Progress → Prop
  | .complete finding => ∃ item : Item, item.finding? = some finding
  | .reading body => ∀ finding ∈ body, IsOpen finding

theorem sound_reading_none : (Progress.reading none).Sound := fun _ h =>
  absurd h (Option.not_mem_none _)

theorem sound_reading_some {finding : Finding} (h : IsOpen finding) :
    (Progress.reading (some finding)).Sound := by
  intro found hfound
  cases hfound
  exact h

theorem accept_sound {body : Option Finding} (hbody : ∀ finding ∈ body, IsOpen finding)
    {line : String} (hline : '\n' ∉ line.toList) : (accept body line).Sound := by
  cases body with
  | some finding =>
      have hopen : IsOpen finding := hbody finding rfl
      rw [accept]
      split
      · exact hopen.exists_item
      next hne => exact sound_reading_some (hopen.pushLine hne hline)
  | none =>
      rw [accept]
      rcases hshape : classify line with - | fault | shape
      · exact sound_reading_none
      · exact sound_reading_none
      · rcases classify_ok hshape with
          ⟨number, message, counted, unbroken, rfl⟩ | ⟨header, hfirst, rfl⟩
        · exact ⟨.single number message counted unbroken, rfl⟩
        · exact sound_reading_some (isOpen_opened hfirst)

/-- Every finding of a scan is that of some item. -/
theorem exists_item_of_mem_scan {body : Option Finding} (hbody : ∀ finding ∈ body, IsOpen finding)
    {lines : List String} (hlines : ∀ line ∈ lines, '\n' ∉ line.toList) {finding : Finding}
    (h : finding ∈ scan body lines) : ∃ item : Item, item.finding? = some finding := by
  induction lines generalizing body with
  | nil =>
      cases body with
      | none => cases h
      | some last =>
          -- the end of the lines completes the finding under way
          rw [scan, Option.toList_some, List.mem_singleton] at h
          exact h ▸ (hbody last rfl).exists_item
  | cons line lines ih =>
      obtain ⟨hline, hrest⟩ := List.forall_mem_cons.mp hlines
      have hsound : (accept body line).Sound := accept_sound hbody hline
      rw [scan_cons] at h
      split at h
      next found hacc =>
        rw [hacc] at hsound
        rcases List.mem_cons.mp h with rfl | h
        · exact hsound
        · exact ih sound_reading_none hrest h
      next next hacc =>
        rw [hacc] at hsound
        exact ih hsound hrest h

/-- Findings that are each that of some item are those of some items. -/
theorem exists_items {findings : List Finding}
    (h : ∀ finding ∈ findings, ∃ item : Item, item.finding? = some finding) :
    ∃ items : List Item, items.map Item.finding? = findings.map some := by
  induction findings with
  | nil => exact ⟨[], rfl⟩
  | cons finding findings ih =>
      obtain ⟨⟨item, hitem⟩, hrest⟩ := List.forall_mem_cons.mp h
      obtain ⟨items, hitems⟩ := ih hrest
      exact ⟨item :: items, by rw [List.map_cons, hitem, hitems, List.map_cons]⟩

/-! ### Round trips -/

theorem findingsOfText_write_crlf (items : List Item) :
    findingsOfText (write "\r\n" items) = items.filterMap Item.finding? := by
  rw [findingsOfText, findingsOfBytes_eq_scan, write, outputLines_crlf (lines_unbroken items),
    scan_flatMap_lines]

theorem findingsOfText_write_lf {items : List Item}
    (h : ∀ line ∈ items.flatMap Item.lines, line.toList.getLast? ≠ some '\r') :
    findingsOfText (write "\n" items) = items.filterMap Item.finding? := by
  rw [findingsOfText, findingsOfBytes_eq_scan, write, outputLines_lf (lines_unbroken items) h,
    scan_flatMap_lines]

/-- What is written is read back: the findings in a written output are those of its items, in
order, when its lines end in a carriage return and a line feed, and also when they end in a line
feed and none of them in a carriage return.  What is read could have been written: the findings in
any bytes are those of some items, which read back as the same findings when they are written. -/
theorem write_read_round_trip :
    (∀ items : List Item,
      findingsOfText (write "\r\n" items) = items.filterMap Item.finding? ∧
        ((∀ line ∈ items.flatMap Item.lines, line.toList.getLast? ≠ some '\r') →
          findingsOfText (write "\n" items) = items.filterMap Item.finding?)) ∧
      ∀ output : List UInt8, ∃ items : List Item,
        items.map Item.finding? = (findingsOfBytes output).map some ∧
          findingsOfText (write "\r\n" items) = findingsOfBytes output := by
  refine ⟨fun items => ⟨findingsOfText_write_crlf items, findingsOfText_write_lf⟩, ?_⟩
  intro output
  have himage : ∀ finding ∈ findingsOfBytes output,
      ∃ item : Item, item.finding? = some finding := by
    intro finding hmem
    rw [findingsOfBytes_eq_scan] at hmem
    exact exists_item_of_mem_scan (fun _ hnone => absurd hnone (Option.not_mem_none _))
      (outputLines_unbroken output) hmem
  -- these items are written, and read back as their findings
  obtain ⟨items, hitems⟩ := exists_items himage
  refine ⟨items, hitems, ?_⟩
  calc findingsOfText (write "\r\n" items)
      = (items.map Item.finding?).filterMap id := by
        rw [findingsOfText_write_crlf, List.filterMap_map]
        rfl
    _ = findingsOfBytes output := by
        rw [hitems, List.filterMap_map]
        exact List.filterMap_some

/-- A number that is no line, a finding with a colon in its message, and a body that looks like a
finding, with either line end. -/
theorem write_read_round_trip_mixed :
    let items : List Item :=
      [.noise "\tline 0: none" (by decide) (by rintro shape ⟨⟩),
        .single 7 "a: é\r." (by decide) (by decide),
        .range 2 5 "why" ["\tline 1: b", "line 3-4 (c):"] (by decide) (by decide) (by decide)
          (by decide)]
    let findings : List Finding :=
      [⟨6, " a: é\r."⟩,
        ⟨1, "Refactor lines 2-5 into new function: \n\tline 1: b\nline 3-4 (c):\n"⟩]
    (∀ line ∈ items.flatMap Item.lines, line.toList.getLast? ≠ some '\r') ∧
      findingsOfText (write "\r\n" items) = findings ∧
      findingsOfText (write "\n" items) = findings := by
  intro items findings
  have hlast : ∀ line ∈ items.flatMap Item.lines, line.toList.getLast? ≠ some '\r' := by
    decide +kernel
  have hfindings : items.filterMap Item.finding? = findings := by
    decide +kernel
  obtain ⟨hcrlf, hlf⟩ := write_read_round_trip.1 items
  rw [hfindings] at hcrlf hlf
  exact ⟨hlast, hcrlf, hlf hlast⟩

end Marginalia.Wire
