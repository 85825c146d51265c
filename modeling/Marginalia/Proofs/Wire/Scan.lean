import Marginalia.Proofs.Wire.Signals

/-!
Reading complete output is one scan over its lines.

`outputLines` cuts an output into lines at once, and `scan` goes through a list of lines once, with
the body under way as its only state.  Neither knows of feeds, chunks or calls.  A reader that is
asked again and again finds what the scan finds, however the output arrives
(`latching_reader_scans`); it takes every line exactly once, and then answers that there is nothing
more to every further call.

The step is one line (`readLine_of_bytes`), the run is one call (`read_of_bytes`), and the calls
until the output is exhausted follow by induction on their number.
-/

namespace Marginalia.Wire

/-! ### The lines of an output -/

/-- The pieces of an output between its line feeds.  An empty piece at the end is no line. -/
def rawLines (output : List UInt8) : List (List UInt8) :=
  let pieces := output.splitOn lineFeed
  if pieces.getLast? = some [] then pieces.dropLast else pieces

/-- The texts of the lines of an output. -/
def outputLines (output : List UInt8) : List String := (rawLines output).map lineText

theorem rawLines_of_not_mem {line : List UInt8} (h : lineFeed ∉ line) :
    rawLines line = if line = [] then [] else [line] := by
  rw [rawLines, List.splitOn_eq_singleton h]
  by_cases hline : line = [] <;> simp [hline]

theorem rawLines_append_lineFeed {line : List UInt8} (h : lineFeed ∉ line) (rest : List UInt8) :
    rawLines (line ++ lineFeed :: rest) = line :: rawLines rest := by
  have hne : rest.splitOn lineFeed ≠ [] := List.splitOn_ne_nil lineFeed rest
  rw [rawLines, List.splitOn_append_cons_self_of_not_mem h, rawLines]
  rw [List.getLast?_cons_of_ne_nil hne, List.dropLast_cons_of_ne_nil hne]
  split <;> rfl

/-- No line holds a line feed. -/
theorem not_mem_of_mem_rawLines {output line : List UInt8} (h : line ∈ rawLines output) :
    lineFeed ∉ line := by
  by_cases hmem : lineFeed ∈ output
  · obtain ⟨first, rest, rfl, hfirst⟩ := List.eq_append_cons_of_mem hmem
    rw [rawLines_append_lineFeed hfirst] at h
    rcases List.mem_cons.mp h with rfl | h
    · exact hfirst
    · exact not_mem_of_mem_rawLines h
  · rw [rawLines_of_not_mem hmem] at h
    split at h
    · cases h
    · rwa [List.mem_singleton.mp h]
  termination_by output.length
  decreasing_by
    rw [‹output = _›, List.length_append, List.length_cons]
    omega

/-! ### The scan -/

/-- The findings in a list of lines, inside the body of a range finding or outside of one. -/
def scan : Option Finding → List String → List Finding
  | body, [] => body.toList
  | none, line :: rest =>
      match classify line with
      | some (.ok (.single finding)) => finding :: scan none rest
      | some (.ok (.header header)) => scan (some header.opened) rest
      | some (.error _) => scan none rest
      | none => scan none rest
  | some body, line :: rest =>
      if line = "" then body :: scan none rest else scan (some (body.pushLine line)) rest

/-- The scan takes in one line as the readers do. -/
theorem scan_cons (body : Option Finding) (line : String) (rest : List String) :
    scan body (line :: rest)
      = match accept body line with
        | .complete finding => finding :: scan none rest
        | .reading body => scan body rest := by
  cases body with
  | none =>
      rw [scan, accept]
      rcases classify line with - | fault | (finding | header) <;> rfl
  | some finding =>
      rw [scan, accept]
      by_cases hline : line = ""
      · rw [if_pos hline, if_pos hline]
      · rw [if_neg hline, if_neg hline]

/-! ### One line -/

/-- Cutting bytes is taking the first of their lines. -/
theorem cut_bytes {line : List UInt8} (hline : lineFeed ∉ line) (bytes : List UInt8) :
    (∃ first left, lineFeed ∉ first ∧ line ++ bytes = first ++ lineFeed :: left ∧
        cut line (bytes.map .byte) = ⟨first, .newline, left.map .byte⟩) ∨
      lineFeed ∉ line ++ bytes ∧ cut line (bytes.map .byte) = ⟨line ++ bytes, .pause, []⟩ := by
  induction bytes generalizing line with
  | nil =>
      right
      rw [List.append_nil]
      exact ⟨hline, rfl⟩
  | cons b bytes ih =>
      rw [List.map_cons, cut]
      by_cases hb : b = lineFeed
      · left
        refine ⟨line, bytes, hline, ?_, ?_⟩
        · rw [hb]
        · rw [if_pos hb]
      · have hmore : lineFeed ∉ line ++ [b] := by
          simp [hline, Ne.symm hb]
        rw [if_neg hb, List.append_cons]
        exact ih hmore

namespace LatchingReader

/-- A line read from a feed that brings some bytes is their first line; if there is none, the bytes
are exhausted. -/
theorem readLine_of_bytes {feed : Feed} {bytes : List UInt8}
    (h : feed.uninterrupted = bytes.map .byte) :
    (∃ text rest left, readLine feed = (.line text, rest) ∧ rest.uninterrupted = left.map .byte ∧
        outputLines bytes = text :: outputLines left) ∨
      ∃ rest, readLine feed = (.nothing, rest) ∧ rest.uninterrupted = [] ∧ outputLines bytes = [] := by
  have hcut : (feed.take Failure.isInterruption []).cut Failure.isInterruption
      = cut [] (bytes.map .byte) := by
    rw [← h, Feed.uninterrupted, cut_reaching]
  rcases cut_bytes List.not_mem_nil bytes with
    ⟨first, left, hfirst, hbytes, hfound⟩ | ⟨hbytes, hfound⟩
  · left
    rw [hfound] at hcut
    obtain ⟨hline, hstop, hrest⟩ := Cut.mk.inj hcut
    refine ⟨lineText first, (feed.take Failure.isInterruption []).feed, left, ?_, hrest, ?_⟩
    · simp only [readLine, Taken.reply, hstop, hline]
    · rw [List.nil_append] at hbytes
      rw [outputLines, hbytes, rawLines_append_lineFeed hfirst]
      rfl
  · rw [hfound] at hcut
    obtain ⟨hline, hstop, hrest⟩ := Cut.mk.inj hcut
    rw [List.nil_append] at hbytes hline
    by_cases hnil : bytes = []
    · right
      refine ⟨(feed.take Failure.isInterruption []).feed, ?_, hrest, ?_⟩
      · simp only [readLine, Taken.reply, hstop, hline, hnil, if_true]
      · rw [hnil]
        rfl
    · left
      refine ⟨lineText bytes, (feed.take Failure.isInterruption []).feed, [], ?_, hrest, ?_⟩
      · simp only [readLine, Taken.reply, hstop, hline, hnil, if_false]
      · rw [outputLines, rawLines_of_not_mem hbytes, if_neg hnil]
        rfl

/-- A line that was read is the first one. -/
theorem of_readLine_line {feed rest : Feed} {bytes : List UInt8} {text : String}
    (h : feed.uninterrupted = bytes.map .byte) (hread : readLine feed = (.line text, rest)) :
    ∃ left, rest.uninterrupted = left.map .byte ∧ outputLines bytes = text :: outputLines left := by
  rcases readLine_of_bytes h with ⟨text', rest', left, hread', hrest, hlines⟩ | ⟨rest', hread', -⟩
  · rw [hread] at hread'
    cases hread'
    exact ⟨left, hrest, hlines⟩
  · rw [hread] at hread'
    cases hread'

/-- Where no line is read, there is none. -/
theorem of_readLine_nothing {feed rest : Feed} {bytes : List UInt8}
    (h : feed.uninterrupted = bytes.map .byte) (hread : readLine feed = (.nothing, rest)) :
    rest.uninterrupted = [] ∧ outputLines bytes = [] := by
  rcases readLine_of_bytes h with ⟨text, rest', left, hread', -⟩ | ⟨rest', hread', hrest, hlines⟩
  · rw [hread] at hread'
    cases hread'
  · rw [hread] at hread'
    cases hread'
    exact ⟨hrest, hlines⟩

/-- Bytes bring no failure. -/
theorem readLine_ne_failed {feed rest : Feed} {bytes : List UInt8} {cause : Failure}
    (h : feed.uninterrupted = bytes.map .byte) : readLine feed ≠ (.failed cause, rest) := by
  intro hread
  rcases readLine_of_bytes h with ⟨text, rest', left, hread', -⟩ | ⟨rest', hread', -⟩
  · rw [hread] at hread'
    cases hread'
  · rw [hread] at hread'
    cases hread'

/-! ### One call -/

/-- The lines that reading an answer takes off a feed. -/
def taken (body : Option Finding) (feed : Feed) : List String :=
  match _h : readLine feed with
  | (.failed _, _) => []
  | (.nothing, _) => []
  | (.line text, rest) =>
      match accept body text with
      | .complete _ => [text]
      | .reading body => text :: taken body rest
  termination_by feed.size
  decreasing_by exact size_of_readLine _h

/-- A call on a feed that brings some bytes answers with the first finding of the scan, and leaves
the bytes of the lines that it has not taken. -/
theorem read_of_bytes (body : Option Finding) {feed : Feed} {bytes : List UInt8}
    (h : feed.uninterrupted = bytes.map .byte) :
    ∃ left, (read body feed).2.uninterrupted = left.map .byte ∧
      outputLines bytes = taken body feed ++ outputLines left ∧
      ((∃ finding, (read body feed).1 = .finding finding ∧
          scan body (outputLines bytes) = finding :: scan none (outputLines left)) ∨
        (read body feed).1 = .ended ∧ scan body (outputLines bytes) = [] ∧
          outputLines left = []) := by
  fun_induction read body feed generalizing bytes with
  | case1 body feed cause rest hline => exact absurd hline (readLine_ne_failed h)
  | case2 body feed rest hline =>
      obtain ⟨hrest, hlines⟩ := of_readLine_nothing h hline
      refine ⟨[], hrest, ?_, ?_⟩
      · rw [taken, hline, hlines]
        rfl
      · -- at the end of the output a body under way is complete
        rw [hlines]
        cases body with
        | none => exact Or.inr ⟨rfl, rfl, rfl⟩
        | some finding => exact Or.inl ⟨finding, rfl, rfl⟩
  | case3 body feed text rest hline finding hacc =>
      obtain ⟨left, hrest, hlines⟩ := of_readLine_line h hline
      refine ⟨left, hrest, ?_, Or.inl ⟨finding, rfl, ?_⟩⟩
      · rw [taken, hlines, hline]
        simp [hacc]
      · rw [hlines, scan_cons, hacc]
  | case4 body feed text rest hline next hacc ih =>
      -- the line is taken, and the scan goes on as the call does
      obtain ⟨left, hrest, hlines⟩ := of_readLine_line h hline
      obtain ⟨left', hleft, htaken, hscan⟩ := ih hrest
      refine ⟨left', hleft, ?_, ?_⟩
      · rw [taken, hlines, htaken, hline]
        simp [hacc]
      · rw [hlines, scan_cons, hacc]
        exact hscan

/-! ### All calls -/

/-- The lines that each call takes off a feed, until a call finds nothing. -/
def takenByCalls (feed : Feed) : List (List String) :=
  match _h : read none feed with
  | (.finding _, rest) => taken none feed :: takenByCalls rest
  | (.ended, _) => [taken none feed]
  | (.failed _, _) => [taken none feed]
  termination_by feed.size
  decreasing_by exact size_of_read_finding _h

/-- The calls until one finds nothing take every line, each one once. -/
theorem flatten_takenByCalls {feed : Feed} {bytes : List UInt8}
    (h : feed.uninterrupted = bytes.map .byte) : (takenByCalls feed).flatten = outputLines bytes := by
  fun_induction takenByCalls feed generalizing bytes with
  | case1 feed finding rest hread ih =>
      obtain ⟨left, hleft, hlines, -⟩ := read_of_bytes none h
      rw [hread] at hleft
      rw [List.flatten_cons, ih hleft, hlines]
  | case2 feed rest hread =>
      obtain ⟨left, -, hlines, ⟨finding, hreply, -⟩ | ⟨-, -, hnil⟩⟩ := read_of_bytes none h
      · rw [hread] at hreply
        cases hreply
      · rw [hlines, hnil, List.flatten_singleton, List.append_nil]
  | case3 feed cause rest hread =>
      obtain ⟨left, -, -, ⟨finding, hreply, -⟩ | ⟨hreply, -⟩⟩ := read_of_bytes none h
      · rw [hread] at hreply
        cases hreply
      · rw [hread] at hreply
        cases hreply

/-- The next answer is the first finding of the scan, or that there is none. -/
theorem next_of_bytes {feed : Feed} {bytes : List UInt8} (h : feed.uninterrupted = bytes.map .byte) :
    ∃ rest left, rest.uninterrupted = left.map .byte ∧
      ((∃ finding, (ofFeed feed).next = (.finding finding, ofFeed rest) ∧
          scan none (outputLines bytes) = finding :: scan none (outputLines left)) ∨
        (ofFeed feed).next = (.ended, ofFeed rest) ∧ scan none (outputLines bytes) = [] ∧
          outputLines left = []) := by
  obtain ⟨left, hleft, -, hreply⟩ := read_of_bytes none h
  rcases hread : read none feed with ⟨reply, rest⟩
  rw [hread] at hleft hreply
  refine ⟨rest, left, hleft, ?_⟩
  rcases hreply with ⟨finding, rfl, hscan⟩ | ⟨rfl, hscan, hnil⟩
  · exact Or.inl ⟨finding, next_of_read hread, hscan⟩
  · exact Or.inr ⟨next_of_read hread, hscan, hnil⟩

/-- The answers to a number of calls are the findings of the scan, and then that there is nothing
more. -/
theorem answers_of_bytes {feed : Feed} {bytes : List UInt8} (h : feed.uninterrupted = bytes.map .byte)
    (calls : Nat) :
    (ofFeed feed).answers calls
      = ((scan none (outputLines bytes)).take calls).map .finding
        ++ List.replicate (calls - (scan none (outputLines bytes)).length) .ended := by
  induction calls generalizing feed bytes with
  | zero => simp [answers]
  | succ calls ih =>
      obtain ⟨rest, left, hleft, ⟨finding, hnext, hscan⟩ | ⟨hnext, hscan, hnil⟩⟩ := next_of_bytes h
      · rw [answers, hnext, hscan, List.take_succ_cons, List.map_cons, List.length_cons,
          Nat.add_sub_add_right]
        exact congrArg (Reply.finding finding :: ·) (ih hleft)
      · have hrest : (ofFeed rest).answers calls = List.replicate calls .ended := by
          simpa [hnil, scan] using ih hleft
        rw [answers, hnext, hscan]
        exact congrArg (Reply.ended :: ·) hrest

/-- All findings until the first answer that is none are those of the scan. -/
theorem drain_of_bytes {feed : Feed} {bytes : List UInt8} (h : feed.uninterrupted = bytes.map .byte) :
    (ofFeed feed).drain = scan none (outputLines bytes) := by
  let findings := scan none (outputLines bytes)
  have hanswers : (ofFeed feed).answers (findings.length + 1)
      = findings.map .finding ++ [.ended] := by
    rw [answers_of_bytes h, List.take_of_length_le (Nat.le_succ _), Nat.add_sub_cancel_left]
    rfl
  exact drain_of_answers hanswers nofun

end LatchingReader

/-! ### Whole outputs -/

/-- The signals of output that has arrived are its bytes. -/
theorem uninterrupted_ofBytes (output : List UInt8) :
    (Feed.ofBytes output).uninterrupted = output.map .byte := by
  rw [Feed.ofBytes, Feed.uninterrupted, Feed.reaching_mk]
  exact List.append_nil _

/-- The findings in complete output are those of the scan of its lines. -/
theorem findingsOfBytes_eq_scan (output : List UInt8) :
    findingsOfBytes output = scan none (outputLines output) :=
  LatchingReader.drain_of_bytes (uninterrupted_ofBytes output)

/-- The signals of chunks are their bytes in order. -/
theorem signals_chunks (chunks : List (List UInt8)) :
    (Feed.ofEvents (chunks.map .data)).signals = chunks.flatten.map .byte := by
  rw [Feed.signals_ofEvents]
  induction chunks with
  | nil => rfl
  | cons chunk chunks ih =>
      rw [List.map_cons, List.flatMap_cons, ih, List.flatten_cons, List.map_append]
      rfl

/-- A latching reader that is asked for findings scans the output.  However the output is cut into
chunks, the reader finds what the scan of its lines finds, answers so call by call and ends with the
last of them, and takes every line of the output exactly once. -/
theorem latching_reader_scans (chunks : List (List UInt8)) :
    let feed := Feed.ofEvents (chunks.map .data)
    let findings := scan none (outputLines chunks.flatten)
    (LatchingReader.ofFeed feed).drain = findings ∧
      (∀ calls, (LatchingReader.ofFeed feed).answers calls
        = (findings.take calls).map .finding
          ++ List.replicate (calls - findings.length) .ended) ∧
      (LatchingReader.takenByCalls feed).flatten = outputLines chunks.flatten := by
  intro feed findings
  have h : feed.uninterrupted = chunks.flatten.map .byte := by
    rw [Feed.uninterrupted, Feed.reaching, signals_chunks, filter_bytes]
  exact ⟨LatchingReader.drain_of_bytes h, LatchingReader.answers_of_bytes h,
    LatchingReader.flatten_takenByCalls h⟩

end Marginalia.Wire
