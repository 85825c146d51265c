import Marginalia.Analysis
import Marginalia.Proofs.Wire.Agreement
import Marginalia.Proofs.Wire.Scan

/-!
Output that is cut off.

When reading fails, the findings handed out until then are those of the lines that had ended
(`settle`); a line or a body under way brings nothing.  Those lines are the first lines of any
longer output, and the scan of a longer output goes on from where they leave it (`scan_append`).  So
what was handed out comes first among the findings of any output that begins in the same way.  The
end of output, in contrast, finishes the line and the body under way, which together bring at most
one more finding (`scan_unfinished`).

On signals, one call is `ask_of_failing` and all calls until the failure are
`throughFailure_replies`.  Both readers answer as the signals do, and `drain_of_failing` collects
their findings.
-/

namespace Marginalia.Wire

/-! ### Lines that have ended -/

/-- The texts of the lines of an output that a line feed has ended. -/
def endedLines (output : List UInt8) : List String :=
  (output.splitOn lineFeed).dropLast.map lineText

theorem endedLines_of_not_mem {line : List UInt8} (h : lineFeed ∉ line) : endedLines line = [] := by
  rw [endedLines, List.splitOn_eq_singleton h]
  rfl

theorem endedLines_append_lineFeed {line : List UInt8} (h : lineFeed ∉ line) (rest : List UInt8) :
    endedLines (line ++ lineFeed :: rest) = lineText line :: endedLines rest := by
  have hne : rest.splitOn lineFeed ≠ [] := List.splitOn_ne_nil lineFeed rest
  rw [endedLines, List.splitOn_append_cons_self_of_not_mem h, List.dropLast_cons_of_ne_nil hne]
  rfl

/-- The lines that have ended come first in every output that goes on from there, and what comes
after them begins with the bytes of one unfinished line. -/
theorem exists_unfinished (output : List UInt8) :
    ∃ line, lineFeed ∉ line ∧
      ∀ more, outputLines (output ++ more) = endedLines output ++ outputLines (line ++ more) := by
  by_cases hmem : lineFeed ∈ output
  · obtain ⟨first, rest, rfl, hfirst⟩ := List.eq_append_cons_of_mem hmem
    obtain ⟨line, hline, hlines⟩ := exists_unfinished rest
    refine ⟨line, hline, fun more => ?_⟩
    rw [endedLines_append_lineFeed hfirst, List.append_assoc, List.cons_append, outputLines,
      rawLines_append_lineFeed hfirst, List.map_cons, List.cons_append, ← hlines more]
    rfl
  · refine ⟨output, hmem, fun more => ?_⟩
    rw [endedLines_of_not_mem hmem]
    rfl
  termination_by output.length
  decreasing_by
    rw [‹output = _›, List.length_append, List.length_cons]
    omega

/-! ### The scan in two parts -/

/-- The findings that some lines complete, inside the body of a range finding or outside of one, and
the body under way after them. -/
def settle : Option Finding → List String → List Finding × Option Finding
  | body, [] => ([], body)
  | body, line :: rest =>
      match accept body line with
      | .complete finding => (finding :: (settle none rest).1, (settle none rest).2)
      | .reading body => settle body rest

theorem settle_cons_complete {body : Option Finding} {line : String} {finding : Finding}
    (h : accept body line = .complete finding) (rest : List String) :
    settle body (line :: rest) = (finding :: (settle none rest).1, (settle none rest).2) := by
  rw [settle, h]

theorem settle_cons_reading {body next : Option Finding} {line : String}
    (h : accept body line = .reading next) (rest : List String) :
    settle body (line :: rest) = settle next rest := by
  rw [settle, h]

/-- The scan of some lines and more is what the lines complete, and the scan of the rest inside the
body under way. -/
theorem scan_append (body : Option Finding) (lines more : List String) :
    scan body (lines ++ more) = (settle body lines).1 ++ scan (settle body lines).2 more := by
  induction lines generalizing body with
  | nil => rfl
  | cons line rest ih =>
      rw [List.cons_append, scan_cons]
      rcases hacc : accept body line with finding | next
      · rw [settle_cons_complete hacc]
        exact congrArg (finding :: ·) (ih none)
      · rw [settle_cons_reading hacc]
        exact ih next

/-- An unfinished line and a body under way bring at most one finding at the end of output. -/
theorem scan_unfinished (body : Option Finding) {line : List UInt8} (h : lineFeed ∉ line) :
    scan body (outputLines line) = [] ∨ ∃ last, scan body (outputLines line) = [last] := by
  have hnone : ∀ body, scan body [] = [] ∨ ∃ last, scan body [] = [last] := by
    intro body
    cases body with
    | none => exact Or.inl rfl
    | some finding => exact Or.inr ⟨finding, rfl⟩
  rw [outputLines, rawLines_of_not_mem h]
  by_cases hline : line = []
  · rw [if_pos hline]
    exact hnone body
  · rw [if_neg hline, List.map_singleton, scan_cons]
    rcases accept body (lineText line) with finding | next
    · exact Or.inr ⟨finding, rfl⟩
    · exact hnone next

/-! ### Calls until a failure -/

/-- The answers that hand out some findings and then report a failure. -/
def repliesUntil (findings : List Finding) (cause : Failure) : List Reply :=
  findings.map .finding ++ [.failed cause]

/-- What a call does on bytes followed by a failure: the next finding that the ended lines complete,
or the failure if they complete none. -/
theorem ask_of_failing {line : List UInt8} (hline : lineFeed ∉ line) (body : Option Finding)
    (bytes : List UInt8) (cause : Failure) (later : List Signal) :
    let asked := ask line body (bytes.map .byte ++ .failure cause :: later)
    let settled := (settle body (endedLines (line ++ bytes))).1
    (∃ finding left, asked = ⟨.finding finding, [], left.map .byte ++ .failure cause :: later⟩ ∧
        settled = finding :: (settle none (endedLines left)).1) ∨
      asked.reply = .failed cause ∧ settled = [] := by
  induction bytes generalizing line body with
  | nil =>
      right
      rw [List.append_nil, endedLines_of_not_mem hline]
      exact ⟨rfl, rfl⟩
  | cons b bytes ih =>
      intro asked settled
      -- a line feed ends the line, which the call takes in; any other byte is one more of it
      by_cases hb : b = lineFeed
      · subst hb
        have hsettled : settled = (settle body (lineText line :: endedLines bytes)).1 := by
          rw [← endedLines_append_lineFeed hline]
        have hasked : asked = askAfter line body (bytes.map .byte ++ .failure cause :: later) := by
          show ask line body (.byte lineFeed :: (bytes.map .byte ++ _)) = _
          rw [ask, if_pos rfl]
          rfl
        rw [hasked, hsettled, askAfter]
        rcases hacc : accept body (lineText line) with finding | next
        · left
          rw [settle_cons_complete hacc]
          exact ⟨finding, bytes, rfl, rfl⟩
        · rw [settle_cons_reading hacc]
          exact ih List.not_mem_nil next
      · have hmore : lineFeed ∉ line ++ [b] := by
          simp [hline, Ne.symm hb]
        have hsettled : settled = (settle body (endedLines (line ++ [b] ++ bytes))).1 := by
          rw [← List.append_cons]
        have hasked : asked
            = ask (line ++ [b]) body (bytes.map .byte ++ .failure cause :: later) := by
          show ask line body (.byte b :: (bytes.map .byte ++ _)) = _
          rw [ask, if_neg hb]
        rw [hasked, hsettled]
        exact ih hmore body

/-- Asked until it reports the failure, a reader hands out the findings that the ended lines
complete. -/
theorem throughFailure_replies (bytes : List UInt8) (cause : Failure) (later : List Signal)
    (calls : Nat) :
    throughFailure (replies [] (bytes.map .byte ++ .failure cause :: later) calls)
      = (repliesUntil (settle none (endedLines bytes)).1 cause).take calls := by
  induction calls generalizing bytes with
  | zero => rfl
  | succ calls ih =>
      rw [replies]
      rcases ask_of_failing List.not_mem_nil none bytes cause later with
        ⟨finding, left, hasked, hsettled⟩ | ⟨hreply, hsettled⟩
      · rw [List.nil_append] at hsettled
        rw [hasked, hsettled]
        exact congrArg (Reply.finding finding :: ·) (ih left)
      · -- answers after the failure are not heard
        rw [List.nil_append] at hsettled
        rw [hreply, hsettled, repliesUntil, List.map_nil, List.nil_append, List.take_succ_cons,
          List.take_nil]
        rfl

/-- The signals of chunks followed by a failure. -/
theorem signals_chunks_failure (chunks : List (List UInt8)) (cause : Failure) (later : List Event) :
    (Feed.ofEvents (chunks.map .data ++ .failure cause :: later)).signals
      = chunks.flatten.map .byte ++ .failure cause :: (Feed.ofEvents later).signals := by
  rw [← signals_chunks]
  simp only [Feed.signals_ofEvents, List.flatMap_append, List.flatMap_cons]
  rfl

/-- A failure that is no interruption reaches every reader. -/
theorem uninterrupted_chunks_failure (chunks : List (List UInt8)) (message : String)
    (later : List Event) :
    (Feed.ofEvents (chunks.map .data ++ .failure (.other message) :: later)).uninterrupted
      = chunks.flatten.map .byte
        ++ .failure (.other message) :: (Feed.ofEvents later).uninterrupted := by
  rw [Feed.uninterrupted, Feed.reaching, signals_chunks_failure, List.filter_append, filter_bytes]
  rfl

namespace LatchingReader

variable {feed : Feed} {bytes : List UInt8} {cause : Failure} {later : List Signal}

/-- The answers are the findings that the ended lines complete, then the failure, and then that
there is nothing more. -/
theorem answers_of_failing (h : feed.uninterrupted = bytes.map .byte ++ .failure cause :: later)
    (calls : Nat) :
    let heard := repliesUntil (settle none (endedLines bytes)).1 cause
    (ofFeed feed).answers calls
      = heard.take calls ++ List.replicate (calls - heard.length) .ended := by
  intro heard
  have hlength : calls - (heard.take calls).length = calls - heard.length := by
    rw [List.length_take]
    omega
  rw [latching_answers, h, throughFailure_replies, hlength]

/-- All findings until the failure are those that the ended lines complete. -/
theorem drain_of_failing (h : feed.uninterrupted = bytes.map .byte ++ .failure cause :: later) :
    (ofFeed feed).drain = (settle none (endedLines bytes)).1 := by
  let findings := (settle none (endedLines bytes)).1
  have hlength : (repliesUntil findings cause).length = findings.length + 1 := by
    rw [repliesUntil, List.length_append, List.length_map, List.length_singleton]
  have hanswers : (ofFeed feed).answers (findings.length + 1) = repliesUntil findings cause := by
    rw [answers_of_failing h, ← hlength, List.take_length, Nat.sub_self, List.replicate_zero,
      List.append_nil]
  exact drain_of_answers hanswers nofun

end LatchingReader

namespace ResumingReader

/-- A resuming reader drains the findings that it answers with before its first failure, if it gives
no other answer before that. -/
theorem drain_of_throughFailure {reader : ResumingReader} {calls : Nat} {findings : List Finding}
    {cause : Failure} (h : throughFailure (reader.answers calls) = repliesUntil findings cause) :
    reader.drain = (findings, some cause) := by
  fun_induction drain reader generalizing findings calls with
  | case1 reader finding rest hnext ih =>
      cases calls with
      | zero => cases findings <;> cases h
      | succ calls =>
          rw [answers, hnext, throughFailure] at h
          cases findings with
          | nil => cases h
          | cons first findings =>
              obtain ⟨hfirst, hrest⟩ := List.cons.inj h
              cases hfirst
              rw [ih hrest]
  | case2 reader rest hnext =>
      cases calls with
      | zero => cases findings <;> cases h
      | succ calls =>
          rw [answers, hnext, throughFailure] at h
          cases findings <;> cases h
  | case3 reader cause' rest hnext =>
      cases calls with
      | zero => cases findings <;> cases h
      | succ calls =>
          rw [answers, hnext, throughFailure] at h
          cases findings with
          | nil =>
              cases h
              rfl
          | cons first findings => cases h

/-- All findings until the failure are those that the ended lines complete. -/
theorem drain_of_failing {reader : ResumingReader} {bytes : List UInt8} {cause : Failure}
    {later : List Signal} (hkept : reader.unfinished = [])
    (h : reader.feed.signals = bytes.map .byte ++ .failure cause :: later) :
    reader.drain = ((settle none (endedLines bytes)).1, some cause) := by
  let heard := repliesUntil (settle none (endedLines bytes)).1 cause
  have hanswers : throughFailure (reader.answers heard.length) = heard := by
    rw [answers_eq_replies, hkept, h, throughFailure_replies, List.take_length]
  exact drain_of_throughFailure hanswers

end ResumingReader

/-! ### Output that is cut off and output that goes on -/

/-- The findings of the lines that have ended come first in every output that goes on. -/
theorem settle_isPrefix (output more : List UInt8) :
    (settle none (endedLines output)).1 <+: findingsOfBytes (output ++ more) := by
  obtain ⟨line, -, hlines⟩ := exists_unfinished output
  rw [findingsOfBytes_eq_scan, hlines, scan_append]
  exact List.prefix_append _ _

/-- At the end of output there is at most one more finding than its ended lines complete. -/
theorem findingsOfBytes_eq_settle (output : List UInt8) :
    let settled := (settle none (endedLines output)).1
    findingsOfBytes output = settled ∨ ∃ last, findingsOfBytes output = settled ++ [last] := by
  intro settled
  obtain ⟨line, hline, hlines⟩ := exists_unfinished output
  have hscan : findingsOfBytes output
      = settled ++ scan (settle none (endedLines output)).2 (outputLines line) := by
    rw [findingsOfBytes_eq_scan, ← scan_append]
    have := hlines []
    rw [List.append_nil, List.append_nil] at this
    rw [this]
  rw [hscan]
  rcases scan_unfinished (settle none (endedLines output)).2 hline with hnil | ⟨last, hlast⟩
  · left
    rw [hnil, List.append_nil]
  · exact Or.inr ⟨last, by rw [hlast]⟩

/-- A run that the time limit cuts off is reported as such, and its findings come first among those
the program would have brought, whatever it had printed next. -/
theorem report_of_running {b : Behaviour} (hrunning : b.ending = .running) {limit : Option UInt64}
    {report : Report} (h : b.report? limit = some report) (more : List UInt8) :
    report.truncated = true ∧ report.findings <+: findingsOfBytes (b.output ++ more) := by
  have hfeed : b.feed
      = Feed.ofEvents ([b.output].map .data ++ .failure (.other "deadline has elapsed") :: []) := by
    rw [Behaviour.feed, hrunning]
    rfl
  have hfindings : b.findings = (settle none (endedLines b.output)).1 := by
    rw [Behaviour.findings, hfeed,
      ResumingReader.drain_of_failing rfl (signals_chunks_failure [b.output] _ []),
      List.flatten_singleton]
  rw [Behaviour.report?, hrunning] at h
  dsimp only at h
  split at h
  · cases h
    exact ⟨rfl, hfindings ▸ settle_isPrefix b.output more⟩
  · cases h

/-- Output that is cut off brings no finding that the whole output would not bring at that place.

However the output arrives, and whatever comes after the failure, both readers hand out the same
findings until it, and the latching reader nothing more; for the resuming reader this is so where a
read was interrupted, too.  They come first among the findings of any output that begins with these
bytes.  If the output ends where it was cut off, it has these findings or one more. -/
theorem cut_off_output_findings (chunks : List (List UInt8)) (message : String)
    (later : List Event) (more : List UInt8) :
    let output := chunks.flatten
    let feed (cause : Failure) := Feed.ofEvents (chunks.map .data ++ .failure cause :: later)
    let handed := (LatchingReader.ofFeed (feed (.other message))).drain
    let heard := repliesUntil handed (.other message)
    (∀ cause, (ResumingReader.ofFeed (feed cause)).drain = (handed, some cause)) ∧
      (∀ calls, (LatchingReader.ofFeed (feed (.other message))).answers calls
        = heard.take calls ++ List.replicate (calls - heard.length) .ended) ∧
      handed <+: findingsOfBytes (output ++ more) ∧
      (findingsOfBytes output = handed ∨ ∃ last, findingsOfBytes output = handed ++ [last]) := by
  intro output feed handed heard
  have hreaching := uninterrupted_chunks_failure chunks message later
  have hhanded : handed = (settle none (endedLines output)).1 :=
    LatchingReader.drain_of_failing hreaching
  refine ⟨?_, ?_, ?_, ?_⟩
  · intro cause
    rw [hhanded]
    exact ResumingReader.drain_of_failing rfl (signals_chunks_failure chunks cause later)
  · intro calls
    simp only [heard, hhanded]
    exact LatchingReader.answers_of_failing hreaching calls
  · rw [hhanded]
    exact settle_isPrefix output more
  · rw [hhanded]
    exact findingsOfBytes_eq_settle output

end Marginalia.Wire
