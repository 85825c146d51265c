import Mathlib.Data.List.DropRight
import Marginalia.Proofs.Wire.Signals

/-!
Everything a resuming reader will answer, read off the signals in one pass.

A call ends at an answer, but the signals do not show where calls end.  Between two signals a reader
stands at a `Place`: the bytes of the line under way and the body under way.  Each signal brings at
most one answer and moves the reader to the next place (`Place.read`), so a run over the signals is
a machine with output.  Its output, with what the end of the feed brings, is the `transcript`, and
the answers to any number of calls are the transcript, and then that there is nothing more
(`ResumingReader.answers_eq_inCalls`).

The line under way is told by the signals themselves: it is the bytes since the last end of a line
(`Place.line_run_start`).
-/

namespace Marginalia.Wire

/-! ### Signals of one line -/

namespace Signal

/-- Whether a signal ends a line: a line feed, or a read that brings nothing.  Such a read hands out
an unfinished line; where there is none, it comes right after the end of a line. -/
def endsLine : Signal → Bool
  | byte b => b == lineFeed
  | failure _ => false
  | pause => true

/-- Whether a signal is a failure. -/
def isFailure : Signal → Bool := failsWith fun _ => true

/-- The byte that a signal brings. -/
def byte? : Signal → Option UInt8
  | byte b => some b
  | failure _ => none
  | pause => none

theorem isFailure_of_endsLine {signal : Signal} (h : signal.endsLine = true) :
    signal.isFailure = false := by
  cases signal with
  | byte b => rfl
  | failure cause => cases h
  | pause => rfl

theorem isFailure_iff {signal : Signal} :
    signal.isFailure = true ↔ ∃ cause, signal = .failure cause := by
  cases signal <;> simp [isFailure, failsWith]

end Signal

/-- The bytes of the line that some signals leave unfinished: those after the last end of a line. -/
def unfinishedLine (signals : List Signal) : List UInt8 :=
  (signals.rtakeWhile fun signal => !signal.endsLine).filterMap Signal.byte?

theorem unfinishedLine_concat (signals : List Signal) (signal : Signal) :
    unfinishedLine (signals ++ [signal])
      = if signal.endsLine then [] else unfinishedLine signals ++ signal.byte?.toList := by
  rw [unfinishedLine, List.rtakeWhile_concat, unfinishedLine]
  rcases hends : signal.endsLine
  · rcases hbyte : signal.byte? <;> simp [hbyte]
  · rfl

/-! ### Places -/

/-- Where a reader stands between two signals: the bytes of the line under way, and the finding
whose body is under way. -/
structure Place where
  line : List UInt8
  body : Option Finding

namespace Place

/-- The place of a fresh reader. -/
def start : Place := ⟨[], none⟩

/-- Take in the line under way. -/
def endLine (p : Place) : List Reply × Place :=
  match accept p.body (lineText p.line) with
  | .complete finding => ([.finding finding], start)
  | .reading body => ([], ⟨[], body⟩)

/-- What one signal brings, and the place after it. -/
def read (p : Place) : Signal → List Reply × Place
  | .byte b => if b = lineFeed then p.endLine else ([], ⟨p.line ++ [b], p.body⟩)
  | .failure cause => ([.failed cause], ⟨p.line, none⟩)
  | .pause => if p.line = [] then ([conclude p.body], start) else p.endLine

/-- What some signals bring, and the place after them. -/
def run (p : Place) : List Signal → List Reply × Place
  | [] => ([], p)
  | signal :: rest =>
      ((p.read signal).1 ++ ((p.read signal).2.run rest).1, ((p.read signal).2.run rest).2)

/-- What the end of the feed brings: it ends the line under way, and the body. -/
def remaining (p : Place) : List Reply :=
  let ended := if p.line = [] then ([], p) else p.endLine
  ended.1 ++ ended.2.body.toList.map .finding

/-- Everything that signals bring until nothing more comes. -/
def transcript (p : Place) (signals : List Signal) : List Reply :=
  (p.run signals).1 ++ (p.run signals).2.remaining

variable (p : Place)

theorem run_append (a b : List Signal) :
    p.run (a ++ b) = ((p.run a).1 ++ ((p.run a).2.run b).1, ((p.run a).2.run b).2) := by
  induction a generalizing p with
  | nil => rfl
  | cons signal rest ih => rw [List.cons_append, run, run, ih, List.append_assoc]

theorem run_concat (signals : List Signal) (signal : Signal) :
    p.run (signals ++ [signal])
      = ((p.run signals).1 ++ ((p.run signals).2.read signal).1,
          ((p.run signals).2.read signal).2) := by
  rw [run_append, run, run, List.append_nil]

theorem transcript_append (a b : List Signal) :
    p.transcript (a ++ b) = (p.run a).1 ++ (p.run a).2.transcript b := by
  rw [transcript, run_append, transcript, List.append_assoc]

theorem transcript_cons (signal : Signal) (rest : List Signal) :
    p.transcript (signal :: rest) = (p.read signal).1 ++ (p.read signal).2.transcript rest := by
  rw [transcript, run, transcript, List.append_assoc]

/-! ### One signal -/

theorem endLine_of_complete {p : Place} {finding : Finding}
    (h : accept p.body (lineText p.line) = .complete finding) :
    p.endLine = ([.finding finding], start) := by
  rw [endLine, h]

theorem endLine_of_reading {p : Place} {body : Option Finding}
    (h : accept p.body (lineText p.line) = .reading body) : p.endLine = ([], ⟨[], body⟩) := by
  rw [endLine, h]

/-- The end of a line brings at most one answer, and never a failure. -/
theorem endLine_brings : p.endLine.1 = [] ∨ ∃ finding, p.endLine.1 = [.finding finding] := by
  rcases hacc : accept p.body (lineText p.line) with finding | body
  · exact Or.inr ⟨finding, by rw [endLine_of_complete hacc]⟩
  · exact Or.inl (by rw [endLine_of_reading hacc])

theorem line_endLine : p.endLine.2.line = [] := by
  rcases hacc : accept p.body (lineText p.line) with finding | body
  · rw [endLine_of_complete hacc]
    rfl
  · rw [endLine_of_reading hacc]

/-- A signal that is no failure brings at most one answer, and no failure. -/
theorem read_brings {signal : Signal} (h : signal.isFailure = false) :
    (p.read signal).1 = [] ∨
      ∃ reply, (p.read signal).1 = [reply] ∧ reply.isFailure = false := by
  have hend : p.endLine.1 = [] ∨ ∃ reply, p.endLine.1 = [reply] ∧ reply.isFailure = false := by
    rcases p.endLine_brings with hnil | ⟨finding, hfinding⟩
    · exact Or.inl hnil
    · exact Or.inr ⟨_, hfinding, rfl⟩
  cases signal with
  | byte b =>
      rw [read]
      split
      · exact hend
      · exact Or.inl rfl
  | failure cause => cases h
  | pause =>
      rw [read]
      split
      · refine Or.inr ⟨conclude p.body, rfl, ?_⟩
        cases p.body <;> rfl
      · exact hend

theorem line_read (signal : Signal) :
    (p.read signal).2.line = if signal.endsLine then [] else p.line ++ signal.byte?.toList := by
  cases signal with
  | byte b =>
      rw [read]
      by_cases hb : b = lineFeed
      · rw [if_pos hb, line_endLine, Signal.endsLine, beq_iff_eq.mpr hb]
        rfl
      · rw [if_neg hb, Signal.endsLine, beq_eq_false_iff_ne.mpr hb]
        rfl
  | failure cause => exact (List.append_nil p.line).symm
  | pause =>
      rw [read]
      split
      · rfl
      · exact p.line_endLine

/-- The line under way is the bytes since the last end of a line. -/
theorem line_run_start (signals : List Signal) :
    (start.run signals).2.line = unfinishedLine signals := by
  induction signals using List.reverseRecOn with
  | nil => rfl
  | append_singleton signals signal ih => rw [run_concat, line_read, unfinishedLine_concat, ih]

/-- Bytes without a line feed are added to the line under way. -/
theorem run_bytes {bytes : List UInt8} (h : lineFeed ∉ bytes) :
    p.run (bytes.map .byte) = ([], ⟨p.line ++ bytes, p.body⟩) := by
  induction bytes generalizing p with
  | nil =>
      rw [List.append_nil]
      rfl
  | cons b bytes ih =>
      have hb : b ≠ lineFeed := fun heq => h (heq ▸ List.mem_cons_self)
      have hbytes : lineFeed ∉ bytes := fun hmem => h (List.mem_cons_of_mem b hmem)
      rw [List.map_cons, run, read, if_neg hb, ih _ hbytes]
      exact Prod.ext rfl (congrArg (Place.mk · p.body) (List.append_assoc ..))

theorem lineFeed_not_mem_unfinishedLine (signals : List Signal) :
    lineFeed ∉ unfinishedLine signals := by
  intro hmem
  obtain ⟨signal, hsignal, hbyte⟩ := List.mem_filterMap.mp hmem
  have hends := List.mem_rtakeWhile_imp hsignal
  cases signal with
  | byte b =>
      cases hbyte
      cases hends
  | failure cause => cases hbyte
  | pause => cases hbyte

end Place

/-! ### The answers to calls -/

/-- The answers to a number of calls that hand out some replies, and then that there is nothing
more. -/
def inCalls (replies : List Reply) (calls : Nat) : List Reply :=
  replies.take calls ++ List.replicate (calls - replies.length) .ended

theorem inCalls_zero (replies : List Reply) : inCalls replies 0 = [] := by
  rw [inCalls, List.take_zero, Nat.zero_sub, List.replicate_zero, List.append_nil]

theorem inCalls_nil (calls : Nat) : inCalls [] calls = List.replicate calls .ended := by
  rw [inCalls, List.take_nil, List.length_nil, Nat.sub_zero, List.nil_append]

theorem inCalls_cons (reply : Reply) (replies : List Reply) (calls : Nat) :
    inCalls (reply :: replies) (calls + 1) = reply :: inCalls replies calls := by
  rw [inCalls, List.take_succ_cons, List.length_cons, Nat.add_sub_add_right]
  rfl

/-- An answer other than the end is a reply that was handed out. -/
theorem exists_of_inCalls {replies earlier : List Reply} {reply : Reply}
    (h : inCalls replies (earlier.length + 1) = earlier ++ [reply]) (hreply : reply ≠ .ended) :
    ∃ later, replies = earlier ++ reply :: later := by
  rw [inCalls] at h
  rcases hmissing : earlier.length + 1 - replies.length with - | missing
  · rw [hmissing, List.replicate_zero, List.append_nil] at h
    refine ⟨replies.drop (earlier.length + 1), ?_⟩
    rw [List.append_cons, ← h, List.take_append_drop]
  · -- there were fewer replies than calls, so the last answer was the end
    rw [hmissing, List.replicate_succ', ← List.append_assoc] at h
    exact absurd (List.singleton_inj.mp (List.append_inj' h rfl).2).symm hreply

theorem inCalls_append (a b : List Reply) (calls : Nat) :
    inCalls (a ++ b) (a.length + calls) = a ++ inCalls b calls := by
  rw [inCalls, List.take_length_add_append, List.length_append, Nat.add_sub_add_left,
    List.append_assoc]
  rfl

/-- A call answers with the first reply of the transcript and leaves the rest of it.  Where the
transcript is empty, it answers that there is nothing. -/
theorem transcript_eq_cons_or_nil (p : Place) (signals : List Signal) :
    let asked := ask p.line p.body signals
    p.transcript signals = asked.reply :: Place.transcript ⟨asked.unfinished, none⟩ asked.rest ∨
      p.transcript signals = [] ∧ asked = ⟨.ended, [], []⟩ := by
  induction signals generalizing p with
  | nil =>
      obtain ⟨line, body⟩ := p
      rw [ask, Place.transcript, Place.run, Place.remaining]
      by_cases hline : line = []
      · rw [if_pos hline, if_pos hline]
        cases body with
        | none => exact Or.inr ⟨rfl, rfl⟩
        | some finding => exact Or.inl rfl
      · rw [if_neg hline, if_neg hline, Place.endLine]
        dsimp only
        rcases accept body (lineText line) with finding | (- | finding)
        · exact Or.inl rfl
        · exact Or.inr ⟨rfl, rfl⟩
        · exact Or.inl rfl
  | cons signal rest ih =>
      -- a line that ends is taken in, and the call goes on if that brings nothing
      have hend : let asked := askAfter p.line p.body rest
          p.endLine.1 ++ p.endLine.2.transcript rest
              = asked.reply :: Place.transcript ⟨asked.unfinished, none⟩ asked.rest ∨
            p.endLine.1 ++ p.endLine.2.transcript rest = [] ∧ asked = ⟨.ended, [], []⟩ := by
        intro asked
        rcases hacc : accept p.body (lineText p.line) with finding | body
        · left
          simp only [asked, askAfter, Place.endLine, hacc]
          rfl
        · simp only [asked, askAfter, Place.endLine, hacc]
          exact ih ⟨[], body⟩
      rw [Place.transcript_cons]
      cases signal with
      | byte b =>
          rw [ask, Place.read]
          by_cases hb : b = lineFeed
          · rw [if_pos hb, if_pos hb]
            exact hend
          · rw [if_neg hb, if_neg hb]
            exact ih ⟨p.line ++ [b], p.body⟩
      | failure cause => exact Or.inl rfl
      | pause =>
          rw [ask, Place.read]
          by_cases hline : p.line = []
          · rw [if_pos hline, if_pos hline]
            exact Or.inl rfl
          · rw [if_neg hline, if_neg hline]
            exact hend

/-- Calls answer with the transcript, and then that there is nothing more. -/
theorem replies_eq_inCalls (line : List UInt8) (signals : List Signal) (calls : Nat) :
    replies line signals calls = inCalls (Place.transcript ⟨line, none⟩ signals) calls := by
  induction calls generalizing line signals with
  | zero =>
      rw [replies, inCalls_zero]
  | succ calls ih =>
      rw [replies]
      rcases transcript_eq_cons_or_nil ⟨line, none⟩ signals with hcons | ⟨hnil, hasked⟩
      · rw [hcons, inCalls_cons, ← ih]
      · have hleft : Place.transcript ⟨[], none⟩ [] = [] := rfl
        rw [hnil, hasked, ih, hleft, inCalls_nil, inCalls_nil]
        rfl

/-- The answers of a reader are the transcript of its signals. -/
theorem ResumingReader.answers_eq_inCalls (events : List Event) (calls : Nat) :
    (ofFeed (Feed.ofEvents events)).answers calls
      = inCalls (Place.start.transcript (Feed.ofEvents events).signals) calls :=
  (answers_eq_replies _ calls).trans (replies_eq_inCalls [] _ calls)

end Marginalia.Wire
