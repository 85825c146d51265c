import Marginalia.Proofs.Wire.Scan
import Marginalia.Proofs.Wire.Transcript

/-!
A resuming reader goes on after a failure without loss.

A failure leaves the bytes of the unfinished line under way and no body.  So the calls after it are
answered as on a feed that brings these bytes first (`ResumingReader.answers_of_failure`).

Outside of bodies a failure changes nothing: on the feed without such failures a reader hands out
the same, less that they are reported (`Place.run_filter`).  Inside of a body the header and the
whole lines after it are lost (`Lost`).  That a body under way consists of these and nothing else
is an invariant of the signals read (`Place.exists_lost`); on the feed without them a reader is in
the end where the failure leaves it.
-/

namespace Marginalia.Wire

/-! ### Failures in a feed -/

/-- Whether an event is a failure. -/
def Event.isFailure : Event → Bool := failsWith fun _ => true

/-- The event that brings one signal. -/
def Signal.event : Signal → Event
  | byte b => .data [b]
  | failure cause => .failure cause
  | pause => .pause

theorem flatMap_signals_event (signals : List Signal) :
    (signals.map Signal.event).flatMap Event.signals = signals := by
  induction signals with
  | nil => rfl
  | cons signal rest ih =>
      rw [List.map_cons, List.flatMap_cons, ih]
      cases signal <;> rfl

/-- A failure among the signals of some events is one of the events. -/
theorem exists_failure_event {events : List Event} {before later : List Signal} {cause : Failure}
    (h : events.flatMap Event.signals = before ++ .failure cause :: later) :
    ∃ a b, events = a ++ .failure cause :: b ∧ a.flatMap Event.signals = before ∧
      b.flatMap Event.signals = later := by
  induction events generalizing before with
  | nil => cases before <;> cases h
  | cons event events ih =>
      rw [List.flatMap_cons] at h
      -- the event comes before the failure, or is the failure
      have hbefore : ∀ {more}, before = event.signals ++ more →
          events.flatMap Event.signals = more ++ .failure cause :: later →
          ∃ a b, event :: events = a ++ .failure cause :: b ∧
            a.flatMap Event.signals = before ∧ b.flatMap Event.signals = later := by
        rintro more rfl hmore
        obtain ⟨a, b, rfl, rfl, hb⟩ := ih hmore
        exact ⟨event :: a, b, rfl, rfl, hb⟩
      cases event with
      | data bytes =>
          rcases List.append_eq_append_iff.mp h with ⟨more, hmore, hrest⟩ | ⟨more, hbytes, hrest⟩
          · exact hbefore hmore hrest
          · cases more with
            | nil =>
                rw [List.append_nil] at hbytes
                refine @hbefore [] ?_ hrest.symm
                rw [List.append_nil]
                exact hbytes.symm
            | cons signal more =>
                have hmem : .failure cause ∈ bytes.map Signal.byte := by
                  rw [show bytes.map Signal.byte = _ from hbytes, (List.cons.inj hrest).1]
                  exact List.mem_append_right _ List.mem_cons_self
                cases failsWith_of_mem_bytes (fun _ => true) hmem
      | failure cause' =>
          cases before with
          | nil =>
              cases h
              exact ⟨[], events, rfl, rfl, rfl⟩
          | cons first before =>
              obtain ⟨rfl, hrest⟩ := List.cons.inj h
              exact hbefore rfl hrest
      | pause =>
          cases before with
          | nil => cases (List.cons.inj h).1
          | cons first before =>
              obtain ⟨rfl, hrest⟩ := List.cons.inj h
              exact hbefore rfl hrest

theorem countP_signals (events : List Event) :
    (events.flatMap Event.signals).countP Signal.isFailure = events.countP Event.isFailure := by
  induction events with
  | nil => rfl
  | cons event events ih =>
      rw [List.flatMap_cons, List.countP_append, ih, List.countP_cons, Nat.add_comm]
      cases event with
      | data bytes =>
          have hnone : (Event.data bytes).signals.countP Signal.isFailure = 0 := by
            rw [List.countP_eq_zero]
            exact fun signal hsignal => ne_true_of_eq_false (failsWith_of_mem_bytes _ hsignal)
          rw [hnone]
          rfl
      | failure cause => rfl
      | pause => rfl

/-- The answers that are no failures. -/
def heard (answers : List Reply) : List Reply := answers.filter fun reply => !reply.isFailure

theorem heard_append (a b : List Reply) : heard (a ++ b) = heard a ++ heard b :=
  List.filter_append ..

theorem heard_cons_of_failure {reply : Reply} (h : reply.isFailure = true) (rest : List Reply) :
    heard (reply :: rest) = heard rest :=
  List.filter_cons_of_neg (by simp [h])

theorem heard_cons_of_not {reply : Reply} (h : reply.isFailure = false) (rest : List Reply) :
    heard (reply :: rest) = reply :: heard rest :=
  List.filter_cons_of_pos (by simp [h])

namespace Place

variable (p : Place)

/-! ### After a failure -/

/-- What comes after some bytes of a line is read as if the line had only begun. -/
theorem transcript_of_line {line : List UInt8} (h : lineFeed ∉ line) (later : List Signal) :
    start.transcript (line.map .byte ++ later) = transcript ⟨line, none⟩ later := by
  rw [transcript_append, run_bytes start h]
  rfl

/-- After a failure a reader goes on like a fresh one that first meets the bytes of the unfinished
line. -/
theorem transcript_failure (before later : List Signal) (cause : Failure) :
    start.transcript (before ++ .failure cause :: later)
      = (start.run before).1 ++ .failed cause
          :: start.transcript ((unfinishedLine before).map .byte ++ later) := by
  have hline : lineFeed ∉ unfinishedLine before := lineFeed_not_mem_unfinishedLine before
  rw [transcript_append, transcript_cons, transcript_of_line hline, ← line_run_start]
  rfl

/-- What the end of the feed brings is no failure. -/
theorem isFailure_of_mem_remaining {reply : Reply} (h : reply ∈ p.remaining) :
    reply.isFailure = false := by
  rw [remaining] at h
  rcases List.mem_append.mp h with h | h
  · split at h
    · cases h
    · rcases p.endLine_brings with hnil | ⟨finding, hfinding⟩
      · rw [hnil] at h
        cases h
      · rw [hfinding] at h
        rw [List.mem_singleton.mp h]
        rfl
  · obtain ⟨finding, -, rfl⟩ := List.mem_map.mp h
    rfl

/-- A failure in the transcript is that of a failure among the signals, after what the signals
before it brought. -/
theorem exists_failure_signal {signals : List Signal} {a b : List Reply} {cause : Failure}
    (h : p.transcript signals = a ++ .failed cause :: b) :
    ∃ before later, signals = before ++ .failure cause :: later ∧ (p.run before).1 = a := by
  induction signals generalizing p a with
  | nil =>
      have hmem : .failed cause ∈ p.remaining := by
        rw [transcript, run, List.nil_append] at h
        rw [h]
        exact List.mem_append_right _ List.mem_cons_self
      cases p.isFailure_of_mem_remaining hmem
  | cons signal rest ih =>
      rw [transcript_cons] at h
      -- the failure is among the signals after this one if its reply comes after what this brings
      have hnext : ∀ {more}, a = (p.read signal).1 ++ more →
          (p.read signal).2.transcript rest = more ++ .failed cause :: b →
          ∃ before later, signal :: rest = before ++ .failure cause :: later ∧
            (p.run before).1 = a := by
        rintro more rfl hmore
        obtain ⟨before, later, rfl, rfl⟩ := ih _ hmore
        exact ⟨signal :: before, later, rfl, rfl⟩
      rcases hfailure : signal.isFailure
      · rcases p.read_brings hfailure with hnil | ⟨reply, hreply, hno⟩
        · rw [hnil] at h hnext
          exact hnext rfl h
        · rw [hreply] at h hnext
          cases a with
          | nil =>
              rw [(List.cons.inj h).1] at hno
              cases hno
          | cons first a =>
              obtain ⟨rfl, ha⟩ := List.cons.inj h
              exact hnext rfl ha
      · obtain ⟨cause', rfl⟩ := Signal.isFailure_iff.mp hfailure
        cases a with
        | nil =>
            cases (List.cons.inj h).1
            exact ⟨[], rest, rfl, rfl⟩
        | cons first a =>
            obtain ⟨rfl, ha⟩ := List.cons.inj h
            exact hnext rfl ha

/-- Each failure is reported once. -/
theorem countP_run (signals : List Signal) :
    (p.run signals).1.countP Reply.isFailure = signals.countP Signal.isFailure := by
  induction signals generalizing p with
  | nil => rfl
  | cons signal rest ih =>
      rw [run, List.countP_append, ih, List.countP_cons, Nat.add_comm]
      congr 1
      rcases hfailure : signal.isFailure
      · rcases p.read_brings hfailure with hnil | ⟨reply, hreply, hno⟩
        · rw [hnil]
          rfl
        · rw [hreply, List.countP_singleton, hno]
      · obtain ⟨cause, rfl⟩ := Signal.isFailure_iff.mp hfailure
        rfl

/-! ### Failures outside of bodies -/

/-- A failure outside of bodies leaves a reader where it is, so without such failures it reads the
same, less that they are reported. -/
theorem run_filter {signals : List Signal}
    (h : ∀ before cause later, signals = before ++ .failure cause :: later →
      (p.run before).2.body = none) :
    p.run (signals.filter fun signal => !signal.isFailure)
      = (heard (p.run signals).1, (p.run signals).2) := by
  induction signals generalizing p with
  | nil => rfl
  | cons signal rest ih =>
      have hrest : ∀ before cause later, rest = before ++ .failure cause :: later →
          ((p.read signal).2.run before).2.body = none := by
        rintro before cause later rfl
        exact h (signal :: before) cause later rfl
      rw [run, heard_append]
      rcases hfailure : signal.isFailure
      · have hkept : heard (p.read signal).1 = (p.read signal).1 := by
          rcases p.read_brings hfailure with hnil | ⟨reply, hreply, hno⟩
          · rw [hnil]
            rfl
          · rw [hreply]
            exact heard_cons_of_not hno []
        rw [List.filter_cons_of_pos (by simp [hfailure]), run, ih _ hrest, hkept]
      · obtain ⟨cause, rfl⟩ := Signal.isFailure_iff.mp hfailure
        have hp : (p.read (.failure cause)).2 = p :=
          congrArg (Place.mk p.line) (h [] cause rest rfl).symm
        rw [List.filter_cons_of_neg (by simp [hfailure]), hp]
        rw [hp] at hrest
        exact ih p hrest

end Place

/-! ### Failures inside of a body -/

/-- The signals of a whole line: what came before its end, and what ended it. -/
structure WholeLine where
  content : List Signal
  last : Signal
  unended : ∀ signal ∈ content, signal.endsLine = false
  ended : last.endsLine = true

namespace WholeLine

/-- The signals of a line in order. -/
def signals (line : WholeLine) : List Signal := line.content ++ [line.last]

/-- The text of a line.  A failure in it leaves no trace. -/
def text (line : WholeLine) : String := lineText (line.content.filterMap Signal.byte?)

/-- A line of bytes without a line feed. -/
def ofBytes {bytes : List UInt8} (h : lineFeed ∉ bytes) (last : Signal)
    (ended : last.endsLine = true) : WholeLine where
  content := bytes.map .byte
  last := last
  unended := by
    intro signal hsignal
    obtain ⟨b, hb, rfl⟩ := List.mem_map.mp hsignal
    exact beq_eq_false_iff_ne.mpr fun heq => h (heq ▸ hb)
  ended := ended

end WholeLine

/-- What is lost of the body under way after some signals: a header, and whole lines after it, none
of them empty and none with a failure in it.  What comes after them is an unfinished line. -/
structure Lost (before : List Signal) (finding : Finding) (outside : List Signal)
    (opening : WholeLine) (lines : List WholeLine) : Prop where
  fresh : unfinishedLine outside = []
  split : before = outside ++ opening.signals ++ lines.flatMap WholeLine.signals
    ++ (unfinishedLine before).map .byte
  opens : ∃ header, classify opening.text = some (.ok (.header header)) ∧
    finding = (lines.map WholeLine.text).foldl Finding.pushLine header.opened
  nonempty : ∀ line ∈ lines, line.text ≠ ""
  unbroken : ∀ line ∈ lines, ∀ signal ∈ line.signals, signal.isFailure = false

/-- A body is under way after a line when the line is its header or one of its lines. -/
theorem accept_eq_reading_some {body : Option Finding} {line : String} {finding : Finding}
    (h : accept body line = .reading (some finding)) :
    (body = none ∧ ∃ header, classify line = some (.ok (.header header)) ∧
        finding = header.opened) ∨
      ∃ earlier, body = some earlier ∧ line ≠ "" ∧ finding = earlier.pushLine line := by
  cases body with
  | none =>
      left
      rw [accept] at h
      rcases hclass : classify line with - | fault | (single | header)
      · rw [hclass] at h
        cases h
      · rw [hclass] at h
        cases h
      · rw [hclass] at h
        cases h
      · rw [hclass] at h
        cases h
        exact ⟨rfl, header, rfl, rfl⟩
  | some earlier =>
      right
      rw [accept] at h
      split at h
      · cases h
      next hne =>
        cases h
        exact ⟨earlier, rfl, hne, rfl⟩

namespace Place

/-- Signals that end no line add their bytes to the line under way.  Their failures alone are met in
the same way, whatever line is under way. -/
theorem run_unended (body : Option Finding) {content : List Signal}
    (h : ∀ signal ∈ content, signal.endsLine = false) :
    ∃ replies left, ∀ line, run ⟨line, body⟩ content
        = (replies, ⟨line ++ content.filterMap Signal.byte?, left⟩) ∧
      run ⟨line, body⟩ (content.filter Signal.isFailure) = (replies, ⟨line, left⟩) := by
  induction content generalizing body with
  | nil =>
      refine ⟨[], body, fun line => ⟨?_, rfl⟩⟩
      rw [List.filterMap_nil, List.append_nil]
      rfl
  | cons signal content ih =>
      obtain ⟨hsignal, hcontent⟩ := List.forall_mem_cons.mp h
      cases signal with
      | byte b =>
          have hb : b ≠ lineFeed := beq_eq_false_iff_ne.mp hsignal
          obtain ⟨replies, left, hrun⟩ := ih body hcontent
          refine ⟨replies, left, fun line => ⟨?_, (hrun line).2⟩⟩
          rw [run, read, if_neg hb]
          dsimp only
          rw [(hrun _).1, List.filterMap_cons, List.append_assoc]
          rfl
      | failure cause =>
          obtain ⟨replies, left, hrun⟩ := ih none hcontent
          refine ⟨.failed cause :: replies, left, fun line => ⟨?_, ?_⟩⟩
          · rw [run, read]
            dsimp only
            rw [(hrun line).1]
            rfl
          · rw [List.filter_cons_of_pos rfl, run, read]
            dsimp only
            rw [(hrun line).2]
            rfl
      | pause => cases hsignal

/-- Signals are those up to the last end of a line, and those of the unfinished line. -/
theorem exists_lineStart (signals : List Signal) :
    ∃ outside content, signals = outside ++ content ∧
      (∀ signal ∈ content, signal.endsLine = false) ∧ (start.run outside).2.line = [] ∧
      content.filterMap Signal.byte? = unfinishedLine signals := by
  induction signals using List.reverseRecOn with
  | nil => exact ⟨[], [], rfl, fun _ h => absurd h List.not_mem_nil, rfl, rfl⟩
  | append_singleton signals signal ih =>
      rcases hends : signal.endsLine
      · obtain ⟨outside, content, rfl, hcontent, hline, hbytes⟩ := ih
        refine ⟨outside, content ++ [signal], List.append_assoc .., ?_, hline, ?_⟩
        · intro s hs
          rcases List.mem_append.mp hs with hs | hs
          · exact hcontent s hs
          · rw [List.mem_singleton.mp hs]
            exact hends
        · rw [unfinishedLine_concat, hends, ← hbytes, List.filterMap_append]
          cases signal <;> rfl
      · refine ⟨signals ++ [signal], [], (List.append_nil _).symm, ?_, ?_, ?_⟩
        · exact fun s hs => absurd hs List.not_mem_nil
        · rw [run_concat, line_read, hends]
          rfl
        · rw [unfinishedLine_concat, hends]
          rfl

/-- A body is under way after a byte of one of its lines, or after the end of a line. -/
theorem of_body_read {p : Place} {signal : Signal} {finding : Finding}
    (h : (p.read signal).2.body = some finding) :
    (∃ b, signal = .byte b ∧ b ≠ lineFeed ∧ p.body = some finding) ∨
      signal.endsLine = true ∧ p.read signal = ([], ⟨[], some finding⟩) ∧
        accept p.body (lineText p.line) = .reading (some finding) := by
  have hend : p.endLine.2.body = some finding → p.endLine = ([], ⟨[], some finding⟩) ∧
      accept p.body (lineText p.line) = .reading (some finding) := by
    intro hbody
    rcases hacc : accept p.body (lineText p.line) with complete | body
    · rw [endLine_of_complete hacc] at hbody
      cases hbody
    · rw [endLine_of_reading hacc] at hbody ⊢
      rw [show body = some finding from hbody]
      exact ⟨rfl, rfl⟩
  cases signal with
  | byte b =>
      rw [read] at h ⊢
      by_cases hb : b = lineFeed
      · rw [if_pos hb] at h ⊢
        exact Or.inr ⟨beq_iff_eq.mpr hb, hend h⟩
      · rw [if_neg hb] at h ⊢
        exact Or.inl ⟨b, rfl, hb, h⟩
  | failure cause => cases h
  | pause =>
      rw [read] at h ⊢
      by_cases hline : p.line = []
      · rw [if_pos hline] at h
        cases h
      · rw [if_neg hline] at h ⊢
        exact Or.inr ⟨rfl, hend h⟩

/-- A body opened by the line that has just ended has that line for its header. -/
theorem exists_lost_of_header {before : List Signal} {signal : Signal} {header : Header}
    (hends : signal.endsLine = true) (hnone : (start.run before).2.body = none)
    (hheader : classify (lineText (unfinishedLine before)) = some (.ok (.header header))) :
    ∃ outside opening, Lost (before ++ [signal]) header.opened outside opening [] ∧
      start.run (outside ++ opening.signals.filter Signal.isFailure)
        = ((start.run before).1, start) := by
  obtain ⟨outside, content, rfl, hcontent, hline, hbytes⟩ := exists_lineStart before
  refine ⟨outside, ⟨content, signal, hcontent, hends⟩, ⟨?_, ?_, ?_, nofun, nofun⟩, ?_⟩
  · rw [← line_run_start, hline]
  · rw [unfinishedLine_concat, hends]
    simp [WholeLine.signals]
  · refine ⟨header, ?_, rfl⟩
    rw [WholeLine.text, hbytes]
    exact hheader
  · -- only failures of the line are left, and nothing is under way after them
    obtain ⟨replies, left, hrun⟩ := run_unended (start.run outside).2.body hcontent
    have houtside : (start.run outside).2 = ⟨[], (start.run outside).2.body⟩ :=
      congrArg (Place.mk · (start.run outside).2.body) hline
    have hfilter : (content ++ [signal]).filter Signal.isFailure
        = content.filter Signal.isFailure := by
      rw [List.filter_append, List.filter_singleton, Signal.isFailure_of_endsLine hends]
      exact List.append_nil _
    rw [run_append, houtside, (hrun []).1] at hnone
    rw [WholeLine.signals, hfilter, run_append, run_append, houtside, (hrun []).1, (hrun []).2,
      show left = none from hnone]
    rfl

/-- A line that has just ended inside of a body is one more line of it. -/
theorem lost_concat {before outside : List Signal} {signal : Signal} {finding : Finding}
    {opening : WholeLine} {lines : List WholeLine} (h : Lost before finding outside opening lines)
    (hends : signal.endsLine = true) (hne : lineText (unfinishedLine before) ≠ "") :
    Lost (before ++ [signal]) (finding.pushLine (lineText (unfinishedLine before))) outside opening
      (lines ++ [.ofBytes (lineFeed_not_mem_unfinishedLine before) signal hends]) := by
  let last := WholeLine.ofBytes (lineFeed_not_mem_unfinishedLine before) signal hends
  have htext : last.text = lineText (unfinishedLine before) := by
    show lineText (((unfinishedLine before).map Signal.byte).filterMap Signal.byte?) = _
    rw [List.filterMap_map]
    exact congrArg lineText List.filterMap_some
  have hlast : last.signals = (unfinishedLine before).map .byte ++ [signal] := rfl
  refine ⟨h.fresh, ?_, ?_, ?_, ?_⟩
  · rw [unfinishedLine_concat, hends, List.flatMap_append, List.flatMap_singleton, hlast]
    calc before ++ [signal]
        = outside ++ opening.signals ++ lines.flatMap WholeLine.signals
            ++ (unfinishedLine before).map .byte ++ [signal] := by rw [← h.split]
      _ = _ := by simp
  · obtain ⟨header, hheader, rfl⟩ := h.opens
    refine ⟨header, hheader, ?_⟩
    rw [List.map_append, List.foldl_append, List.map_singleton, htext]
    rfl
  · intro line hline
    rcases List.mem_append.mp hline with hline | hline
    · exact h.nonempty line hline
    · rw [List.mem_singleton.mp hline, htext]
      exact hne
  · intro line hline s hs
    rcases List.mem_append.mp hline with hline | hline
    · exact h.unbroken line hline s hs
    · rw [List.mem_singleton.mp hline, hlast] at hs
      rcases List.mem_append.mp hs with hs | hs
      · exact failsWith_of_mem_bytes _ hs
      · rw [List.mem_singleton.mp hs]
        exact Signal.isFailure_of_endsLine hends

/-- While a body is under way, it is that of a header and the whole lines after it.  Without these,
failures in the header apart, a reader hands out the same until there, and no body is under way. -/
theorem exists_lost {before : List Signal} {finding : Finding}
    (h : (start.run before).2.body = some finding) :
    ∃ outside opening lines, Lost before finding outside opening lines ∧
      start.run (outside ++ opening.signals.filter Signal.isFailure)
        = ((start.run before).1, start) := by
  induction before using List.reverseRecOn generalizing finding with
  | nil => cases h
  | append_singleton before signal ih =>
      rw [run_concat] at h ⊢
      rcases of_body_read h with ⟨b, rfl, hb, hbody⟩ | ⟨hends, hread, hacc⟩
      · -- the unfinished line goes on
        obtain ⟨outside, opening, lines, hlost, hrun⟩ := ih hbody
        have hends : (Signal.byte b).endsLine = false := beq_eq_false_iff_ne.mpr hb
        refine ⟨outside, opening, lines,
          ⟨hlost.fresh, ?_, hlost.opens, hlost.nonempty, hlost.unbroken⟩, ?_⟩
        · rw [unfinishedLine_concat, hends]
          calc before ++ [.byte b]
              = outside ++ opening.signals ++ lines.flatMap WholeLine.signals
                  ++ (unfinishedLine before).map .byte ++ [.byte b] := by rw [← hlost.split]
            _ = _ := by simp [Signal.byte?]
        · rw [hrun, read, if_neg hb, List.append_nil]
      · rw [line_run_start] at hacc
        rw [hread, List.append_nil]
        rcases accept_eq_reading_some hacc with ⟨hnone, header, hheader, rfl⟩ |
          ⟨earlier, hbody, hne, rfl⟩
        · obtain ⟨outside, opening, hlost, hrun⟩ := exists_lost_of_header hends hnone hheader
          exact ⟨outside, opening, [], hlost, hrun⟩
        · obtain ⟨outside, opening, lines, hlost, hrun⟩ := ih hbody
          exact ⟨outside, opening, _, lost_concat hlost hends hne, hrun⟩

end Place

/-! ### The answers -/

/-- Calls that hand out some replies hand out those that are no failures in fewer calls. -/
theorem inCalls_heard (replies : List Reply) (calls : Nat) :
    inCalls (heard replies) (heard (inCalls replies calls)).length
      = heard (inCalls replies calls) := by
  induction calls generalizing replies with
  | zero =>
      rw [inCalls_zero]
      exact inCalls_zero _
  | succ calls ih =>
      cases replies with
      | nil =>
          have hends : heard (List.replicate (calls + 1) .ended)
              = List.replicate (calls + 1) .ended := List.filter_replicate_of_pos rfl
          rw [inCalls_nil, hends, List.length_replicate]
          exact inCalls_nil _
      | cons reply rest =>
          rw [inCalls_cons]
          rcases hreply : reply.isFailure
          · rw [heard_cons_of_not hreply, heard_cons_of_not hreply, List.length_cons,
              inCalls_cons, ih]
          · rw [heard_cons_of_failure hreply, heard_cons_of_failure hreply, ih]

/-- Without its failures, signals that meet none in a body bring what is heard of them. -/
theorem Place.transcript_filter {p : Place} {signals : List Signal}
    (h : ∀ before cause later, signals = before ++ .failure cause :: later →
      (p.run before).2.body = none) :
    p.transcript (signals.filter fun signal => !signal.isFailure)
      = heard (p.transcript signals) := by
  have hremaining : heard (p.run signals).2.remaining = (p.run signals).2.remaining := by
    rw [heard, List.filter_eq_self]
    intro reply hreply
    rw [isFailure_of_mem_remaining _ hreply]
    rfl
  rw [transcript, run_filter p h, transcript, heard_append, hremaining]

/-- The finding whose body a reader has under way after some events. -/
def bodyUnderWay (events : List Event) : Option Finding :=
  (Place.start.run (Feed.ofEvents events).signals).2.body

/-- The signals of chunks that bring the bytes of an unfinished line, and of the events after it. -/
theorem signals_resumed {before : List Event} {chunks : List (List UInt8)}
    (h : chunks.flatten = unfinishedLine (Feed.ofEvents before).signals) (later : List Event) :
    (Feed.ofEvents (chunks.map .data ++ later)).signals
      = (unfinishedLine (Feed.ofEvents before).signals).map .byte
        ++ (Feed.ofEvents later).signals := by
  rw [← h, ← signals_chunks]
  exact List.flatMap_append

namespace ResumingReader

variable {before later : List Event} {cause : Failure} {chunks : List (List UInt8)}

/-- The calls after one that failed are answered as on a feed that first brings the unfinished line.
-/
theorem answers_of_failure (h : chunks.flatten = unfinishedLine (Feed.ofEvents before).signals)
    (calls : Nat) :
    let earlier := (Place.start.run (Feed.ofEvents before).signals).1
    (ofFeed (Feed.ofEvents (before ++ .failure cause :: later))).answers
        (earlier.length + 1 + calls)
      = earlier ++ .failed cause
          :: (ofFeed (Feed.ofEvents (chunks.map .data ++ later))).answers calls := by
  intro earlier
  have hsignals : (Feed.ofEvents (before ++ .failure cause :: later)).signals
      = (Feed.ofEvents before).signals ++ .failure cause :: (Feed.ofEvents later).signals :=
    List.flatMap_append
  rw [answers_eq_inCalls, answers_eq_inCalls, signals_resumed h, hsignals,
    Place.transcript_failure, List.append_cons]
  have hlength : earlier.length + 1 = (earlier ++ [Reply.failed cause]).length := by
    rw [List.length_append, List.length_singleton]
  rw [hlength, inCalls_append, ← List.append_cons]

/-- Signals after which nothing is under way are answered on their own, and a reader starts afresh
after them. -/
theorem answers_of_run {signals : List Signal} {earlier : List Reply}
    (hrun : Place.start.run signals = (earlier, Place.start)) {events left : List Event}
    (h : (Feed.ofEvents events).signals = signals ++ (Feed.ofEvents left).signals) (calls : Nat) :
    (ofFeed (Feed.ofEvents events)).answers (earlier.length + calls)
      = earlier ++ (ofFeed (Feed.ofEvents left)).answers calls := by
  rw [answers_eq_inCalls, answers_eq_inCalls, h, Place.transcript_append, hrun, inCalls_append]

end ResumingReader

/-- A resuming reader goes on after a failure without loss.

* A failed call has met one of the failures, each of which fails one call.  The calls after it are
  answered as by a fresh reader, on a feed that first brings the bytes of the unfinished line,
  however chunked, and then the events after the failure.
* If a body was under way, what is lost is its header and the whole lines after it: a reader on a
  feed without them, the failures in the header's line apart, answers the same, less the failure.
* Where no failure comes in a body, what is heard besides failures is, call by call, what a reader
  hears on the feed without the failures. -/
theorem resumes_without_loss (events : List Event) :
    let reader := ResumingReader.ofFeed (Feed.ofEvents events)
    (∀ earlier cause, reader.answers (earlier.length + 1) = earlier ++ [.failed cause] →
      ∃ before later, events = before ++ .failure cause :: later ∧
        before.countP Event.isFailure = earlier.countP Reply.isFailure ∧
        ∀ chunks : List (List UInt8),
          chunks.flatten = unfinishedLine (Feed.ofEvents before).signals →
          let resumed := chunks.map .data ++ later
          let fresh := ResumingReader.ofFeed (Feed.ofEvents resumed)
          (∀ calls, reader.answers (earlier.length + 1 + calls)
            = earlier ++ .failed cause :: fresh.answers calls) ∧
          ∀ finding, bodyUnderWay before = some finding →
            ∃ outside opening lines,
              Lost (Feed.ofEvents before).signals finding outside opening lines ∧
              let kept := outside ++ opening.signals.filter Signal.isFailure
              let mended := Feed.ofEvents (kept.map Signal.event ++ resumed)
              ∀ calls, (ResumingReader.ofFeed mended).answers (earlier.length + calls)
                = earlier ++ fresh.answers calls) ∧
    ((∀ before cause later, events = before ++ .failure cause :: later →
        bodyUnderWay before = none) →
      let healthy := Feed.ofEvents (events.filter fun event => !event.isFailure)
      ∀ calls, (ResumingReader.ofFeed healthy).answers (heard (reader.answers calls)).length
        = heard (reader.answers calls)) := by
  intro reader
  refine ⟨?_, ?_⟩
  · intro earlier cause hanswers
    -- the failed call tells which failure it met
    rw [ResumingReader.answers_eq_inCalls] at hanswers
    obtain ⟨rest, htranscript⟩ := exists_of_inCalls hanswers nofun
    obtain ⟨signals, left, hsignals, hearlier⟩ := Place.exists_failure_signal _ htranscript
    obtain ⟨before, later, rfl, rfl, rfl⟩ := exists_failure_event hsignals
    refine ⟨before, later, rfl, ?_, ?_⟩
    · rw [← hearlier, Place.countP_run, countP_signals]
    · intro chunks hchunks resumed fresh
      rw [← hearlier]
      refine ⟨ResumingReader.answers_of_failure hchunks, ?_⟩
      intro finding hbody
      obtain ⟨outside, opening, lines, hlost, hrun⟩ := Place.exists_lost hbody
      refine ⟨outside, opening, lines, hlost, ?_⟩
      intro kept mended
      have hmended : mended.signals = kept ++ (Feed.ofEvents resumed).signals := by
        rw [Feed.signals_ofEvents, List.flatMap_append, flatMap_signals_event]
        rfl
      exact ResumingReader.answers_of_run hrun hmended
  · intro hbodies healthy calls
    have hsignals : ∀ before cause later,
        (Feed.ofEvents events).signals = before ++ .failure cause :: later →
          (Place.start.run before).2.body = none := by
      intro before cause later h
      obtain ⟨a, b, hevents, rfl, -⟩ := exists_failure_event h
      exact hbodies a cause b hevents
    have hhealthy : healthy.signals
        = (Feed.ofEvents events).signals.filter fun signal => !signal.isFailure :=
      filter_signals (fun _ => true) events
    rw [ResumingReader.answers_eq_inCalls, ResumingReader.answers_eq_inCalls, hhealthy,
      Place.transcript_filter hsignals, inCalls_heard]

/-- A failure between two chunks is the only one there. -/
theorem eq_of_one_failure {first second : List UInt8} {before later : List Event}
    {cause cause' : Failure}
    (h : [.data first, .failure cause, .data second] = before ++ .failure cause' :: later) :
    before = [.data first] ∧ later = [.data second] := by
  rcases before with - | ⟨a, - | ⟨b, - | ⟨c, rest⟩⟩⟩
  · cases h
  · cases h
    exact ⟨rfl, rfl⟩
  · cases h
  · cases rest <;> cases h

/-- A failure that cuts off the second line of a body: the header and the first line are lost, and
the second line is read as one of its own.  An interruption that cuts off a header: nothing is lost.
-/
theorem resumes_without_loss_cut_twice :
    let bytes (text : String) : List UInt8 := Text.Utf8.encode text.toList
    let broken : Failure := .other "broken pipe"
    let interrupted : Failure := .interrupted "interrupted"
    let finding : Finding := ⟨0, "Refactor lines 1-2 into new function: \nab\n"⟩
    let before : List Event := [.data (bytes "line 1-2 (x):\nab\n\tline")]
    let later : List Event := [.data (bytes " 3: m\n")]
    let inBody := ResumingReader.ofFeed (Feed.ofEvents (before ++ .failure broken :: later))
    let inHeader : List Event :=
      [.data (bytes "line 1-2"), .failure interrupted, .data (bytes " (x):\nab")]
    let healthy : List Event := [.data (bytes "line 1-2"), .data (bytes " (x):\nab")]
    (inBody.answers 1 = [.failed broken] ∧
      [bytes "\tline"].flatten = unfinishedLine (Feed.ofEvents before).signals ∧
      bodyUnderWay before = some finding ∧
      ∃ outside opening lines, Lost (Feed.ofEvents before).signals finding outside opening lines ∧
        let kept := outside ++ opening.signals.filter Signal.isFailure
        let mended := kept.map Signal.event ++ .data (bytes "\tline") :: later
        ∀ calls, inBody.answers (1 + calls) = .failed broken
          :: (ResumingReader.ofFeed (Feed.ofEvents mended)).answers calls) ∧
    (∀ before cause later, inHeader = before ++ .failure cause :: later →
        bodyUnderWay before = none) ∧
      (ResumingReader.ofFeed (Feed.ofEvents healthy)).answers 1 = [.finding finding] := by
  intro bytes broken interrupted finding before later inBody inHeader healthy
  have hanswers : inBody.answers 1 = [.failed broken] := by
    rw [ResumingReader.answers_eq_inCalls]
    decide +kernel
  have hline : [bytes "\tline"].flatten = unfinishedLine (Feed.ofEvents before).signals := by
    decide +kernel
  have hbody : bodyUnderWay before = some finding := by
    decide +kernel
  have hheader : ∀ before cause later, inHeader = before ++ .failure cause :: later →
      bodyUnderWay before = none := by
    intro before cause later h
    rw [(eq_of_one_failure h).1]
    decide +kernel
  refine ⟨⟨hanswers, hline, hbody, ?_⟩, hheader, ?_⟩
  · obtain ⟨before', later', hevents, -, hall⟩ :=
      (resumes_without_loss (before ++ .failure broken :: later)).1 [] broken hanswers
    obtain ⟨rfl, rfl⟩ := eq_of_one_failure hevents
    obtain ⟨hfresh, hlost⟩ := hall [bytes "\tline"] hline
    obtain ⟨outside, opening, lines, hlost, hmended⟩ := hlost finding hbody
    refine ⟨outside, opening, lines, hlost, fun calls => ?_⟩
    have hcalls := hmended calls
    rw [List.nil_append, List.length_nil, Nat.zero_add] at hcalls
    exact (hfresh calls).trans (congrArg (Reply.failed broken :: ·) hcalls.symm)
  · have hheard : heard ((ResumingReader.ofFeed (Feed.ofEvents inHeader)).answers 2)
        = [.finding finding] := by
      rw [ResumingReader.answers_eq_inCalls]
      decide +kernel
    have hcalls := (resumes_without_loss inHeader).2 hheader 2
    rw [hheard] at hcalls
    exact hcalls

end Marginalia.Wire
