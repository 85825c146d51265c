import Marginalia.Wire.Reader

/-!
Reading as a machine that takes one signal at a time.

The signals of a feed are its bytes, failures and empty reads in order; the chunks in which the
bytes arrive leave no trace in them.  Failures after which a reader tries again do not reach it
(`Feed.reaching`).  `ask` answers one call for a finding from signals alone.  Its state is the bytes
of the line under way and the body under way, and it recurses on the signals, so what is proved
about reading is proved by induction on them.

Main results: a call on either reader is `ask` on the signals that reach it
(`ResumingReader.outcome_read`, `LatchingReader.read_eq_ask`), and so is any number of calls
(`ResumingReader.answers_eq_replies`).  The readers differ only in that interruptions do not reach
the latching one (`Feed.uninterrupted`), and in what they keep of a line that a failure cuts off.
-/

namespace Marginalia.Wire

/-! ### Signals -/

/-- What reading meets: a byte, a failure, or a read that brings nothing. -/
inductive Signal where
  | byte (b : UInt8)
  | failure (cause : Failure)
  | pause
  deriving DecidableEq, Repr

/-- The signals of one event. -/
def Event.signals : Event → List Signal
  | .data bytes => bytes.map .byte
  | .failure cause => [.failure cause]
  | .pause => [.pause]

/-- The signals of a feed: the bytes that have arrived, then the events to come. -/
def Feed.signals (feed : Feed) : List Signal :=
  feed.buffer.map .byte ++ feed.events.flatMap Event.signals

@[simp] theorem Feed.signals_ofEvents (events : List Event) :
    (ofEvents events).signals = events.flatMap Event.signals := rfl

/-- A chunk may be cut anywhere. -/
theorem signals_data_append (a b : List UInt8) :
    (Event.data (a ++ b)).signals = (Event.data a).signals ++ (Event.data b).signals :=
  List.map_append

/-! ### Failures among them -/

section

variable (causes : Failure → Bool)

/-- Whether a signal is one of some failures. -/
def Signal.failsWith : Signal → Bool
  | .byte _ => false
  | .failure cause => causes cause
  | .pause => false

/-- Whether an event is one of some failures. -/
def Event.failsWith : Event → Bool
  | .data _ => false
  | .failure cause => causes cause
  | .pause => false

theorem failsWith_of_mem_bytes {bytes : List UInt8} {signal : Signal}
    (h : signal ∈ bytes.map Signal.byte) : signal.failsWith causes = false := by
  obtain ⟨b, -, rfl⟩ := List.mem_map.mp h
  rfl

theorem filter_bytes (bytes : List UInt8) :
    (bytes.map Signal.byte).filter (fun signal => !signal.failsWith causes)
      = bytes.map Signal.byte := by
  rw [List.filter_eq_self]
  exact fun signal hsignal => by rw [failsWith_of_mem_bytes causes hsignal]; rfl

/-- Leaving failures out of some events leaves them out of the signals. -/
theorem filter_signals (events : List Event) :
    (events.filter fun event => !event.failsWith causes).flatMap Event.signals
      = (events.flatMap Event.signals).filter fun signal => !signal.failsWith causes := by
  induction events with
  | nil => rfl
  | cons event events ih =>
      rw [List.flatMap_cons, List.filter_append, ← ih]
      cases event with
      | data bytes =>
          rw [Event.signals, filter_bytes]
          rfl
      | failure cause =>
          rcases hcause : causes cause <;>
            simp [Event.signals, Event.failsWith, Signal.failsWith, hcause]
      | pause => rfl

end

variable (retried : Failure → Bool)

namespace Feed

/-- The signals that reach a reader which tries again after some failures. -/
def reaching (feed : Feed) : List Signal :=
  feed.signals.filter fun signal => !signal.failsWith retried

/-- The signals of a feed without the interruptions. -/
def uninterrupted (feed : Feed) : List Signal := feed.reaching Failure.isInterruption

theorem reaching_mk (buffer : List UInt8) (events : List Event) :
    (mk buffer events).reaching retried
      = buffer.map .byte ++ (ofEvents events).reaching retried := by
  rw [reaching, signals, List.filter_append, filter_bytes]
  rfl

theorem reaching_failure (cause : Failure) (events : List Event) :
    (ofEvents (.failure cause :: events)).reaching retried
      = if retried cause then (ofEvents events).reaching retried
        else .failure cause :: (ofEvents events).reaching retried := by
  split
  next hretried =>
    have hout : (!(Signal.failure cause).failsWith retried) = false := congrArg not hretried
    exact List.filter_cons_of_neg (ne_true_of_eq_false hout)
  next hretried =>
    have hkept : (!(Signal.failure cause).failsWith retried) = true :=
      congrArg not (eq_false_of_ne_true hretried)
    exact List.filter_cons_of_pos hkept

/-- All signals reach a reader that never tries again. -/
theorem reaching_never (feed : Feed) : feed.reaching (fun _ => false) = feed.signals := by
  rw [reaching, List.filter_eq_self]
  intro signal _
  cases signal <;> rfl

end Feed

/-! ### One line -/

/-- A line taken off some signals: its bytes without the line feed, where reading stopped, and the
signals after it. -/
structure Cut where
  bytes : List UInt8
  stop : Stop
  rest : List Signal
  deriving DecidableEq, Repr

/-- Read signals to the end of a line, after the bytes `line` of it. -/
def cut (line : List UInt8) : List Signal → Cut
  | [] => ⟨line, .pause, []⟩
  | .byte b :: rest => if b = lineFeed then ⟨line, .newline, rest⟩ else cut (line ++ [b]) rest
  | .failure cause :: rest => ⟨line, .failure cause, rest⟩
  | .pause :: rest => ⟨line, .pause, rest⟩

theorem cutLine?_cons (b : UInt8) (bytes : List UInt8) :
    cutLine? (b :: bytes)
      = if b = lineFeed then some ([], bytes)
        else (cutLine? bytes).map fun parts => (b :: parts.1, parts.2) := by
  by_cases hb : b = lineFeed
  · simp [cutLine?, hb]
  · simp only [cutLine?, List.dropWhile_cons, List.takeWhile_cons, bne_iff_ne, ne_eq, hb,
      not_false_eq_true, if_true, if_false]
    rcases bytes.dropWhile (· != lineFeed) with - | ⟨c, rest⟩ <;> rfl

/-- The bytes that have arrived are read up to the first line feed, or all of them. -/
theorem cut_buffer (line buffer : List UInt8) (rest : List Signal) :
    cut line (buffer.map .byte ++ rest)
      = match cutLine? buffer with
        | some (before, after) => ⟨line ++ before, .newline, after.map .byte ++ rest⟩
        | none => cut (line ++ buffer) rest := by
  induction buffer generalizing line with
  | nil => simp [cutLine?]
  | cons b bytes ih =>
      -- either side looks at the first byte alone
      rw [List.map_cons, List.cons_append, cut, cutLine?_cons]
      by_cases hb : b = lineFeed
      · simp [hb]
      · rw [if_neg hb, if_neg hb, ih]
        rcases cutLine? bytes with - | ⟨before, after⟩ <;> simp

/-- A line taken off a feed, as signals. -/
def Taken.cut (taken : Taken) : Cut := ⟨taken.bytes, taken.stop, taken.feed.reaching retried⟩

/-- A line that has arrived whole is taken from the bytes there. -/
theorem cut_takeFrom_of_line {buffer before after : List UInt8}
    (h : cutLine? buffer = some (before, after)) (line : List UInt8) (events : List Event) :
    cut line ((Feed.mk buffer events).reaching retried)
      = (Feed.takeFrom retried line buffer events).cut retried := by
  rw [Feed.reaching_mk, cut_buffer, Feed.takeFrom.eq_def, h]
  dsimp only [Taken.cut]
  rw [Feed.reaching_mk retried after events]

theorem cut_takeFrom (line buffer : List UInt8) (events : List Event) :
    cut line ((Feed.mk buffer events).reaching retried)
      = (Feed.takeFrom retried line buffer events).cut retried := by
  induction events generalizing line buffer with
  | nil =>
      rcases hcut : cutLine? buffer with - | ⟨before, after⟩
      · rw [Feed.reaching_mk, cut_buffer, Feed.takeFrom, hcut]
        rfl
      · exact cut_takeFrom_of_line retried hcut line []
  | cons event events ih =>
      rcases hcut : cutLine? buffer with - | ⟨before, after⟩
      · rw [Feed.reaching_mk, cut_buffer, hcut]
        rcases event with bytes | cause | -
        · -- the next chunk goes on with the same line
          rw [Feed.takeFrom, hcut]
          exact ih (line ++ buffer) bytes
        · rw [Feed.takeFrom, hcut, Feed.reaching_failure]
          dsimp only
          by_cases hretried : retried cause = true
          · -- and so does the next try
            rw [if_pos hretried, if_pos hretried]
            exact ih (line ++ buffer) []
          · rw [if_neg hretried, if_neg hretried]
            rfl
        · rw [Feed.takeFrom, hcut]
          rfl
      · exact cut_takeFrom_of_line retried hcut line (event :: events)

/-- Taking a line off a feed is cutting it off its signals. -/
theorem cut_reaching (line : List UInt8) (feed : Feed) :
    cut line (feed.reaching retried) = (feed.take retried line).cut retried :=
  cut_takeFrom retried line feed.buffer feed.events

/-! ### One call -/

/-- How a call ended: its answer, the bytes of the line that a failure cut off, and the signals
after it. -/
structure Asked where
  reply : Reply
  unfinished : List UInt8
  rest : List Signal
  deriving DecidableEq, Repr

/-- Read signals until there is an answer, after the bytes `line` of a line and inside `body`. -/
def ask (line : List UInt8) (body : Option Finding) : List Signal → Asked
  | [] =>
      if line = [] then ⟨conclude body, [], []⟩
      else
        match accept body (lineText line) with
        | .complete finding => ⟨.finding finding, [], []⟩
        | .reading body => ⟨conclude body, [], []⟩
  | .byte b :: rest =>
      if b = lineFeed then
        match accept body (lineText line) with
        | .complete finding => ⟨.finding finding, [], rest⟩
        | .reading body => ask [] body rest
      else ask (line ++ [b]) body rest
  | .failure cause :: rest => ⟨.failed cause, line, rest⟩
  | .pause :: rest =>
      if line = [] then ⟨conclude body, [], rest⟩
      else
        match accept body (lineText line) with
        | .complete finding => ⟨.finding finding, [], rest⟩
        | .reading body => ask [] body rest

/-- Go on after the bytes of a whole line. -/
def askAfter (line : List UInt8) (body : Option Finding) (rest : List Signal) : Asked :=
  match accept body (lineText line) with
  | .complete finding => ⟨.finding finding, [], rest⟩
  | .reading body => ask [] body rest

/-- Go on with what stopped a line. -/
def Cut.asked (line : Cut) (body : Option Finding) : Asked :=
  match line.stop with
  | .failure cause => ⟨.failed cause, line.bytes, line.rest⟩
  | .newline => askAfter line.bytes body line.rest
  | .pause =>
      if line.bytes = [] then ⟨conclude body, [], line.rest⟩
      else askAfter line.bytes body line.rest

/-- A call cuts one line off and goes on with what stopped it. -/
theorem ask_eq_asked_cut (line : List UInt8) (body : Option Finding) (signals : List Signal) :
    ask line body signals = (cut line signals).asked body := by
  induction signals generalizing line with
  | nil =>
      rw [ask, cut, Cut.asked]
      simp only [askAfter, ask, if_true]
  | cons signal rest ih =>
      cases signal with
      | byte b =>
          rw [ask, cut]
          by_cases hb : b = lineFeed
          · rw [if_pos hb, if_pos hb]
            rfl
          · rw [if_neg hb, if_neg hb, ih]
      | failure cause => rfl
      | pause =>
          rw [ask, cut]
          rfl

/-- A call takes one line off a feed and goes on with what that brings. -/
theorem ask_reaching (line : List UInt8) (body : Option Finding) (feed : Feed) :
    let taken := feed.take retried line
    ask line body (feed.reaching retried)
      = match taken.reply with
        | .failed cause => ⟨.failed cause, taken.cutOff, taken.feed.reaching retried⟩
        | .nothing => ⟨conclude body, taken.cutOff, taken.feed.reaching retried⟩
        | .line text =>
            match accept body text with
            | .complete finding =>
                ⟨.finding finding, taken.cutOff, taken.feed.reaching retried⟩
            | .reading body => ask taken.cutOff body (taken.feed.reaching retried) := by
  intro taken
  rw [ask_eq_asked_cut, cut_reaching, Taken.cut, Cut.asked, Taken.reply, Taken.cutOff]
  rcases taken.stop with - | - | cause
  · rfl
  · dsimp only
    split <;> rfl
  · rfl

/-! ### The readers -/

/-- The result of a call on a resuming reader, as signals. -/
def ResumingReader.outcome (result : Reply × ResumingReader) : Asked :=
  ⟨result.1, result.2.unfinished, result.2.feed.signals⟩

/-- The first line of a call on a resuming reader. -/
theorem ResumingReader.ask_readLine (body : Option Finding) (reader : ResumingReader) :
    ask reader.unfinished body reader.feed.signals
      = match reader.readLine with
        | (.failed cause, rest) => outcome (.failed cause, rest)
        | (.nothing, rest) => outcome (conclude body, rest)
        | (.line text, rest) =>
            match accept body text with
            | .complete finding => outcome (.finding finding, rest)
            | .reading body => ask rest.unfinished body rest.feed.signals := by
  have hask := ask_reaching (fun _ => false) reader.unfinished body reader.feed
  simp only [Feed.reaching_never] at hask
  rw [hask, readLine]
  rcases (reader.feed.take (fun _ => false) reader.unfinished).reply with text | - | cause <;> rfl

/-- A resuming reader asks its signals, after the bytes it has kept. -/
theorem ResumingReader.outcome_read (body : Option Finding) (reader : ResumingReader) :
    outcome (read body reader) = ask reader.unfinished body reader.feed.signals := by
  fun_induction read body reader with
  | case1 body reader cause rest h => rw [ask_readLine, h]
  | case2 body reader rest h => rw [ask_readLine, h]
  | case3 body reader text rest h finding hacc => simp only [ask_readLine, h, hacc]
  | case4 body reader text rest h next hacc ih =>
      rw [ih, ask_readLine body reader]
      simp only [h, hacc]

/-- The first line of a call on a latching reader. -/
theorem LatchingReader.ask_readLine (body : Option Finding) (feed : Feed) :
    let cutOff := (feed.take Failure.isInterruption []).cutOff
    ask [] body feed.uninterrupted
      = match readLine feed with
        | (.failed cause, rest) => ⟨.failed cause, cutOff, rest.uninterrupted⟩
        | (.nothing, rest) => ⟨conclude body, cutOff, rest.uninterrupted⟩
        | (.line text, rest) =>
            match accept body text with
            | .complete finding => ⟨.finding finding, [], rest.uninterrupted⟩
            | .reading body => ask [] body rest.uninterrupted := by
  intro cutOff
  rw [Feed.uninterrupted, ask_reaching, readLine]
  rcases hreply : (feed.take Failure.isInterruption []).reply with text | - | cause
  · rw [(Taken.cutOff_of_line hreply).1]
    rfl
  · rfl
  · rfl

/-- A latching reader asks its signals as well, apart from the interruptions, and forgets the bytes
that a failure cut off. -/
theorem LatchingReader.read_eq_ask (body : Option Finding) (feed : Feed) :
    (read body feed).1 = (ask [] body feed.uninterrupted).reply ∧
      (read body feed).2.uninterrupted = (ask [] body feed.uninterrupted).rest := by
  fun_induction read body feed with
  | case1 body feed cause rest h => simp [ask_readLine, h]
  | case2 body feed rest h => simp [ask_readLine, h]
  | case3 body feed text rest h finding hacc => simp [ask_readLine, h, hacc]
  | case4 body feed text rest h next hacc ih =>
      rw [ask_readLine body feed]
      simpa only [h, hacc] using ih

/-! ### Many calls -/

/-- Whether a call failed. -/
def Reply.isFailure : Reply → Bool
  | .failed _ => true
  | .finding _ => false
  | .ended => false

/-- A reader that has not failed answers with what it reads, and remembers a failure. -/
theorem LatchingReader.next_of_read {feed rest : Feed} {reply : Reply}
    (h : read none feed = (reply, rest)) :
    (ofFeed feed).next = (reply, ⟨rest, reply.isFailure⟩) := by
  rw [ofFeed, next, if_neg Bool.false_ne_true, h]
  cases reply with
  | finding finding => rfl
  | ended => rfl
  | failed cause => rfl

/-- The answers to a number of calls on signals, the first after the bytes `line` of a line. -/
def replies (line : List UInt8) (signals : List Signal) : Nat → List Reply
  | 0 => []
  | calls + 1 =>
      let asked := ask line none signals
      asked.reply :: replies asked.unfinished asked.rest calls

/-- The answers of a resuming reader to a number of calls. -/
def ResumingReader.answers (reader : ResumingReader) : Nat → List Reply
  | 0 => []
  | calls + 1 => reader.next.1 :: reader.next.2.answers calls

/-- The answers of a latching reader to a number of calls. -/
def LatchingReader.answers (reader : LatchingReader) : Nat → List Reply
  | 0 => []
  | calls + 1 => reader.next.1 :: reader.next.2.answers calls

/-- A latching reader drains the findings that it answers with before its first other answer. -/
theorem LatchingReader.drain_of_answers {reader : LatchingReader} {findings : List Finding}
    {last : Reply} (h : reader.answers (findings.length + 1) = findings.map .finding ++ [last])
    (hlast : ∀ finding, last ≠ .finding finding) : reader.drain = findings := by
  fun_induction drain reader generalizing findings with
  | case1 reader finding rest hnext ih =>
      rw [answers, hnext] at h
      cases findings with
      | nil => exact absurd (List.cons.inj h).1.symm (hlast finding)
      | cons first findings =>
          obtain ⟨hfirst, hrest⟩ := List.cons.inj h
          cases hfirst
          rw [ih hrest]
  | case2 reader rest hnext =>
      rw [answers, hnext] at h
      cases findings with
      | nil => rfl
      | cons first findings => cases h
  | case3 reader cause rest hnext =>
      rw [answers, hnext] at h
      cases findings with
      | nil => rfl
      | cons first findings => cases h

/-- The answers of a resuming reader are those on its signals. -/
theorem ResumingReader.answers_eq_replies (reader : ResumingReader) (calls : Nat) :
    reader.answers calls = replies reader.unfinished reader.feed.signals calls := by
  induction calls generalizing reader with
  | zero => rfl
  | succ calls ih =>
      rw [answers, replies, ih, ← outcome_read]
      rfl

end Marginalia.Wire
