import Marginalia.Proofs.Wire.Signals

/-!
The two readers agree until the first failure, and neither sees the chunks.

Both readers are `ask` on the signals that reach them, and where no read is interrupted these are
the same.  So they can only differ where `ask` leaves the bytes of an unfinished line behind, and
that is after a failure (`unfinished_of_ask`).  Up to the first failure and with it, their answers
are the same; after it the latching reader has nothing more (`latching_answers`).  Cutting a chunk
in two keeps the signals, hence the answers of both (`readers_agree`).

An interrupted read parts the readers: the latching one tries again as if nothing had been, and the
resuming one reports it (`readers_differ_on_interruption`).
-/

namespace Marginalia.Wire

/-- The answers up to the first failure and with it. -/
def throughFailure : List Reply → List Reply
  | [] => []
  | .failed cause :: _ => [.failed cause]
  | .finding finding :: rest => .finding finding :: throughFailure rest
  | .ended :: rest => .ended :: throughFailure rest

/-- The answers up to the first failure come first among all answers. -/
theorem throughFailure_isPrefix (answers : List Reply) : throughFailure answers <+: answers := by
  induction answers with
  | nil => exact List.prefix_rfl
  | cons answer rest ih =>
      cases answer with
      | finding finding => exact List.cons_prefix_cons.mpr ⟨rfl, ih⟩
      | ended => exact List.cons_prefix_cons.mpr ⟨rfl, ih⟩
      | failed cause => exact List.prefix_append [.failed cause] rest

/-! ### What a call leaves behind -/

/-- Only a failure leaves bytes of an unfinished line behind. -/
theorem unfinished_of_ask (line : List UInt8) (body : Option Finding) (signals : List Signal) :
    (ask line body signals).unfinished = [] ∨
      ∃ cause, (ask line body signals).reply = .failed cause := by
  induction signals generalizing line body with
  | nil =>
      rw [ask]
      split
      · exact Or.inl rfl
      · split <;> exact Or.inl rfl
  | cons signal rest ih =>
      cases signal with
      | byte b =>
          rw [ask]
          split
          · split
            · exact Or.inl rfl
            · exact ih [] _
          · exact ih (line ++ [b]) body
      | failure cause => exact Or.inr ⟨cause, rfl⟩
      | pause =>
          rw [ask]
          split
          · exact Or.inl rfl
          · split
            · exact Or.inl rfl
            · exact ih [] _

/-! ### The latching reader -/

/-- A reader that has failed has nothing more. -/
theorem answers_of_hasFailed (feed : Feed) (calls : Nat) :
    LatchingReader.answers ⟨feed, true⟩ calls = List.replicate calls .ended := by
  induction calls with
  | zero => rfl
  | succ calls ih =>
      rw [LatchingReader.answers, List.replicate_succ, ← ih]
      rfl

/-- A call goes on with the signals left, and a failure is remembered. -/
theorem LatchingReader.next_ofFeed (feed : Feed) :
    ∃ rest : Feed, rest.uninterrupted = (ask [] none feed.uninterrupted).rest ∧
      (ofFeed feed).next
        = ((ask [] none feed.uninterrupted).reply,
            ⟨rest, (ask [] none feed.uninterrupted).reply.isFailure⟩) := by
  obtain ⟨hreply, hrest⟩ := read_eq_ask none feed
  refine ⟨(read none feed).2, hrest, ?_⟩
  rw [← hreply]
  exact next_of_read rfl

/-- The answers of a latching reader are those on the signals that reach it up to the first failure,
and then nothing. -/
theorem latching_answers (feed : Feed) (calls : Nat) :
    (LatchingReader.ofFeed feed).answers calls
      = throughFailure (replies [] feed.uninterrupted calls)
        ++ List.replicate (calls - (throughFailure (replies [] feed.uninterrupted calls)).length)
            .ended := by
  induction calls generalizing feed with
  | zero => rfl
  | succ calls ih =>
      obtain ⟨rest, hrest, hnext⟩ := LatchingReader.next_ofFeed feed
      rw [LatchingReader.answers, hnext, replies]
      dsimp only
      -- an answer that is no failure leaves no bytes behind, so the next call starts afresh
      rcases unfinished_of_ask [] none feed.uninterrupted with hnil | ⟨cause, hfailed⟩
      · rw [hnil, ← hrest]
        rcases hreply : (ask [] none feed.uninterrupted).reply with finding | - | cause
        · simp only [throughFailure, List.length_cons, Nat.add_sub_add_right, List.cons_append]
          exact congrArg _ (ih rest)
        · simp only [throughFailure, List.length_cons, Nat.add_sub_add_right, List.cons_append]
          exact congrArg _ (ih rest)
        · exact congrArg _ (answers_of_hasFailed rest calls)
      · rw [hfailed]
        exact congrArg _ (answers_of_hasFailed rest calls)

/-! ### Chunks -/

/-- Signals do not show where a chunk was cut. -/
theorem signals_cut (before after : List Event) (a b : List UInt8) :
    (Feed.ofEvents (before ++ .data a :: .data b :: after)).signals
      = (Feed.ofEvents (before ++ .data (a ++ b) :: after)).signals := by
  simp only [Feed.signals_ofEvents, List.flatMap_append, List.flatMap_cons, signals_data_append,
    List.append_assoc]

/-! ### Interruptions -/

/-- The signals without the interruptions are those of the events without them. -/
theorem uninterrupted_ofEvents (events : List Event) :
    let tried := events.filter fun event => !event.failsWith Failure.isInterruption
    (Feed.ofEvents events).uninterrupted = (Feed.ofEvents tried).signals := by
  intro tried
  rw [Feed.uninterrupted, Feed.reaching, Feed.signals_ofEvents, Feed.signals_ofEvents,
    filter_signals]

/-- Where no read is interrupted, all signals reach the latching reader. -/
theorem uninterrupted_eq_signals {events : List Event}
    (h : ∀ event ∈ events, event.failsWith Failure.isInterruption = false) :
    (Feed.ofEvents events).uninterrupted = (Feed.ofEvents events).signals := by
  have htried : events.filter (fun event => !event.failsWith Failure.isInterruption) = events := by
    rw [List.filter_eq_self]
    exact fun event hevent => congrArg not (h event hevent)
  rw [uninterrupted_ofEvents, htried]

/-! ### Both readers -/

/-- The readers agree on some events: asked any number of times, the latching reader answers as the
resuming reader does up to the first failure and with it, and then that there is nothing more. -/
def ReadersAgree (events : List Event) : Prop :=
  ∀ calls : Nat,
    let resumed := (ResumingReader.ofFeed (Feed.ofEvents events)).answers calls
    let heard := throughFailure resumed
    heard <+: resumed ∧
      (LatchingReader.ofFeed (Feed.ofEvents events)).answers calls
        = heard ++ List.replicate (calls - heard.length) .ended

/-- The readers agree on all events among which no read is interrupted.  Interrupted reads, wherever
they come, change no answer of the latching reader.  Cutting a chunk in two, or joining two, changes
no answer of either reader. -/
theorem readers_agree :
    (∀ events : List Event,
      (∀ event ∈ events, event.failsWith Failure.isInterruption = false) → ReadersAgree events) ∧
    (∀ (events : List Event) (calls : Nat),
      let tried := events.filter fun event => !event.failsWith Failure.isInterruption
      (LatchingReader.ofFeed (Feed.ofEvents events)).answers calls
        = (LatchingReader.ofFeed (Feed.ofEvents tried)).answers calls) ∧
    ∀ (before after : List Event) (a b : List UInt8) (calls : Nat),
      let cut := Feed.ofEvents (before ++ .data a :: .data b :: after)
      let joined := Feed.ofEvents (before ++ .data (a ++ b) :: after)
      (LatchingReader.ofFeed cut).answers calls = (LatchingReader.ofFeed joined).answers calls ∧
        (ResumingReader.ofFeed cut).answers calls
          = (ResumingReader.ofFeed joined).answers calls := by
  refine ⟨?_, ?_, ?_⟩
  · intro events hevents calls resumed heard
    have hresumed : resumed = replies [] (Feed.ofEvents events).uninterrupted calls := by
      rw [uninterrupted_eq_signals hevents]
      exact ResumingReader.answers_eq_replies (ResumingReader.ofFeed (Feed.ofEvents events)) calls
    have hheard : heard = throughFailure (replies [] (Feed.ofEvents events).uninterrupted calls) :=
      congrArg throughFailure hresumed
    refine ⟨throughFailure_isPrefix resumed, ?_⟩
    rw [hheard]
    exact latching_answers (Feed.ofEvents events) calls
  · intro events calls tried
    have htried : (Feed.ofEvents tried).uninterrupted = (Feed.ofEvents events).uninterrupted := by
      rw [uninterrupted_ofEvents, uninterrupted_ofEvents, List.filter_filter]
      simp only [Bool.and_self]
    rw [latching_answers, latching_answers, htried]
  · intro before after a b calls cut joined
    have hsignals : cut.signals = joined.signals := signals_cut before after a b
    have hreaching : cut.uninterrupted = joined.uninterrupted := by
      rw [Feed.uninterrupted, Feed.uninterrupted, Feed.reaching, Feed.reaching, hsignals]
    constructor
    · rw [latching_answers, latching_answers, hreaching]
    · rw [ResumingReader.answers_eq_replies, ResumingReader.answers_eq_replies]
      show replies [] cut.signals calls = replies [] joined.signals calls
      rw [hsignals]

/-- A line's end is cut in two, and a failure cuts off the second line.  Both readers report it after
the first finding; the second finding is for the resuming reader alone. -/
theorem readers_agree_until_broken :
    let bytes (text : String) : List UInt8 := Text.Utf8.encode text.toList
    let broken : Failure := .other "broken pipe"
    let events : List Event :=
      [.data (bytes "\tline 2: x\r"), .data (bytes "\n\tli"), .failure broken,
        .data (bytes "ne 3: y\n")]
    (∀ event ∈ events, event.failsWith Failure.isInterruption = false) ∧
      (ResumingReader.ofFeed (Feed.ofEvents events)).answers 4
        = [.finding ⟨1, " x"⟩, .failed broken, .finding ⟨2, " y"⟩, .ended] ∧
      (LatchingReader.ofFeed (Feed.ofEvents events)).answers 4
        = [.finding ⟨1, " x"⟩, .failed broken, .ended, .ended] := by
  intro bytes broken events
  have hevents : ∀ event ∈ events, event.failsWith Failure.isInterruption = false := by decide
  have hresumed : (ResumingReader.ofFeed (Feed.ofEvents events)).answers 4
      = [.finding ⟨1, " x"⟩, .failed broken, .finding ⟨2, " y"⟩, .ended] := by
    rw [ResumingReader.answers_eq_replies]
    decide +kernel
  obtain ⟨-, hlatching⟩ := readers_agree.1 events hevents 4
  rw [hresumed] at hlatching
  exact ⟨hevents, hresumed, hlatching⟩

/-- A read is interrupted before a finding.  The latching reader tries again and hands the finding
out at the first call, at which the resuming reader reports the interruption. -/
theorem readers_differ_on_interruption :
    let interrupted : Failure := .interrupted "interrupted"
    let events : List Event :=
      [.failure interrupted, .data (Text.Utf8.encode "\tline 1: x\n".toList)]
    (LatchingReader.ofFeed (Feed.ofEvents events)).answers 2 = [.finding ⟨0, " x"⟩, .ended] ∧
      (ResumingReader.ofFeed (Feed.ofEvents events)).answers 2
        = [.failed interrupted, .finding ⟨0, " x"⟩] ∧
      ¬ReadersAgree events := by
  intro interrupted events
  have hlatching : (LatchingReader.ofFeed (Feed.ofEvents events)).answers 2
      = [.finding ⟨0, " x"⟩, .ended] := by
    rw [latching_answers]
    decide +kernel
  have hresumed : (ResumingReader.ofFeed (Feed.ofEvents events)).answers 2
      = [.failed interrupted, .finding ⟨0, " x"⟩] := by
    rw [ResumingReader.answers_eq_replies]
    decide +kernel
  refine ⟨hlatching, hresumed, fun hagree => ?_⟩
  obtain ⟨-, hsame⟩ := hagree 2
  rw [hlatching, hresumed] at hsame
  cases hsame

end Marginalia.Wire
