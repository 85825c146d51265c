import Marginalia.Wire.Feed

/-!
Reading findings from a feed, one call at a time.

Both readers take lines from the feed and hand them to `accept`, which skips noise, recognises a
single finding, and collects the body of a range finding until an empty line.  A read that brings
nothing ends the call: it closes the body being read, or else there is no finding.  They differ in
what a failure means to them and in what it leaves behind.

* `LatchingReader` tries a read that was interrupted again.  After any other failure it gives up and
  has no more findings.
* `ResumingReader` reports every failure.  It keeps the bytes of the unfinished line and goes on
  with them at the next call; a body that was being read is lost.

Each line taken makes what is left smaller (`Feed.left_take_lt`), which is why a call ends, and why
reading on until the end ends (`size_of_next`).
-/

namespace Marginalia.Wire

/-- The answer to one call for a finding. -/
inductive Reply where
  | finding (finding : Finding)
  | ended
  | failed (cause : Failure)
  deriving DecidableEq, Repr

/-! ### One line -/

/-- What taking one line from a feed brings. -/
inductive LineReply where
  | line (text : String)
  | nothing
  | failed (cause : Failure)
  deriving DecidableEq, Repr

namespace Taken

/-- What a line taken from a feed brings.  Where a read brings nothing, the bytes before it are a
line if there are any. -/
def reply (taken : Taken) : LineReply :=
  match taken.stop with
  | .failure cause => .failed cause
  | .newline => .line (lineText taken.bytes)
  | .pause => if taken.bytes = [] then .nothing else .line (lineText taken.bytes)

/-- The bytes of a line that a failure cut off. -/
def cutOff (taken : Taken) : List UInt8 :=
  match taken.stop with
  | .failure _ => taken.bytes
  | .newline => []
  | .pause => []

/-- The number of bytes cut off or still to be read. -/
def left (taken : Taken) : Nat := taken.cutOff.length + taken.feed.size

theorem length_cutOff_le (taken : Taken) : taken.cutOff.length ≤ taken.bytes.length := by
  rw [cutOff]
  split
  · exact Nat.le_refl _
  · exact Nat.zero_le _
  · exact Nat.zero_le _

/-- A line has an end, or a read that brings nothing comes after the bytes of it. -/
theorem cutOff_of_line {taken : Taken} {text : String} (h : taken.reply = .line text) :
    taken.cutOff = [] ∧ (taken.stop = .newline ∨ taken.bytes ≠ []) := by
  rw [reply] at h
  rw [cutOff]
  split at h
  · cases h
  next hstop =>
    rw [hstop]
    exact ⟨rfl, Or.inl rfl⟩
  next hstop =>
    rw [hstop]
    refine ⟨rfl, Or.inr fun hnil => ?_⟩
    rw [if_pos hnil] at h
    cases h

end Taken

/-- Taking a line leaves no more than there was. -/
theorem Feed.left_take_le (retried : Failure → Bool) (read : List UInt8) (feed : Feed) :
    (feed.take retried read).left ≤ read.length + feed.size := by
  have hsize := feed.size_take retried read
  have hcut := (feed.take retried read).length_cutOff_le
  rw [Taken.left]
  omega

/-- Taking a line that is there leaves less. -/
theorem Feed.left_take_lt {retried : Failure → Bool} {read : List UInt8} {feed : Feed}
    {text : String} (h : (feed.take retried read).reply = .line text) :
    (feed.take retried read).left < read.length + feed.size := by
  have hsize := feed.size_take retried read
  obtain ⟨hcut, hend⟩ := Taken.cutOff_of_line h
  rw [Taken.left, hcut, List.length_nil]
  rcases hend with hstop | hne
  · rw [if_pos hstop] at hsize
    omega
  · have := List.length_pos_iff.mpr hne
    omega

/-- The effect of one line: a finding is complete, or reading goes on, inside a body or not. -/
inductive Progress where
  | complete (finding : Finding)
  | reading (body : Option Finding)
  deriving DecidableEq, Repr

/-- Take in one line, inside the body of a range finding or outside of one.  In a body every line
but the empty one is kept as it is; outside, a line that is no finding is skipped. -/
def accept (body : Option Finding) (line : String) : Progress :=
  match body with
  | some finding =>
      if line = "" then .complete finding else .reading (some (finding.pushLine line))
  | none =>
      match classify line with
      | some (.ok (.single finding)) => .complete finding
      | some (.ok (.header header)) => .reading (some header.opened)
      | some (.error _) => .reading none
      | none => .reading none

/-- The answer when there is nothing to read: a body that has been read so far is complete. -/
def conclude : Option Finding → Reply
  | some finding => .finding finding
  | none => .ended

/-! ### The latching reader -/

/-- A reader that gives up at the first failure that is no interruption. -/
structure LatchingReader where
  feed : Feed
  hasFailed : Bool
  deriving DecidableEq, Repr

namespace LatchingReader

/-- A reader at the start of a feed. -/
def ofFeed (feed : Feed) : LatchingReader := ⟨feed, false⟩

/-- Take a line from a feed.  A read that was interrupted is tried again, and the bytes of a line cut
off by any other failure are dropped. -/
def readLine (feed : Feed) : LineReply × Feed :=
  let taken := feed.take Failure.isInterruption []
  (taken.reply, taken.feed)

theorem size_readLine_le {feed rest : Feed} {reply : LineReply}
    (h : readLine feed = (reply, rest)) : rest.size ≤ feed.size := by
  obtain ⟨-, rfl⟩ := Prod.mk.inj h
  have hleft := feed.left_take_le Failure.isInterruption []
  rw [Taken.left, List.length_nil] at hleft
  omega

theorem size_of_readLine {feed rest : Feed} {text : String}
    (h : readLine feed = (.line text, rest)) : rest.size < feed.size := by
  obtain ⟨hreply, rfl⟩ := Prod.mk.inj h
  have hleft := Feed.left_take_lt hreply
  rw [Taken.left, List.length_nil] at hleft
  omega

/-- Take lines until there is an answer. -/
def read (body : Option Finding) (feed : Feed) : Reply × Feed :=
  match _h : readLine feed with
  | (.failed cause, rest) => (.failed cause, rest)
  | (.nothing, rest) => (conclude body, rest)
  | (.line text, rest) =>
      match accept body text with
      | .complete finding => (.finding finding, rest)
      | .reading body => read body rest
  termination_by feed.size
  decreasing_by exact size_of_readLine _h

/-- The next answer.  After a failure there is nothing more. -/
def next (reader : LatchingReader) : Reply × LatchingReader :=
  if reader.hasFailed then (.ended, reader)
  else
    match read none reader.feed with
    | (.failed cause, rest) => (.failed cause, ⟨rest, true⟩)
    | (reply, rest) => (reply, ⟨rest, false⟩)

/-- Reading leaves no more than there was. -/
theorem size_read_le (body : Option Finding) (feed : Feed) :
    (read body feed).2.size ≤ feed.size := by
  fun_induction read body feed with
  | case1 body feed cause rest h => exact size_readLine_le h
  | case2 body feed rest h => exact size_readLine_le h
  | case3 body feed text rest h finding hacc => exact size_readLine_le h
  | case4 body feed text rest h next hacc ih => exact Nat.le_trans ih (size_readLine_le h)

/-- A finding takes at least one line to read. -/
theorem size_of_read_finding {feed rest : Feed} {finding : Finding}
    (h : read none feed = (.finding finding, rest)) : rest.size < feed.size := by
  rw [read] at h
  split at h
  · cases h
  · cases h
  next text tail htail =>
    have hlt := size_of_readLine htail
    split at h
    · cases h
      exact hlt
    next body hbody =>
      have hle := size_read_le body tail
      rw [h] at hle
      exact Nat.lt_of_le_of_lt hle hlt

/-- A finding leaves less to read. -/
theorem size_of_next {reader rest : LatchingReader} {finding : Finding}
    (h : reader.next = (.finding finding, rest)) : rest.feed.size < reader.feed.size := by
  rw [next] at h
  split at h
  · cases h
  · split at h
    · cases h
    next reply tail hread htail =>
      cases h
      exact size_of_read_finding htail

/-- All findings up to the first answer that is none. -/
def drain (reader : LatchingReader) : List Finding :=
  match _h : reader.next with
  | (.finding finding, rest) => finding :: drain rest
  | (.ended, _) => []
  | (.failed _, _) => []
  termination_by reader.feed.size
  decreasing_by exact size_of_next _h

end LatchingReader

/-! ### The resuming reader -/

/-- A reader that can be called again after a failure.  It keeps the bytes of the line that the
failure cut off. -/
structure ResumingReader where
  unfinished : List UInt8
  feed : Feed
  deriving DecidableEq, Repr

namespace ResumingReader

/-- A reader at the start of a feed. -/
def ofFeed (feed : Feed) : ResumingReader := ⟨[], feed⟩

/-- The number of bytes kept or still to be read. -/
def size (reader : ResumingReader) : Nat := reader.unfinished.length + reader.feed.size

/-- The wording of a failure. -/
def failureMessage (cause : Failure) : String := "reading analyzer output: " ++ cause.message

/-- Take a line, beginning with the bytes kept. -/
def readLine (reader : ResumingReader) : LineReply × ResumingReader :=
  let taken := reader.feed.take (fun _ => false) reader.unfinished
  (taken.reply, ⟨taken.cutOff, taken.feed⟩)

theorem size_readLine_le {reader rest : ResumingReader} {reply : LineReply}
    (h : reader.readLine = (reply, rest)) : rest.size ≤ reader.size := by
  obtain ⟨-, rfl⟩ := Prod.mk.inj h
  exact reader.feed.left_take_le (fun _ => false) reader.unfinished

theorem size_of_readLine {reader rest : ResumingReader} {text : String}
    (h : reader.readLine = (.line text, rest)) : rest.size < reader.size := by
  obtain ⟨hreply, rfl⟩ := Prod.mk.inj h
  exact Feed.left_take_lt hreply

/-- Take lines until there is an answer. -/
def read (body : Option Finding) (reader : ResumingReader) : Reply × ResumingReader :=
  match _h : reader.readLine with
  | (.failed cause, rest) => (.failed cause, rest)
  | (.nothing, rest) => (conclude body, rest)
  | (.line text, rest) =>
      match accept body text with
      | .complete finding => (.finding finding, rest)
      | .reading body => read body rest
  termination_by reader.size
  decreasing_by exact size_of_readLine _h

/-- The next answer. -/
def next (reader : ResumingReader) : Reply × ResumingReader := read none reader

/-- Reading leaves no more than there was. -/
theorem size_read_le (body : Option Finding) (reader : ResumingReader) :
    (read body reader).2.size ≤ reader.size := by
  fun_induction read body reader with
  | case1 body reader cause rest h => exact size_readLine_le h
  | case2 body reader rest h => exact size_readLine_le h
  | case3 body reader text rest h finding hacc => exact size_readLine_le h
  | case4 body reader text rest h next hacc ih => exact Nat.le_trans ih (size_readLine_le h)

/-- A finding leaves less to read. -/
theorem size_of_next {reader rest : ResumingReader} {finding : Finding}
    (h : reader.next = (.finding finding, rest)) : rest.size < reader.size := by
  rw [next, read] at h
  split at h
  · cases h
  · cases h
  next text tail htail =>
    have hlt := size_of_readLine htail
    split at h
    · cases h
      exact hlt
    next body hbody =>
      have hle := size_read_le body tail
      rw [h] at hle
      exact Nat.lt_of_le_of_lt hle hlt

/-- All findings up to the first answer that is none, and the failure that cut them off, if one
did. -/
def drain (reader : ResumingReader) : List Finding × Option Failure :=
  match _h : reader.next with
  | (.finding finding, rest) => (finding :: (drain rest).1, (drain rest).2)
  | (.ended, _) => ([], none)
  | (.failed cause, _) => ([], some cause)
  termination_by reader.size
  decreasing_by all_goals exact size_of_next _h

end ResumingReader

/-! ### Whole outputs -/

/-- The findings in complete output. -/
def findingsOfBytes (output : List UInt8) : List Finding :=
  (LatchingReader.ofFeed (Feed.ofBytes output)).drain

/-- The findings in complete output that is text. -/
def findingsOfText (output : String) : List Finding :=
  findingsOfBytes (Text.Utf8.encode output.toList)

end Marginalia.Wire
