import Marginalia.Wire.Line
import Marginalia.Text.Utf8

/-!
The analyzer's output as it arrives.

A feed is what reading brings: chunks of bytes, failures, and reads that bring nothing, with the
bytes that have arrived and wait to be read.  `Feed.take` reads to the end of a line.  It stops at a
line feed, at a read that brings nothing, or at a failure, and reports the bytes read in all three
cases; the readers decide what becomes of the bytes of an unfinished line, and after which failures
the read is tried again instead.  `Feed.size_take` says that no byte is lost.
-/

namespace Marginalia.Wire

/-- Why a read failed.  A read that was interrupted has brought nothing and may be tried again. -/
inductive Failure where
  | interrupted (message : String)
  | other (message : String)
  deriving DecidableEq, Repr

namespace Failure

/-- The wording of a failure. -/
def message : Failure → String
  | interrupted message => message
  | other message => message

/-- Whether a read was interrupted. -/
def isInterruption : Failure → Bool
  | interrupted _ => true
  | other _ => false

end Failure

/-- What one read brings.  After the last event of a feed every read is a `pause`. -/
inductive Event where
  | data (bytes : List UInt8)
  | failure (cause : Failure)
  | pause
  deriving DecidableEq, Repr

/-- The number of bytes a read brings. -/
def Event.size : Event → Nat
  | .data bytes => bytes.length
  | .failure _ => 0
  | .pause => 0

/-- The number of bytes some reads bring. -/
def Event.total : List Event → Nat
  | [] => 0
  | event :: events => event.size + Event.total events

/-- Bytes that have arrived and the reads to come. -/
structure Feed where
  buffer : List UInt8
  events : List Event
  deriving DecidableEq, Repr

namespace Feed

/-- A feed of which nothing has been read. -/
def ofEvents (events : List Event) : Feed := ⟨[], events⟩

/-- A feed that brings some bytes and then nothing. -/
def ofBytes (bytes : List UInt8) : Feed := ⟨bytes, []⟩

/-- The number of bytes still to be read. -/
def size (feed : Feed) : Nat := feed.buffer.length + Event.total feed.events

end Feed

/-- The byte that ends a line. -/
def lineFeed : UInt8 := 0x0A

/-- The byte that may stand before a line feed. -/
def carriageReturn : UInt8 := 0x0D

/-- Where reading a line stopped. -/
inductive Stop where
  | newline
  | pause
  | failure (cause : Failure)
  deriving DecidableEq, Repr

/-- The outcome of reading a line: its bytes without the line feed, where reading stopped, and the
feed after it. -/
structure Taken where
  bytes : List UInt8
  stop : Stop
  feed : Feed
  deriving DecidableEq, Repr

/-- The bytes before the first line feed and those after it, if there is a line feed. -/
def cutLine? (bytes : List UInt8) : Option (List UInt8 × List UInt8) :=
  match bytes.dropWhile (· != lineFeed) with
  | [] => none
  | _ :: rest => some (bytes.takeWhile (· != lineFeed), rest)

/-- A cut takes the line feed away and nothing else. -/
theorem length_of_cutLine? {bytes line rest : List UInt8} (h : cutLine? bytes = some (line, rest)) :
    line.length + rest.length + 1 = bytes.length := by
  have hlen : (bytes.takeWhile (· != lineFeed)).length + (bytes.dropWhile (· != lineFeed)).length
      = bytes.length := by
    rw [← List.length_append, List.takeWhile_append_dropWhile]
  rw [cutLine?] at h
  split at h
  · cases h
  next hdrop =>
    cases h
    rw [hdrop, List.length_cons] at hlen
    omega

namespace Feed

/-- Read to the end of a line, after the bytes `read` of it, from the bytes that have arrived and
the reads to come.  After a failure in `retried` the read is tried again at once. -/
def takeFrom (retried : Failure → Bool) (read buffer : List UInt8) (events : List Event) : Taken :=
  match cutLine? buffer with
  | some (line, rest) => ⟨read ++ line, .newline, ⟨rest, events⟩⟩
  | none =>
      match events with
      | [] => ⟨read ++ buffer, .pause, ⟨[], []⟩⟩
      | .data bytes :: events => takeFrom retried (read ++ buffer) bytes events
      | .failure cause :: events =>
          if retried cause then takeFrom retried (read ++ buffer) [] events
          else ⟨read ++ buffer, .failure cause, ⟨[], events⟩⟩
      | .pause :: events => ⟨read ++ buffer, .pause, ⟨[], events⟩⟩

/-- Read to the end of a line, after the bytes `read` of it. -/
def take (retried : Failure → Bool) (read : List UInt8) (feed : Feed) : Taken :=
  takeFrom retried read feed.buffer feed.events

variable (retried : Failure → Bool)

theorem size_takeFrom (read buffer : List UInt8) (events : List Event) :
    (takeFrom retried read buffer events).bytes.length
        + (takeFrom retried read buffer events).feed.size
        + (if (takeFrom retried read buffer events).stop = .newline then 1 else 0)
      = read.length + buffer.length + Event.total events := by
  induction events generalizing read buffer with
  | nil =>
      rcases h : cutLine? buffer with - | ⟨line, rest⟩
      · simp [takeFrom, h, size]
      · have := length_of_cutLine? h
        simp [takeFrom, h, size]
        omega
  | cons event events ih =>
      rcases h : cutLine? buffer with - | ⟨line, rest⟩
      · rcases event with bytes | cause | -
        · rw [takeFrom, h]
          rw [ih, List.length_append]
          simp [Event.total, Event.size]
          omega
        · by_cases hretried : retried cause = true
          · simp only [takeFrom, h, if_pos hretried]
            rw [ih, List.length_append]
            simp [Event.total, Event.size]
          · simp [takeFrom, h, hretried, size, Event.total, Event.size]
        · simp [takeFrom, h, size, Event.total, Event.size]
      · have := length_of_cutLine? h
        rcases event with bytes | cause | - <;>
          · simp [takeFrom, h, size]
            omega

/-- No byte is lost by reading a line: those of the line, the line feed and those left in the feed
are the bytes there were. -/
theorem size_take (read : List UInt8) (feed : Feed) :
    (feed.take retried read).bytes.length + (feed.take retried read).feed.size
        + (if (feed.take retried read).stop = .newline then 1 else 0)
      = read.length + feed.size := by
  rw [take, size_takeFrom, size, Nat.add_assoc]

end Feed

/-- The text of a line's bytes: a carriage return at the end belongs to the line's end. -/
def lineText (bytes : List UInt8) : String :=
  String.ofList (Text.Utf8.decodeLossy
    (if bytes.getLast? = some carriageReturn then bytes.dropLast else bytes))

end Marginalia.Wire
