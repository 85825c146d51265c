/-!
UTF-8 between bytes and characters.

Decoding is a machine that reads one byte at a time (`advance`).  Between characters it waits for a
lead byte; after one it owes continuation bytes, and the first of them has a range of its own after
`E0`, `ED`, `F0` and `F4`, so that overlong forms and surrogates are refused at the byte that makes
them so.  A byte that cannot continue a sequence ends it as malformed and is then read as a lead
byte itself.  So every malformed stretch is reported once per maximal prefix of a sequence, and
`decodeLossy` writes one replacement character for each.

`decodeFrom_append` says that the machine may be stopped and resumed at any byte.
-/

namespace Marginalia.Text.Utf8

/-- A sequence under way: after the next byte, which must lie between `lo` and `hi`, `more` further
continuation bytes are owed; `value` holds the payload bits read so far. -/
structure Begun where
  more : Nat
  lo : UInt8
  hi : UInt8
  value : Nat
  deriving DecidableEq, Repr

/-- What a byte does between characters. -/
inductive Lead where
  | char (c : Char)
  | begun (s : Begun)
  | malformed
  deriving DecidableEq, Repr

/-- The lead bytes of UTF-8, with the range of the byte that may follow. -/
def lead (b : UInt8) : Lead :=
  if b < 0x80 then .char (Char.ofNat b.toNat)
  else if 0xC2 ≤ b ∧ b ≤ 0xDF then .begun ⟨0, 0x80, 0xBF, b.toNat - 0xC0⟩
  else if b = 0xE0 then .begun ⟨1, 0xA0, 0xBF, 0⟩
  else if b = 0xED then .begun ⟨1, 0x80, 0x9F, 0xD⟩
  else if 0xE1 ≤ b ∧ b ≤ 0xEF then .begun ⟨1, 0x80, 0xBF, b.toNat - 0xE0⟩
  else if b = 0xF0 then .begun ⟨2, 0x90, 0xBF, 0⟩
  else if 0xF1 ≤ b ∧ b ≤ 0xF3 then .begun ⟨2, 0x80, 0xBF, b.toNat - 0xF0⟩
  else if b = 0xF4 then .begun ⟨2, 0x80, 0x8F, 4⟩
  else .malformed

/-- Read a byte between characters: the characters it completes (`none` for a malformed sequence)
and the sequence it begins. -/
def start (b : UInt8) : List (Option Char) × Option Begun :=
  match lead b with
  | .char c => ([some c], none)
  | .begun s => ([], some s)
  | .malformed => ([none], none)

/-- Read a byte after the sequence under way, if any. -/
def advance (state : Option Begun) (b : UInt8) : List (Option Char) × Option Begun :=
  match state with
  | none => start b
  | some s =>
      if s.lo ≤ b ∧ b ≤ s.hi then
        let value := 64 * s.value + (b.toNat - 0x80)
        match s.more with
        | 0 => ([some (Char.ofNat value)], none)
        | more + 1 => ([], some ⟨more, 0x80, 0xBF, value⟩)
      else (none :: (start b).1, (start b).2)

/-- Decode from a state of the machine.  A sequence still under way at the end is malformed. -/
def decodeFrom (state : Option Begun) : List UInt8 → List (Option Char)
  | [] => if state.isSome then [none] else []
  | b :: rest => (advance state b).1 ++ decodeFrom (advance state b).2 rest

/-- The characters of `bytes`, with `none` for each malformed sequence. -/
def decode (bytes : List UInt8) : List (Option Char) := decodeFrom none bytes

/-- The character that stands for what could not be decoded. -/
def replacement : Char := '\uFFFD'

/-- The characters of `bytes`, each malformed sequence shown as one replacement character. -/
def decodeLossy (bytes : List UInt8) : List Char := (decode bytes).map fun c => c.getD replacement

/-- The characters of `bytes`, if all of them are well formed. -/
def decode? (bytes : List UInt8) : Option (List Char) := (decode bytes).mapM id

/-- The bytes of a text. -/
def encode (chars : List Char) : List UInt8 := chars.flatMap String.utf8EncodeChar

@[simp] theorem encode_nil : encode [] = [] := rfl

@[simp] theorem encode_append (a b : List Char) : encode (a ++ b) = encode a ++ encode b :=
  List.flatMap_append

/-! ### Stopping and resuming -/

/-- The output and the state of the machine after some bytes. -/
def run (state : Option Begun) : List UInt8 → List (Option Char) × Option Begun
  | [] => ([], state)
  | b :: rest =>
      let (out, next) := run (advance state b).2 rest
      ((advance state b).1 ++ out, next)

/-- Decoding may be stopped after any byte and resumed from the state reached. -/
theorem decodeFrom_append (state : Option Begun) (a b : List UInt8) :
    decodeFrom state (a ++ b) = (run state a).1 ++ decodeFrom (run state a).2 b := by
  induction a generalizing state with
  | nil => rfl
  | cons x rest ih => simp [decodeFrom, run, ih]

end Marginalia.Text.Utf8
