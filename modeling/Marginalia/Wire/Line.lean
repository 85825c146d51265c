import Marginalia.Finding
import Marginalia.Text.Digit

/-!
One line of the analyzer's output.

Two shapes of line carry a finding; every other line is noise.

* a single finding: a tab, `line N: ` and a message;
* the header of a range finding: `line A-B (description):`, whose body follows on the next lines.

`classify` tells them apart.  Numbers count lines from 1 and may be written in the digits of any
script, but only ASCII numbers that fit 32 bits have a value; a line of the right shape without a
usable number is a fault (`Fault`), not a finding.
-/

namespace Marginalia.Wire

open Text

/-- Why a line with the shape of a finding is none. -/
inductive Fault where
  | badNumber (digits : String)
  | zeroLine
  deriving DecidableEq, Repr

/-- The wording of a fault. -/
def Fault.message : Fault → String
  | .badNumber digits => "line number \"" ++ digits ++ "\" is not a valid decimal line number"
  | .zeroLine => "line numbers are 1-indexed, got 0"

/-- The header of a range finding: its first and last line, counted from 1. -/
structure Header where
  first : UInt32
  last : UInt32
  deriving DecidableEq, Repr

/-- The finding a header opens, before any line of its body. -/
def Header.opened (h : Header) : Finding where
  line := h.first - 1
  text := "Refactor lines " ++ decimalText h.first.toNat ++ "-" ++ decimalText h.last.toNat
    ++ " into new function: \n"

/-- What a line of the right shape says. -/
inductive Shape where
  | single (finding : Finding)
  | header (header : Header)
  deriving DecidableEq, Repr

/-! ### The two shapes -/

/-- A nonempty run of digits at the start of a text, and the rest. -/
def digitRun? (chars : List Char) : Option (List Char × List Char) :=
  match chars.takeWhile isDigit with
  | [] => none
  | d :: digits => some (d :: digits, chars.dropWhile isDigit)

/-- The number of a single finding.  The message has no line feed. -/
def singleNumber? (line : List Char) : Option (List Char) := do
  let rest ← "\tline ".toList.isPrefixOf? line
  let (digits, rest) ← digitRun? rest
  let message ← ": ".toList.isPrefixOf? rest
  if message.contains '\n' then none else some digits

/-- The two numbers of a header.  The description holds no closing parenthesis. -/
def headerNumbers? (line : List Char) : Option (List Char × List Char) := do
  let rest ← "line ".toList.isPrefixOf? line
  let (first, rest) ← digitRun? rest
  let rest ← "-".toList.isPrefixOf? rest
  let (last, rest) ← digitRun? rest
  let rest ← " (".toList.isPrefixOf? rest
  if rest.dropWhile (· != ')') = [')', ':'] then some (first, last) else none

/-- Whether a line has the shape of a single finding. -/
def isSingle (line : String) : Bool := (singleNumber? line.toList).isSome

/-- Whether a line has the shape of a header. -/
def isHeader (line : String) : Bool := (headerNumbers? line.toList).isSome

/-! ### Their numbers -/

/-- The value of a run of digits. -/
def number? (digits : List Char) : Except Fault UInt32 :=
  match decimal? digits with
  | some n =>
      if n < UInt32.size then .ok (UInt32.ofNat n) else .error (.badNumber (String.ofList digits))
  | none => .error (.badNumber (String.ofList digits))

/-- The value of a run of digits that counts lines from 1. -/
def lineNumber? (digits : List Char) : Except Fault UInt32 := do
  let n ← number? digits
  if n = 0 then .error .zeroLine else .ok n

/-! ### What a line says -/

/-- What is after the first colon of a line. -/
def afterColon (line : String) : String :=
  String.ofList ((line.toList.dropWhile (· != ':')).drop 1)

/-- What a line says, if it has one of the two shapes.  The message of a single finding is what is
after the colon, and keeps the space before it. -/
def classify (line : String) : Option (Except Fault Shape) :=
  match singleNumber? line.toList with
  | some digits =>
      some do
        let n ← lineNumber? digits
        return .single ⟨n - 1, afterColon line⟩
  | none =>
      match headerNumbers? line.toList with
      | some (first, last) =>
          some do
            let a ← lineNumber? first
            let b ← number? last
            return .header ⟨a, b⟩
      | none => none

end Marginalia.Wire
