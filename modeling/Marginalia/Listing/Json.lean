import Marginalia.Text.Digit

/-!
JSON arrays of flat objects, written over several lines.

Each object and each of its members stands on lines of its own, indented by two spaces for each
level; an empty array is written `[]`.  In a string, quotes, backslashes and control characters
below the space are escaped, by a letter where JSON has one and otherwise by their code in lower
case; all other characters stand for themselves.
-/

namespace Marginalia.Listing.Json

/-- A member's value: a text or a natural number. -/
inductive Scalar where
  | text (value : String)
  | number (value : Nat)
  deriving DecidableEq, Repr

/-- A digit of base 16 in lower case. -/
def hexDigit (n : Nat) : Char := Nat.digitChar (n % 16)

/-- A character inside a string. -/
def escaped (c : Char) : List Char :=
  if c = '"' then ['\\', '"']
  else if c = '\\' then ['\\', '\\']
  else if c = '\n' then ['\\', 'n']
  else if c = '\t' then ['\\', 't']
  else if c = '\r' then ['\\', 'r']
  else if c = '\x08' then ['\\', 'b']
  else if c = '\x0c' then ['\\', 'f']
  else if c.toNat < 0x20 then ['\\', 'u', '0', '0', hexDigit (c.toNat / 16), hexDigit c.toNat]
  else [c]

/-- A string with its quotes. -/
def quoted (s : String) : String := "\"" ++ String.ofList (s.toList.flatMap escaped) ++ "\""

/-- A value. -/
def scalar : Scalar → String
  | .text value => quoted value
  | .number value => Text.decimalText value

/-- A member of an object, on a line of its own. -/
def member (m : String × Scalar) : String := "    " ++ quoted m.1 ++ ": " ++ scalar m.2

/-- An object inside an array. -/
def object (members : List (String × Scalar)) : String :=
  "  \x7b\n" ++ String.intercalate ",\n" (members.map member) ++ "\n  \x7d"

/-- An array of objects. -/
def array : List (List (String × Scalar)) → String
  | [] => "[]"
  | o :: objects => "[\n" ++ String.intercalate ",\n" ((o :: objects).map object) ++ "\n]"

end Marginalia.Listing.Json
