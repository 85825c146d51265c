import Marginalia.Settings.Toml.Quoted
import Marginalia.Settings.Toml.Scalar
import Marginalia.Settings.Toml.Tables

/-!
TOML documents.

A document is a sequence of lines, each of which is blank, a comment, a header or a key with its
value.  Arrays and inline tables may run over several lines, hold comments and end in a comma; they
may be nested to a depth of 80, and a key has no more parts than that.  `parse?` gives the table a
document describes, or nothing if the document is not well formed.

The bound on the number of steps is twice the length of the text: a value takes at least one
character, and so does what introduces or follows it.
-/

namespace Marginalia.Settings.Toml

/-! ### Blanks, comments and line ends -/

/-- The text without the blanks at its start. -/
def dropSpaces (chars : List Char) : List Char := chars.dropWhile isSpace

/-- The text after a comment, which must reach to the end of its line. -/
def comment? (chars : List Char) : Option (List Char) :=
  match chars.dropWhile isPrintable with
  | [] => some []
  | c :: rest => if (newline? (c :: rest)).isSome then some (c :: rest) else none

/-- The text after the end of a line, before which only blanks and a comment may stand. -/
def lineEnd? (chars : List Char) : Option (List Char) :=
  match dropSpaces chars with
  | [] => some []
  | '#' :: rest => (comment? rest).map dropNewline
  | rest => newline? rest

/-- The text after blanks, line breaks and comments. -/
def dropGaps? : Nat → List Char → Option (List Char)
  | 0, _ => none
  | steps + 1, chars =>
      match dropSpaces chars with
      | [] => some []
      | '#' :: rest => do dropGaps? steps (← comment? rest)
      | c :: rest =>
          match newline? (c :: rest) with
          | some rest => dropGaps? steps rest
          | none => some (c :: rest)

/-- The text after blanks, line breaks and comments. -/
def dropGap? (chars : List Char) : Option (List Char) := dropGaps? (chars.length + 1) chars

/-! ### Keys -/

/-- Whether a character may stand in a bare key. -/
def isBare (c : Char) : Bool := c.isAlphanum || c = '_' || c = '-'

/-- One part of a key: bare or a string on one line. -/
def keyPart? (chars : List Char) : Option (String × List Char) :=
  match chars with
  | '"' :: rest =>
      (basic? (rest.length + 1) rest).map fun (content, rest) => (String.ofList content, rest)
  | c :: rest =>
      if c = apostrophe then
        (literal? rest).map fun (content, rest) => (String.ofList content, rest)
      else if isBare c then
        some (String.ofList ((c :: rest).takeWhile isBare), (c :: rest).dropWhile isBare)
      else none
  | [] => none

/-- How deep arrays and inline tables may be nested, and how many parts a key may have. -/
def maxDepth : Nat := 80

/-- A key of so many parts at most: its parts before the last, its last part, and the text after it
and the blanks that follow. -/
def keyParts? : Nat → List Char → Option (List String × String × List Char)
  | 0, _ => none
  | parts + 1, chars => do
      let (part, rest) ← keyPart? chars
      match dropSpaces rest with
      | '.' :: rest =>
          let (path, key, rest) ← keyParts? parts (dropSpaces rest)
          return (part :: path, key, rest)
      | rest => return ([], part, rest)

/-- A key: its parts before the last, its last part, and the text after it and the blanks that
follow. -/
def key? (chars : List Char) : Option (List String × String × List Char) := keyParts? maxDepth chars

/-- A key and the equals sign after it on one line, and the text after the blanks that follow. -/
def keyAndSign? (chars : List Char) : Option (List String × String × List Char) := do
  let (path, key, rest) ← key? chars
  let rest ← ['='].isPrefixOf? rest
  return (path, key, dropSpaces rest)

/-- A key and the equals sign after it inside an inline table, where line breaks and comments may
stand around the sign. -/
def innerKeyAndSign? (chars : List Char) : Option (List String × String × List Char) := do
  let (path, key, rest) ← key? chars
  let rest ← ['='].isPrefixOf? (← dropGap? rest)
  return (path, key, ← dropGap? rest)

/-! ### Values -/

/-- Whether a character ends a scalar. -/
def endsScalar (c : Char) : Bool :=
  c = ' ' || c = '\t' || c = '\n' || c = '\r' || c = ',' || c = '[' || c = ']' || c = '{'
    || c = '}' || c = '#' || c = '='

/-- A scalar at the start of a text.  A blank between a date and a time belongs to it. -/
def scalarRun (chars : List Char) : List Char × List Char :=
  let run := chars.takeWhile fun c => !endsScalar c
  let rest := chars.dropWhile fun c => !endsScalar c
  match date? run, rest with
  | some [], ' ' :: d :: more =>
      if isDigitOf 10 d then
        (run ++ ' ' :: (d :: more).takeWhile fun c => !endsScalar c,
          (d :: more).dropWhile fun c => !endsScalar c)
      else (run, rest)
  | _, _ => (run, rest)

mutual

/-- A value at the start of a text, inside so many more brackets. -/
def value? (depth : Nat) : Nat → List Char → Option (Value × List Char)
  | 0, _ => none
  | steps + 1, chars =>
      match chars with
      | '[' :: rest =>
          match depth with
          | 0 => none
          | depth + 1 => do
              let (items, rest) ← items? depth steps (← dropGap? rest)
              return (.list items, rest)
      | '{' :: rest =>
          match depth with
          | 0 => none
          | depth + 1 => do
              let (members, rest) ← pairs? depth steps [] (← dropGap? rest)
              return (.table (closeMembers members), rest)
      | _ =>
          match string? chars with
          | some (content, rest) => some (.text content, rest)
          | none => (scalar? (scalarRun chars).1).map fun value => (value, (scalarRun chars).2)

/-- The items of an array up to its closing bracket. -/
def items? (depth : Nat) : Nat → List Char → Option (List Value × List Char)
  | 0, _ => none
  | steps + 1, chars =>
      match chars with
      | ']' :: rest => some ([], rest)
      | _ => do
          let (item, rest) ← value? depth steps chars
          match ← dropGap? rest with
          | ',' :: rest =>
              let (items, rest) ← items? depth steps (← dropGap? rest)
              return (item :: items, rest)
          | ']' :: rest => return ([item], rest)
          | _ => none

/-- The members of an inline table up to its closing brace, after those already read. -/
def pairs? (depth : Nat) : Nat → Members → List Char → Option (Members × List Char)
  | 0, _, _ => none
  | steps + 1, members, chars =>
      match chars with
      | '}' :: rest => some (members, rest)
      | _ => do
          let (path, key, rest) ← innerKeyAndSign? chars
          let (value, rest) ← value? depth steps rest
          let members ← members.define path key value
          match ← dropGap? rest with
          | ',' :: rest => pairs? depth steps members (← dropGap? rest)
          | '}' :: rest => return (members, rest)
          | _ => none

end

/-! ### Documents -/

/-- A document under construction: its members and the path of the table that is open. -/
structure Draft where
  members : Members
  header : List String

/-- Read one line at the start of a text. -/
def line? (draft : Draft) (chars : List Char) : Option (Draft × List Char) :=
  match dropSpaces chars with
  | '[' :: '[' :: rest => do
      let (path, key, rest) ← key? (dropSpaces rest)
      let rest ← [']', ']'].isPrefixOf? rest
      let members ← draft.members.openElement path key
      let rest ← lineEnd? rest
      return (⟨members, path ++ [key]⟩, rest)
  | '[' :: rest => do
      let (path, key, rest) ← key? (dropSpaces rest)
      let rest ← [']'].isPrefixOf? rest
      let members ← draft.members.openTable path key
      let rest ← lineEnd? rest
      return (⟨members, path ++ [key]⟩, rest)
  | rest =>
      match lineEnd? rest with
      | some rest => some (draft, rest)
      | none => do
          let (path, key, rest) ← keyAndSign? rest
          let (value, rest) ← value? maxDepth (2 * rest.length + 2) rest
          let members ← draft.members.defineUnder draft.header path key value
          let rest ← lineEnd? rest
          return ({ draft with members := members }, rest)

/-- Read all lines of a text. -/
def lines? : Nat → Draft → List Char → Option Draft
  | 0, _, _ => none
  | steps + 1, draft, chars =>
      match chars with
      | [] => some draft
      | _ => do
          let (draft, rest) ← line? draft chars
          lines? steps draft rest

/-- The table a document describes.  A byte order mark at the start is no part of it. -/
def parse? (text : List Char) : Option Value :=
  let text := (['\uFEFF'].isPrefixOf? text).getD text
  (lines? (text.length + 1) ⟨[], []⟩ text).map fun draft => .table (closeMembers draft.members)

end Marginalia.Settings.Toml
