import Marginalia.Bisect
import Marginalia.Document
import Marginalia.Text.Tokens

/-!
A plain text as a document.

A source text keeps its lines and tokens beside the text, and a stamp that counts the edits.  Its
elements are the numbers of its tokens; the element after a token is the next token.  The index is
rebuilt by every edit, so it is always that of the text.  An edit outside the text, or one that cuts
a character, is refused and changes nothing.
-/

namespace Marginalia

open Text

/-- Why an edit is refused. -/
inductive EditError where
  | outOfBounds (span : Span) (length : Nat)
  | notCharBoundary (span : Span)
  deriving DecidableEq, Repr

/-- The wording of a refusal. -/
def EditError.message : EditError → String
  | .outOfBounds span length =>
      "edit range " ++ span.written ++ " is outside the document (length " ++ decimalText length
        ++ ")"
  | .notCharBoundary span =>
      "edit range " ++ span.written ++ " does not fall on character boundaries"

/-- A text with the offsets of its lines, the spans of its tokens and the number of its edits. -/
structure SourceText where
  text : String
  lineStarts : Array Nat
  tokens : Array Span
  stamp : UInt64
  deriving DecidableEq, Repr

namespace SourceText

/-- A text with its lines and tokens and a given stamp. -/
def index (text : String) (stamp : UInt64) : SourceText where
  text := text
  lineStarts := (Text.lineStarts text.toList).toArray
  tokens := (tokenSpans text.toList).toArray
  stamp := stamp

/-- A text that has not been edited. -/
def ofText (text : String) : SourceText := index text 0

/-- The length of the text in bytes. -/
def length (s : SourceText) : Nat := byteLength s.text.toList

/-! ### Edits -/

/-- Replace the whole text. -/
def setText (s : SourceText) (text : String) : SourceText := index text (s.stamp + 1)

/-- Replace the text of a span. -/
def replace (s : SourceText) (span : Span) (replacement : String) : Except EditError SourceText :=
  if span.stop < span.start ∨ s.length < span.stop then
    .error (.outOfBounds span s.length)
  else
    match splitAt? span.start s.text.toList, splitAt? span.stop s.text.toList with
    | some (before, _), some (_, after) =>
        .ok (s.setText (String.ofList (before ++ replacement.toList ++ after)))
    | _, _ => .error (.notCharBoundary span)

/-! ### Lookups -/

/-- The line of an offset: the last one that starts at the offset or before it. -/
def lineOf (s : SourceText) (offset : Nat) : Option Nat :=
  if s.length < offset then none
  else
    some (bisect (fun i => s.lineStarts[i]?.any (· ≤ offset)) 0 s.lineStarts.size - 1)

/-- The token at an offset: the first one that ends after it. -/
def tokenAt (s : SourceText) (offset : Nat) : Option Nat :=
  let i := bisect (fun i => s.tokens[i]?.any (·.stop ≤ offset)) 0 s.tokens.size
  if s.tokens[i]?.any (·.start ≤ offset) then some i else none

/-- The token after a token. -/
def nextToken (s : SourceText) (token : Nat) : Option Nat :=
  if token + 1 < s.tokens.size then some (token + 1) else none

/-- The text of a token. -/
def tokenText (s : SourceText) (token : Nat) : Option String := do
  let span ← s.tokens[token]?
  let chars ← slice? s.text.toList span.start span.stop
  return String.ofList chars

/-- The text as a document. -/
def document (s : SourceText) : Document Nat UInt64 where
  lineCount := s.lineStarts.size
  lineStart := fun line => s.lineStarts[line]?
  lineOf := s.lineOf
  stamp := s.stamp
  elementAt := s.tokenAt
  nextSibling := s.nextToken
  range := fun token => s.tokens[token]?

end SourceText

end Marginalia
