import Marginalia.Span
import Marginalia.Text.Blank
import Marginalia.Text.Offset
import Marginalia.Text.Word

/-!
The tokens and the lines of a plain text.

A token is a longest run of white space, a longest run of word characters, or a single other
character.  White space runs across line breaks.  A line starts at the start of the text and after
each line feed.
-/

namespace Marginalia.Text

/-- The kind of a character, and of the token it belongs to. -/
inductive Kind where
  | blank
  | word
  | mark
  deriving DecidableEq, Repr

/-- The kind of a character. -/
def kind (c : Char) : Kind := if isBlank c then .blank else if isWordChar c then .word else .mark

/-- Whether two characters side by side belong to one token. -/
def joins (c d : Char) : Bool := kind c == kind d && kind c != .mark

/-- Put a character in front of the tokens after it: it joins the first of them or is a token of its
own. -/
def pushFront (c : Char) : List (List Char) → List (List Char)
  | [] => [[c]]
  | run :: more =>
      if run.head?.any (joins c) then (c :: run) :: more else [c] :: run :: more

/-- The tokens of a text, in order, as the characters they consist of. -/
def runs : List Char → List (List Char)
  | [] => []
  | c :: rest => pushFront c (runs rest)

/-- The spans of consecutive parts of a text, the first of which starts at an offset. -/
def spansFrom (offset : Nat) : List (List Char) → List Span
  | [] => []
  | part :: more => ⟨offset, offset + byteLength part⟩ :: spansFrom (offset + byteLength part) more

/-- The spans of the tokens of a text. -/
def tokenSpans (chars : List Char) : List Span := spansFrom 0 (runs chars)

/-- The offsets after the line feeds of a text that starts at an offset. -/
def lineStartsFrom (offset : Nat) : List Char → List Nat
  | [] => []
  | c :: rest =>
      if c = '\n' then (offset + c.utf8Size) :: lineStartsFrom (offset + c.utf8Size) rest
      else lineStartsFrom (offset + c.utf8Size) rest

/-- The offsets at which the lines of a text start. -/
def lineStarts (chars : List Char) : List Nat := 0 :: lineStartsFrom 0 chars

theorem flatten_pushFront (c : Char) (parts : List (List Char)) :
    (pushFront c parts).flatten = c :: parts.flatten := by
  cases parts with
  | nil => rfl
  | cons run more =>
      rw [pushFront]
      split <;> rfl

/-- No character is lost or moved by cutting a text into tokens. -/
theorem flatten_runs (chars : List Char) : (runs chars).flatten = chars := by
  induction chars with
  | nil => rfl
  | cons c rest ih => rw [runs, flatten_pushFront, ih]

/-- No token is empty. -/
theorem ne_nil_of_mem_runs {chars run : List Char} (h : run ∈ runs chars) : run ≠ [] := by
  induction chars generalizing run with
  | nil => cases h
  | cons c rest ih =>
      rw [runs] at h
      rcases hparts : runs rest with - | ⟨first, more⟩
      · rw [hparts] at h
        obtain rfl := List.mem_singleton.mp h
        exact List.cons_ne_nil c []
      · rw [hparts] at h ih
        rw [pushFront] at h
        split at h
        · rcases List.mem_cons.mp h with rfl | h
          · exact List.cons_ne_nil c first
          · exact ih (List.mem_cons_of_mem _ h)
        · rcases List.mem_cons.mp h with rfl | h
          · exact List.cons_ne_nil c []
          · exact ih h

end Marginalia.Text
