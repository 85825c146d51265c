import Marginalia.Text.Blank

/-!
The lines of a text.

A line ends at a line feed, and a carriage return just before that line feed belongs to the end of
the line.  A last line without a line feed is a line if it is nonempty, and keeps a carriage return
at its end.
-/

namespace Marginalia.Text

/-- The lines of a text, without their ends. -/
def lines : List Char → List (List Char)
  | [] => []
  | '\n' :: rest => [] :: lines rest
  | '\r' :: '\n' :: rest => [] :: lines rest
  | c :: rest =>
      match lines rest with
      | [] => [[c]]
      | line :: more => (c :: line) :: more

/-- The first line of a text without the white space around it, empty if there is no line. -/
def firstLine (chars : List Char) : List Char := trim ((lines chars).headD [])

end Marginalia.Text
