import Marginalia.Document
import Marginalia.Text.Digit

/-!
The element to which a finding on a line is anchored.

It is the smallest element at the start of the line.  Where the text of that element's own begins on
an earlier line, as white space across a line break does, it is the element after it.
-/

namespace Marginalia

open Text (decimalText)

/-- Why a line has no anchor. -/
inductive Unresolved where
  | lineOutOfRange (line : UInt32) (lineCount : Nat)
  | noElement (offset : Nat)
  | noSibling (line : UInt32)
  deriving DecidableEq, Repr

/-- The wording of the reason. -/
def Unresolved.message : Unresolved → String
  | .lineOutOfRange line lineCount =>
      "line " ++ decimalText line.toNat ++ " is outside the document (" ++ decimalText lineCount
        ++ " lines)"
  | .noElement offset => "no element at offset " ++ decimalText offset
  | .noSibling line =>
      "element covering line " ++ decimalText line.toNat
        ++ " starts earlier and has no next sibling"

namespace Document

variable {Element Stamp : Type}

/-- The element to which a finding on `line` is anchored. -/
def anchor (d : Document Element Stamp) (line : UInt32) : Except Unresolved Element :=
  match d.lineStart line.toNat with
  | none => .error (.lineOutOfRange line d.lineCount)
  | some offset =>
      match d.elementAt offset with
      | none => .error (.noElement offset)
      | some element =>
          if (d.start element).bind d.lineOf = some line.toNat then .ok element
          else
            match d.nextSibling element with
            | some sibling => .ok sibling
            | none => .error (.noSibling line)

end Document

end Marginalia
