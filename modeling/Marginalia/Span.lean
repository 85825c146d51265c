import Marginalia.Text.Digit

/-!
Stretches of a document, as pairs of byte offsets.
-/

namespace Marginalia

/-- A stretch of a document, from `start` up to and without `stop`. -/
structure Span where
  start : Nat
  stop : Nat
  deriving DecidableEq, Repr

/-- A span as it is written in messages. -/
def Span.written (s : Span) : String :=
  Text.decimalText s.start ++ ".." ++ Text.decimalText s.stop

end Marginalia
