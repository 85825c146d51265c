import Marginalia.Document
import Marginalia.Finding
import Marginalia.Style

/-!
A marker in the gutter of a document.

Two markers are duplicates when they would look the same at the same place: same anchor, icons that
merge, same refresh pass, same message.  The line and the range are not compared.  Where the
equality of elements is lawful this is an equivalence (`duplicates_iff`, `key`).
-/

namespace Marginalia

/-- A marker: the element it stands at, where that element is, how it looks, and the finding it
shows. -/
structure Marker (Element : Type) where
  anchor : Element
  range : Span
  icon : Icon
  refresh : Pass
  finding : Finding
  deriving DecidableEq, Repr

namespace Marker

variable {Element : Type}

/-- The message shown for a marker. -/
def tooltip (m : Marker Element) : String := m.finding.text

/-- Whether two markers would look the same at the same place. -/
def duplicates [BEq Element] (m n : Marker Element) : Bool :=
  m.anchor == n.anchor && m.icon.mergesWith n.icon && m.refresh == n.refresh
    && m.tooltip == n.tooltip

/-- What duplicates have in common. -/
def key (m : Marker Element) : Element × Icon × Pass × String :=
  (m.anchor, m.icon, m.refresh, m.tooltip)

/-- Duplicates are the markers of one key. -/
theorem duplicates_iff [BEq Element] [LawfulBEq Element] {m n : Marker Element} :
    m.duplicates n = true ↔ m.key = n.key := by
  simp [duplicates, key, and_assoc]

end Marker

/-- The outcome of asking for the markers of a document. -/
inductive Outcome (Element : Type) where
  /-- The markers of the document. -/
  | markers (markers : List (Marker Element))
  /-- The document has changed since its findings were attached, and they are gone. -/
  | invalidated
  deriving DecidableEq, Repr

namespace Outcome

variable {Element : Type}

/-- The markers of an outcome, none if the findings are gone. -/
def toList : Outcome Element → List (Marker Element)
  | .markers all => all
  | .invalidated => []

/-- Whether the analyzer has to run again. -/
def needsRefresh : Outcome Element → Bool
  | .markers _ => false
  | .invalidated => true

end Outcome

end Marginalia
