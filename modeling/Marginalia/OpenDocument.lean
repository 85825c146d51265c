import Marginalia.Gutter
import Marginalia.SourceText

/-!
An open document with its gutter.

Findings are attached to the text as it is; an edit gives the text another stamp, and the next time
the markers are asked for the gutter gives the findings up.
-/

namespace Marginalia

/-- A text and its gutter. -/
structure OpenDocument where
  source : SourceText
  gutter : Gutter Nat UInt64

namespace OpenDocument

/-- Open a text with a gutter without findings. -/
def ofText (text : String) (style : Style) : OpenDocument :=
  ⟨SourceText.ofText text, Gutter.ofStyle style⟩

/-- Attach the findings of a fresh run of the analyzer. -/
def annotate (o : OpenDocument) (findings : List Finding) : Tally × OpenDocument :=
  let (tally, gutter) := o.gutter.attach findings o.source.document
  (tally, { o with gutter := gutter })

/-- The markers of the document. -/
def markers (o : OpenDocument) : Outcome Nat × OpenDocument :=
  let (outcome, gutter) := o.gutter.query o.source.document
  (outcome, { o with gutter := gutter })

/-- Remove a finding, as when the user has gone to its marker. -/
def dismiss (o : OpenDocument) (f : Finding) : Bool × OpenDocument :=
  let (wasAttached, gutter) := o.gutter.dismiss f
  (wasAttached, { o with gutter := gutter })

/-- Show the markers in another style from now on. -/
def withStyle (o : OpenDocument) (style : Style) : OpenDocument :=
  { o with gutter := o.gutter.withStyle style }

/-- Replace the text of a span.  A refused edit changes nothing. -/
def replace (o : OpenDocument) (span : Span) (replacement : String) :
    Except EditError OpenDocument :=
  (o.source.replace span replacement).map fun source => { o with source := source }

/-- Replace the whole text. -/
def setText (o : OpenDocument) (text : String) : OpenDocument :=
  { o with source := o.source.setText text }

end OpenDocument

end Marginalia
