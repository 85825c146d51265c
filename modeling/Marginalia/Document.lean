import Marginalia.Span

/-!
What the gutter needs to know of a document.

A document has lines and a structure of elements, such as the nodes of a syntax tree or tokens.
Positions are offsets in bytes, lines are counted from 0.  An element is a handle: it may be looked
up later, when the document has changed, and need not exist any more.  The stamp tells versions of
the document apart.

Nothing is assumed of how these fit together, so what is proved of gutters holds whatever a host
says.  Only `start` has a default.
-/

namespace Marginalia

/-- One version of a document, as any host may provide it. -/
structure Document (Element Stamp : Type) where
  /-- The number of lines. -/
  lineCount : Nat
  /-- The offset at which a line starts, if there is such a line. -/
  lineStart : Nat → Option Nat
  /-- The line of an offset, if it is not past the end. -/
  lineOf : Nat → Option Nat
  /-- The version of the document. -/
  stamp : Stamp
  /-- The smallest element at an offset. -/
  elementAt : Nat → Option Element
  /-- The element after an element. -/
  nextSibling : Element → Option Element
  /-- Where an element is now, if it still exists. -/
  range : Element → Option Span
  /-- Where the text of an element's own starts now, if the element still exists.  A host whose
  elements begin with white space or comments may say so; else this is where the range starts. -/
  start : Element → Option Nat := fun e => (range e).map Span.start

end Marginalia
