import Marginalia.Document.Anchor
import Marginalia.Finding.Map
import Marginalia.Marker

/-!
The gutter of a document: its findings, attached to elements.

A gutter is empty or holds the findings of one run of the analyzer, each with the element it was
attached to, and the stamp the document had then.  `attach` replaces them all.  `collect` shows them
as markers for as long as the document carries that stamp; the first time it does not, they are
dropped and the caller is told once.  Elements that no longer exist are passed over, and a marker
that would look like one already collected is left out.
-/

namespace Marginalia

/-- Attached findings: the stamp of the document they were attached to, and the element of each. -/
structure Bindings (Element Stamp : Type) where
  stamp : Stamp
  anchors : FindingMap Element

/-- The findings of a document and the style of their markers.  Without bindings it is empty. -/
structure Gutter (Element Stamp : Type) where
  held : Option (Bindings Element Stamp)
  style : Style

/-- How many findings were attached, each counted once, and how many had no anchor. -/
structure Tally where
  bound : Nat
  dropped : Nat
  deriving DecidableEq, Repr

/-- The outcome of collecting markers: how many were added, or that the findings are gone. -/
inductive Collected where
  | added (count : Nat)
  | invalidated
  deriving DecidableEq, Repr

namespace Gutter

variable {Element Stamp : Type}

/-- A gutter without findings. -/
def ofStyle (style : Style) : Gutter Element Stamp := ⟨none, style⟩

/-- The same findings in another style. -/
def withStyle (g : Gutter Element Stamp) (style : Style) : Gutter Element Stamp :=
  { g with style := style }

/-! ### What a gutter holds -/

/-- Whether findings are attached, be it none at all. -/
def isBound (g : Gutter Element Stamp) : Bool := g.held.isSome

/-- The number of attached findings. -/
def size (g : Gutter Element Stamp) : Nat :=
  match g.held with
  | some bindings => bindings.anchors.size
  | none => 0

/-- The attached findings in ascending order. -/
def findings (g : Gutter Element Stamp) : List Finding :=
  match g.held with
  | some bindings => bindings.anchors.keys
  | none => []

/-- The element a finding is attached to. -/
def anchor? (g : Gutter Element Stamp) (f : Finding) : Option Element :=
  match g.held with
  | some bindings => bindings.anchors.get? f
  | none => none

/-! ### Attaching -/

/-- The findings that have an anchor in a document, each with its anchor. -/
def anchorAll (d : Document Element Stamp) (findings : List Finding) : FindingMap Element :=
  findings.foldl
    (fun anchors f =>
      match d.anchor f.line with
      | .ok element => anchors.insert f element
      | .error _ => anchors)
    FindingMap.empty

/-- Whether a finding has no anchor in a document. -/
def isLost (d : Document Element Stamp) (f : Finding) : Bool :=
  match d.anchor f.line with
  | .ok _ => false
  | .error _ => true

/-- Attach findings to a document.  All earlier ones are replaced. -/
def attach (g : Gutter Element Stamp) (findings : List Finding) (d : Document Element Stamp) :
    Tally × Gutter Element Stamp :=
  let anchors := anchorAll d findings
  (⟨anchors.size, findings.countP (isLost d)⟩, { g with held := some ⟨d.stamp, anchors⟩ })

/-! ### Collecting -/

/-- The marker of an attached finding. -/
def marker (style : Style) (f : Finding) (element : Element) (range : Span) : Marker Element :=
  ⟨element, range, style.icon, style.refresh, f⟩

/-- Add the marker of one attached finding to a collection, unless its element is gone or the
collection has a marker that looks the same. -/
def addMarker [BEq Element] (style : Style) (d : Document Element Stamp)
    (collection : List (Marker Element)) (binding : Finding × Element) : List (Marker Element) :=
  match d.range binding.2 with
  | none => collection
  | some range =>
      let candidate := marker style binding.1 binding.2 range
      if collection.any fun m => m.duplicates candidate then collection
      else collection ++ [candidate]

/-- Add the markers of the attached findings to a collection.  If the document no longer carries
the stamp of the findings, they are dropped and nothing is added. -/
def collect [BEq Element] [BEq Stamp] (g : Gutter Element Stamp) (d : Document Element Stamp)
    (collection : List (Marker Element)) :
    Collected × List (Marker Element) × Gutter Element Stamp :=
  match g.held with
  | none => (.added 0, collection, g)
  | some bindings =>
      if bindings.stamp == d.stamp then
        let result := bindings.anchors.entries.foldl (addMarker g.style d) collection
        (.added (result.length - collection.length), result, g)
      else (.invalidated, collection, { g with held := none })

/-- The markers of a document. -/
def query [BEq Element] [BEq Stamp] (g : Gutter Element Stamp) (d : Document Element Stamp) :
    Outcome Element × Gutter Element Stamp :=
  match g.collect d [] with
  | (.added _, markers, g) => (.markers markers, g)
  | (.invalidated, _, g) => (.invalidated, g)

/-! ### Removing -/

/-- Remove one finding.  The answer says whether it was attached. -/
def dismiss (g : Gutter Element Stamp) (f : Finding) : Bool × Gutter Element Stamp :=
  match g.held with
  | none => (false, g)
  | some bindings =>
      ((bindings.anchors.get? f).isSome,
        { g with held := some { bindings with anchors := bindings.anchors.erase f } })

/-- Remove all findings. -/
def clear (g : Gutter Element Stamp) : Gutter Element Stamp := { g with held := none }

end Gutter

end Marginalia
