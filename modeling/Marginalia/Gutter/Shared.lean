import Marginalia.Gutter

/-!
Gutters shared between clients.

A client holds a handle, and copies of a handle name the same gutter.  Every call is one step on the
gutter its handle names, so whatever several clients do is some sequence of such steps
(`performAll`).
-/

namespace Marginalia

/-- A call that a client makes on a shared gutter. -/
inductive Call (Element Stamp : Type) where
  | attach (findings : List Finding) (document : Document Element Stamp)
  | query (document : Document Element Stamp)
  | dismiss (finding : Finding)
  | clear

/-- The answer to a call. -/
inductive Answer (Element : Type) where
  | attached (tally : Tally)
  | shown (outcome : Outcome Element)
  | dismissed (wasAttached : Bool)
  | cleared
  deriving DecidableEq, Repr

namespace Gutter

variable {Element Stamp : Type} [BEq Element] [BEq Stamp]

/-- One call, as one step. -/
def perform (g : Gutter Element Stamp) : Call Element Stamp → Answer Element × Gutter Element Stamp
  | .attach findings document =>
      let (tally, g) := g.attach findings document
      (.attached tally, g)
  | .query document =>
      let (outcome, g) := g.query document
      (.shown outcome, g)
  | .dismiss finding =>
      let (wasAttached, g) := g.dismiss finding
      (.dismissed wasAttached, g)
  | .clear => (.cleared, g.clear)

/-- A sequence of calls, and the answer to each. -/
def performAll (g : Gutter Element Stamp) :
    List (Call Element Stamp) → List (Answer Element) × Gutter Element Stamp
  | [] => ([], g)
  | call :: calls =>
      let step := g.perform call
      let rest := performAll step.2 calls
      (step.1 :: rest.1, rest.2)

end Gutter

/-- Shared gutters, and for each handle the gutter it names. -/
structure SharedGutters (Element Stamp : Type) where
  gutters : Array (Gutter Element Stamp)
  handles : Array Nat

namespace SharedGutters

variable {Element Stamp : Type} [BEq Element] [BEq Stamp]

/-- Empty gutters of the given styles, with one handle each. -/
def ofStyles (styles : List Style) : SharedGutters Element Stamp where
  gutters := (styles.map Gutter.ofStyle).toArray
  handles := (List.range styles.length).toArray

/-- The gutter a handle names. -/
def get? (s : SharedGutters Element Stamp) (handle : Nat) : Option (Gutter Element Stamp) := do
  let number ← s.handles[handle]?
  s.gutters[number]?

/-- Copy a handle.  The answer is the new handle. -/
def copyHandle (s : SharedGutters Element Stamp) (handle : Nat) :
    Option (Nat × SharedGutters Element Stamp) := do
  let number ← s.handles[handle]?
  return (s.handles.size, { s with handles := s.handles.push number })

/-- Make a call on the gutter a handle names. -/
def perform (s : SharedGutters Element Stamp) (handle : Nat) (call : Call Element Stamp) :
    Option (Answer Element × SharedGutters Element Stamp) := do
  let number ← s.handles[handle]?
  let gutter ← s.gutters[number]?
  let (answer, gutter) := gutter.perform call
  return (answer, { s with gutters := s.gutters.setIfInBounds number gutter })

end SharedGutters

end Marginalia
