/-!
How the markers of a gutter look and when they are collected.

A style is an icon and a refresh pass.  Two markers can only fall together when their icons merge
and they belong to the same pass.
-/

namespace Marginalia

/-- The icon of a marker. -/
inductive Icon where
  | earthworm
  | warning
  | info
  deriving DecidableEq, Repr

namespace Icon

/-- Every icon. -/
def all : List Icon := [.earthworm, .warning, .info]

/-- The name of an icon. -/
def name : Icon → String
  | .earthworm => "earthworm"
  | .warning => "warning"
  | .info => "info"

/-- Whether markers with these icons may share one place in the gutter. -/
def mergesWith (a b : Icon) : Bool := a == b

/-- The icon of a name. -/
def ofName? (s : String) : Option Icon := all.find? fun icon => icon.name == s

end Icon

/-- The refresh pass in which markers are collected again. -/
inductive Pass where
  | updateAll
  | lineMarkers
  | externalTools
  deriving DecidableEq, Repr

namespace Pass

/-- Every pass. -/
def all : List Pass := [.updateAll, .lineMarkers, .externalTools]

/-- The name of a pass. -/
def name : Pass → String
  | .updateAll => "update_all"
  | .lineMarkers => "line_markers"
  | .externalTools => "external_tools"

/-- The pass of a name. -/
def ofName? (s : String) : Option Pass := all.find? fun pass => pass.name == s

end Pass

/-- The icon and the refresh pass given to every marker of a gutter. -/
structure Style where
  icon : Icon := .earthworm
  refresh : Pass := .updateAll
  deriving DecidableEq, Repr

@[simp] theorem Icon.mergesWith_iff {a b : Icon} : a.mergesWith b = true ↔ a = b :=
  beq_iff_eq

theorem Icon.ofName?_name (icon : Icon) : Icon.ofName? icon.name = some icon := by
  cases icon <;> rfl

theorem Pass.ofName?_name (pass : Pass) : Pass.ofName? pass.name = some pass := by
  cases pass <;> rfl

end Marginalia
