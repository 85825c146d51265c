import Marginalia.Listing.Json
import Marginalia.Marker
import Marginalia.SourceText
import Marginalia.Terminal

/-!
The markers of a document as a listing for the terminal.

In text form each marker is a line with the file, the line number counted from 1 and the first line
of the message, followed by the remaining lines of the message, indented by four spaces.  In JSON
form the listing is an array with one object for each marker.  Messages come from another program
and are sanitized in both forms.
-/

namespace Marginalia

/-- The form of a listing. -/
inductive Format where
  | text
  | json
  deriving DecidableEq, Repr

namespace Listing

open Text (lines decimalText)
open Terminal (sanitize)

/-- The number of a finding's line, counted from 1. -/
def lineNumber (f : Finding) : UInt32 := f.line + 1

/-- Below the last line that there can be, it is one more than the line. -/
theorem toNat_lineNumber {f : Finding} (h : f.line.toNat + 1 < UInt32.size) :
    (lineNumber f).toNat = f.line.toNat + 1 := by
  rw [lineNumber, UInt32.toNat_add]
  exact Nat.mod_eq_of_lt h

/-! ### Text -/

/-- The first line of a marker in text form. -/
def headLine (file : String) (m : Marker Nat) : String :=
  file ++ ":" ++ decimalText (lineNumber m.finding).toNat ++ ": " ++ sanitize m.finding.summary

/-- The lines after the first, before they are indented. -/
def bodyLines (m : Marker Nat) : List String :=
  ((lines (sanitize m.finding.text).toList).drop 1).map String.ofList

/-- The lines of a marker in text form. -/
def textLines (file : String) (m : Marker Nat) : List String :=
  headLine file m :: (bodyLines m).map ("    " ++ ·)

/-- A listing in text form. -/
def text (file : String) (markers : List (Marker Nat)) : String :=
  String.join ((markers.flatMap (textLines file)).map (· ++ "\n"))

/-! ### JSON -/

/-- The object of a marker in JSON form. -/
def record (file : String) (source : SourceText) (m : Marker Nat) : List (String × Json.Scalar) :=
  [("file", .text file),
    ("line", .number (lineNumber m.finding).toNat),
    ("anchor", .text ((source.tokenText m.anchor).getD "")),
    ("start", .number m.range.start),
    ("end", .number m.range.stop),
    ("icon", .text m.icon.name),
    ("refresh", .text m.refresh.name),
    ("text", .text (sanitize m.tooltip))]

/-- A listing in JSON form. -/
def json (file : String) (source : SourceText) (markers : List (Marker Nat)) : String :=
  Json.array (markers.map (record file source)) ++ "\n"

/-- A listing in either form. -/
def write (format : Format) (file : String) (source : SourceText) (markers : List (Marker Nat)) :
    String :=
  match format with
  | .text => text file markers
  | .json => json file source markers

end Listing

end Marginalia
