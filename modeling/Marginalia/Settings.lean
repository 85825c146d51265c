import Marginalia.Analyzer
import Marginalia.Settings.Environment
import Marginalia.Settings.Toml
import Marginalia.Text.Utf8

/-!
The settings file.

It is a TOML document with a table `analyzer` and a table `markers`, both of which may be missing.
Whatever it leaves out takes a default.  References to variables are replaced in the home of the
analyzer and nowhere else.
-/

namespace Marginalia

/-- The settings of a file, as far as they are there. -/
structure Settings where
  analyzer : Option Analyzer
  markers : Option Style
  deriving DecidableEq, Repr

namespace Settings

namespace Value

/-- The settings of an analyzer. -/
def analyzer? (dialect : Dialect) (v : Value) : Option Analyzer :=
  let names := ["interpreter", "version", "module", "home", "flags", "timeout_secs"]
  match v.fields? dialect names with
  | some [interpreter, version, moduleName, home, flags, timeoutSecs] => do
      let default : Analyzer := {}
      let interpreter ← field? default.interpreter text? interpreter
      let version ← field? default.version text? version
      let moduleName ← field? default.moduleName text? moduleName
      let home ← field? default.home optionalText? home
      let flags ← field? default.flags texts? flags
      let timeoutSecs ← field? default.timeoutSecs word? timeoutSecs
      return ⟨interpreter, version, moduleName, home, flags, timeoutSecs⟩
  | _ => none

/-- The settings of a file. -/
def settings? (dialect : Dialect) (v : Value) : Option Settings :=
  match v.fields? dialect ["analyzer", "markers"] with
  | some [analyzer, markers] => do
      let analyzer ← field? none (fun v => (v.analyzer? dialect).map some) analyzer
      let markers ← field? none (fun v => (v.style? dialect).map some) markers
      return ⟨analyzer, markers⟩
  | _ => none

end Value

/-- Settings without anything in them. -/
def empty : Settings := ⟨none, none⟩

/-- The analyzer of the settings, with the references in its home replaced. -/
def effectiveAnalyzer (s : Settings) (env : Environment) : Analyzer :=
  let a := s.analyzer.getD {}
  { a with home := a.home.map env.expand }

/-- The style of the settings. -/
def style (s : Settings) : Style := s.markers.getD {}

/-! ### Loading -/

/-- What is found where a settings file is looked for. -/
inductive FileContent where
  | missing
  | unreadable
  | bytes (content : List UInt8)
  deriving DecidableEq, Repr

/-- Why settings cannot be loaded. -/
inductive LoadError where
  | unreadable (path : String)
  | malformed (path : String)
  deriving DecidableEq, Repr

/-- The wording of the reason. -/
def LoadError.message : LoadError → String
  | .unreadable path => "failed to read config at " ++ path
  | .malformed path => "failed to parse config at " ++ path

/-- The settings a text describes. -/
def ofText? (text : List Char) : Option Settings :=
  (Toml.parse? text).bind fun v => v.settings? .toml

/-- Load the settings of a file that has to be there. -/
def load (path : String) (content : FileContent) : Except LoadError Settings :=
  match content with
  | .bytes bytes =>
      match Text.Utf8.decode? bytes with
      | none => .error (.unreadable path)
      | some text =>
          match ofText? text with
          | none => .error (.malformed path)
          | some settings => .ok settings
  | _ => .error (.unreadable path)

/-- Load the settings of a file that may be missing. -/
def loadOptional (path : String) (content : FileContent) : Except LoadError (Option Settings) :=
  match content with
  | .missing => .ok none
  | content => (load path content).map some

end Settings

end Marginalia
