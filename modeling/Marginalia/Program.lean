import Marginalia.Analysis
import Marginalia.CommandLine
import Marginalia.CommandLine.Help
import Marginalia.OpenDocument
import Marginalia.Settings

/-!
The program as a whole.

It reads the settings and the file, runs the analyzer on the file, attaches the findings to it and
lists the markers.  Settings or a file that cannot be read end it with code 1 and arguments that
cannot be understood with code 2; an analyzer that cannot be run only means that there are no
findings.
-/

namespace Marginalia

/-- What the program finds around it: what paths lead to, the settings file in the home directory,
the environment, which programs it can find, and what they do when started, if they can be. -/
structure World where
  find : String → Found (List UInt8)
  homeConfig : Settings.FileContent
  environment : Settings.Environment
  findsProgram : String → Bool
  behaviour : Option Behaviour

/-- Where the program starts other programs, which inherit its environment. -/
def World.machine (w : World) : Machine where
  finds := w.findsProgram
  behaviour := w.behaviour
  modulePath := w.environment.shown? "PYTHONPATH"

/-- Whether help is emphasised.  It is printed to no terminal, so it is not unless that is asked
for, and not forbidden, in the environment. -/
def World.wantsEmphasis (w : World) : Bool :=
  w.environment.has "CLICOLOR_FORCE" && !w.environment.has "NO_COLOR"

/-- How the program ends: its exit code, what it printed, the reason of a failure in one line, and
how it started the analyzer, if it did. -/
structure Exit where
  code : UInt8
  stdout : String
  failure : Option String
  invoked : Option Invocation
  deriving DecidableEq, Repr

namespace Program

/-- The end of a run that printed all it was asked for. -/
def success (stdout : String) (invoked : Option Invocation) : Exit := ⟨0, stdout, none, invoked⟩

/-- The end of a run that failed for a reason, of which the first line is shown. -/
def failure (reason : String) : Exit :=
  ⟨1, "", some (String.ofList (reason.toList.takeWhile (· != '\n'))), none⟩

/-- The end of a run whose arguments could not be understood. -/
def misuse : Exit := ⟨2, "", none, none⟩

/-- The name of the settings file in the home directory. -/
def homeConfigName : String := "config.toml"

/-- What stands at a path where settings are looked for. -/
def configAt (w : World) (path : String) : Settings.FileContent :=
  match w.find path with
  | .file content => .bytes content
  | .directory => .unreadable
  | .missing => .missing

/-- The settings: those of the file that was named, or of the one in the home directory. -/
def settings (w : World) (config : Option String) : Except Settings.LoadError Settings :=
  match config with
  | some path => Settings.load path (configAt w path)
  | none =>
      (Settings.loadOptional homeConfigName w.homeConfig).map fun found => found.getD .empty

/-- The text of a file, if it can be read. -/
def source? (w : World) (file : String) : Option String :=
  match w.find file with
  | .file content => (Text.Utf8.decode? content).map String.ofList
  | .directory => none
  | .missing => none

/-- List the markers of a file. -/
def list (w : World) (o : Options) : Exit :=
  match settings w o.config with
  | .error e => failure e.message
  | .ok settings =>
      match source? w o.file with
      | none => failure ("reading " ++ o.file)
      | some text =>
          let analyzer := settings.effectiveAnalyzer w.environment
          let (findings, invoked) := analyzer.runOrEmpty w.machine o.file o.pythonVersion
          let opened := ((OpenDocument.ofText text settings.style).annotate findings).2
          let (outcome, opened) := opened.markers
          success (Listing.write o.format o.file opened.source outcome.toList) invoked

/-- Run the program with arguments. -/
def run (w : World) (arguments : List String) : Exit :=
  match CommandLine.read arguments with
  | .run options => list w options
  | .help long => success (CommandLine.helpText w.wantsEmphasis long) none
  | .version => success CommandLine.versionText none
  | .misuse => misuse

end Program

end Marginalia
