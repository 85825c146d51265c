/-!
The analyzer: a program that is run on one file and prints its findings.

The program is an interpreter with its version appended; it runs a module, or the file itself where
no module is named.
-/

namespace Marginalia

/-- How to run the analyzer. -/
structure Analyzer where
  /-- The interpreter without its version. -/
  interpreter : String := "python"
  /-- The version appended to the interpreter unless a run asks for another. -/
  version : String := ""
  /-- The module to run, empty to run the file itself. -/
  moduleName : String := "src.decomposer"
  /-- Where the analyzer is installed, if it is not on the interpreter's own path. -/
  home : Option String := none
  /-- Arguments after the file. -/
  flags : List String := []
  /-- The time limit of a run in seconds, 0 for none. -/
  timeoutSecs : UInt64 := 60
  deriving DecidableEq, Repr

/-- How a program was started: its name, its arguments, and the module path given to it. -/
structure Invocation where
  program : String
  arguments : List String
  modulePath : Option String
  deriving DecidableEq, Repr

namespace Analyzer

/-- The program of a run.  A version asked for replaces the one in the settings, be it empty. -/
def program (a : Analyzer) (version : Option String) : String :=
  a.interpreter ++ version.getD a.version

/-- The arguments of a run on a file. -/
def arguments (a : Analyzer) (file : String) : List String :=
  (if a.moduleName = "" then [] else ["-m", a.moduleName]) ++ file :: a.flags

/-- How the analyzer is started on a file where programs inherit a module path.  Its home is the
module path if it has one. -/
def invocation (a : Analyzer) (inherited : Option String) (file : String)
    (version : Option String) : Invocation :=
  ⟨a.program version, a.arguments file, a.home.or inherited⟩

/-- The time limit of a run, if there is one. -/
def timeLimit? (a : Analyzer) : Option UInt64 :=
  if a.timeoutSecs = 0 then none else some a.timeoutSecs

end Analyzer

end Marginalia
