import Marginalia.Analyzer
import Marginalia.FileTree
import Marginalia.Wire.Reader

/-!
Running the analyzer on a file.

A run looks the program up, starts it and reads findings from its output until the output ends or
the time limit cuts it off.  A program that fails is no failure of the run: what it printed is kept.
`run` fails only where no program is found or none can be started.
-/

namespace Marginalia

/-- How a program ends: with an exit code, by a signal, or not at all. -/
inductive Ending where
  | exited (code : UInt8)
  | killed
  | running
  deriving DecidableEq, Repr

/-- What a program does when it is started. -/
structure Behaviour where
  output : List UInt8
  ending : Ending
  deriving DecidableEq, Repr

/-- The programs that can be found: those on the search path, and files, some of which may run. -/
structure Programs where
  onPath : List String
  files : FileTree Bool

/-- Whether a program is found.  A name of several parts is a path to a file that may be run; any
other name is looked up as it is, and with a slash in it stands for no program. -/
def Programs.finds (p : Programs) (program : String) : Bool :=
  if FileTree.isNested program then
    match p.files.findTidied program with
    | .file isRunnable => isRunnable
    | .directory => false
    | .missing => false
  else !program.toList.contains '/' && p.onPath.contains program

/-- Where programs run: which programs are found, what they do when started, if they can be, and the
module path they inherit. -/
structure Machine where
  finds : String → Bool
  behaviour : Option Behaviour
  modulePath : Option String

/-- Whether a text may be handed to a program: it holds no null character. -/
def isPassable (s : String) : Bool := !s.toList.contains '\x00'

/-- What a program does if it is started in this way, if it can be. -/
def Machine.start? (m : Machine) (i : Invocation) : Option Behaviour :=
  if i.arguments.all isPassable ∧ i.modulePath.all isPassable then m.behaviour else none

/-- Why a run fails. -/
inductive RunError where
  | notFound (program : String)
  | notStarted (program : String)
  | neverEnds (program : String)
  deriving DecidableEq, Repr

/-- The wording of a failure. -/
def RunError.message : RunError → String
  | .notFound program => program ++ " not found in PATH"
  | .notStarted program => "spawning " ++ program
  | .neverEnds program => "waiting for " ++ program

/-- The outcome of a run: its findings, whether the time limit cut it off, and the exit code of the
program unless it was killed. -/
structure Report where
  findings : List Finding
  truncated : Bool
  exitCode : Option UInt8
  deriving DecidableEq, Repr

/-- Whether the program ran to its end and succeeded. -/
def Report.isClean (r : Report) : Bool := !r.truncated && r.exitCode = some 0

/-- The output of a program as it arrives: cut off where the program does not end. -/
def Behaviour.feed (b : Behaviour) : Wire.Feed :=
  match b.ending with
  | .running => Wire.Feed.ofEvents [.data b.output, .failure (.other "deadline has elapsed")]
  | _ => Wire.Feed.ofEvents [.data b.output]

/-- The findings a program hands out. -/
def Behaviour.findings (b : Behaviour) : List Finding := (Wire.ResumingReader.ofFeed b.feed).drain.1

/-- The outcome of a program under a time limit. -/
def Behaviour.report? (b : Behaviour) (limit : Option UInt64) : Option Report :=
  match b.ending with
  | .exited code => some ⟨b.findings, false, some code⟩
  | .killed => some ⟨b.findings, false, none⟩
  | .running => if limit.isSome then some ⟨b.findings, true, none⟩ else none

/-- Run the analyzer on a file.  The second part is how the program was started, if it was. -/
def Analyzer.run (a : Analyzer) (m : Machine) (file : String) (version : Option String) :
    Except RunError Report × Option Invocation :=
  let invocation := a.invocation m.modulePath file version
  if m.finds invocation.program then
    match m.start? invocation with
    | none => (.error (.notStarted invocation.program), none)
    | some behaviour =>
        match behaviour.report? a.timeLimit? with
        | some report => (.ok report, some invocation)
        | none => (.error (.neverEnds invocation.program), some invocation)
  else (.error (.notFound invocation.program), none)

/-- The findings of a run, none if it fails. -/
def Analyzer.runOrEmpty (a : Analyzer) (m : Machine) (file : String) (version : Option String) :
    List Finding × Option Invocation :=
  match a.run m file version with
  | (.ok report, invocation) => (report.findings, invocation)
  | (.error _, invocation) => ([], invocation)

end Marginalia
