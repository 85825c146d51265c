import Marginalia.Program

/-!
The program `earthworm`.

It takes the analyzer's output from standard input, so the analyzer is started by whoever starts the
program and its output piped in.  Here the files and variables that the arguments and settings name
are read; what is made of them is decided by `Program.run`.
-/

namespace Marginalia

/-- What a path leads to. -/
def lookUp (path : String) : IO (Found (List UInt8)) := do
  try
    return .file (← IO.FS.readBinFile path).toList
  catch
    | .noFileOrDirectory .. => return .missing
    | _ => return .directory

/-- What stands where the settings in the home directory are looked for. -/
def lookUpHomeConfig : IO Settings.FileContent := do
  match ← IO.getEnv "HOME" with
  | none => return .missing
  | some home =>
      match ← lookUp (home ++ "/.earthworm/config.toml") with
      | .file content => return .bytes content
      | .directory => return .unreadable
      | .missing => return .missing

/-- The variables of the given names that are set. -/
def lookUpVariables (names : List String) : IO Settings.Environment := do
  let mut entries := []
  for name in names do
    if let some value ← IO.getEnv name then
      entries := (name, value.toUTF8.toList) :: entries
  return ⟨entries⟩

/-- The world as the program finds it for some options. -/
def lookAround (o : Options) : IO World := do
  let file ← lookUp o.file
  let config ← match o.config with
    | some path => lookUp path
    | none => pure .missing
  let find := fun path =>
    if path = o.file then file else if o.config = some path then config else .missing
  let output ← (← IO.getStdin).readBinToEnd
  let world : World :=
    { find := find, homeConfig := ← lookUpHomeConfig, environment := ⟨[]⟩,
      findsProgram := fun _ => true, behaviour := some ⟨output.toList, .exited 0⟩ }
  match Program.settings world o.config with
  | .error _ => return world
  | .ok settings =>
      let home := (settings.analyzer.bind Analyzer.home).getD ""
      return { world with environment := ← lookUpVariables (Settings.referenceNames home.toList) }

/-- The world as far as a request that names no file depends on it. -/
def lookAtVariables : IO World := do
  return { find := fun _ => .missing, homeConfig := .missing,
           environment := ← lookUpVariables ["CLICOLOR_FORCE", "NO_COLOR"],
           findsProgram := fun _ => false, behaviour := none }

/-- Print what a run printed, and report its failure. -/
def finish (e : Exit) : IO UInt32 := do
  IO.print e.stdout
  if let some reason := e.failure then
    IO.eprintln ("Error: " ++ reason)
  return e.code.toUInt32

end Marginalia

open Marginalia in
/-- Run the program with its arguments. -/
def main (arguments : List String) : IO UInt32 := do
  let world ← match CommandLine.read arguments with
    | .run options => lookAround options
    | _ => lookAtVariables
  finish (Program.run world arguments)
