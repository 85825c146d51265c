import Marginalia.Listing

/-!
The command line.

The arguments are read from left to right.  An option takes its value from the same argument
(`--format=json`, `-cPATH`) or from the next one; a value that stands alone is judged when the next
option or file is met, or at the end.  A request for help or for the version ends the reading at
once, so faults after it are not seen; faults before it win.  After `--` every argument is a file.
Each option may be given once, and there is exactly one file.
-/

namespace Marginalia

/-- What the program is asked to do with a file. -/
structure Options where
  pythonVersion : Option String
  config : Option String
  format : Format
  file : String
  deriving DecidableEq, Repr

/-- What the command line asks for. -/
inductive Request where
  | run (options : Options)
  | help (long : Bool)
  | version
  | misuse
  deriving DecidableEq, Repr

namespace CommandLine

/-- What takes a value. -/
inductive Slot where
  | pythonVersion
  | config
  | format
  | file
  deriving DecidableEq, Repr

/-- What has been read so far, and the slot whose value has not been judged yet. -/
structure Draft where
  pythonVersion : Option String := none
  config : Option String := none
  format : Option Format := none
  file : Option String := none
  pending : Option (Slot × Option String) := none
  deriving DecidableEq, Repr

/-- The form of a listing of this name. -/
def format? (name : String) : Option Format :=
  if name = "text" then some .text else if name = "json" then some .json else none

/-- Put a value into its slot.  A slot is filled once, and a path is not empty. -/
def Draft.fill? (d : Draft) (slot : Slot) (value : String) : Option Draft :=
  match slot with
  | .pythonVersion =>
      if d.pythonVersion.isSome then none else some { d with pythonVersion := value }
  | .config => if d.config.isSome ∨ value = "" then none else some { d with config := value }
  | .format =>
      if d.format.isSome then none
      else (format? value).map fun format => { d with format := some format }
  | .file => if d.file.isSome ∨ value = "" then none else some { d with file := value }

/-- Judge the value that is pending, if there is one.  A slot without a value is a fault. -/
def Draft.settle? (d : Draft) : Option Draft :=
  match d.pending with
  | none => some d
  | some (_, none) => none
  | some (slot, some value) => { d with pending := none }.fill? slot value

/-- The slot of an option by its long name. -/
def slot? (name : String) : Option Slot :=
  if name = "python-version" then some .pythonVersion
  else if name = "config" then some .config
  else if name = "format" then some .format
  else none

/-- What one argument does: reading goes on, or there is an answer. -/
inductive Step where
  | next (draft : Draft)
  | answer (request : Request)
  deriving DecidableEq, Repr

/-- Go on from a draft that may be faulty. -/
def Step.ofDraft? : Option Draft → Step
  | some d => .next d
  | none => .answer .misuse

/-- A request that ends the reading, unless there is a fault before it. -/
def Draft.ask (d : Draft) (request : Request) : Step :=
  match d.settle? with
  | some _ => .answer request
  | none => .answer .misuse

/-- An option that takes a value, with the value if it stands in the same argument. -/
def Draft.option (d : Draft) (slot : Slot) (value : Option String) : Step :=
  match d.settle? with
  | none => .answer .misuse
  | some d =>
      match value with
      | some value => .ofDraft? (d.fill? slot value)
      | none => .next { d with pending := some (slot, none) }

/-- An argument `--name` or `--name=value`, without the dashes. -/
def Draft.long (d : Draft) (chars : List Char) : Step :=
  let name := String.ofList (chars.takeWhile (· != '='))
  let value : Option String :=
    match chars.dropWhile (· != '=') with
    | [] => none
    | _ :: value => some (String.ofList value)
  match slot? name with
  | some slot => d.option slot value
  | none =>
      if value.isSome then .answer .misuse
      else if name = "help" then d.ask (.help true)
      else if name = "version" then d.ask .version
      else .answer .misuse

/-- An argument `-c…`, without the dash. -/
def Draft.short (d : Draft) : List Char → Step
  | 'h' :: _ => d.ask (.help false)
  | 'V' :: _ => d.ask .version
  | 'c' :: [] => d.option .config none
  | 'c' :: '=' :: value => d.option .config (some (String.ofList value))
  | 'c' :: value => d.option .config (some (String.ofList value))
  | _ => .answer .misuse

/-- A file.  It is pending until the next argument is met. -/
def Draft.positional (d : Draft) (value : String) : Step :=
  .ofDraft? ((d.settle?).bind fun d =>
    if d.file.isSome then none else some { d with pending := some (.file, some value) })

/-- An argument that is no option: the value of the option before it, or a file. -/
def Draft.plain (d : Draft) (value : String) : Step :=
  match d.pending with
  | some (slot, none) => .next { d with pending := some (slot, some value) }
  | _ => d.positional value

/-- The answer at the end of the arguments. -/
def Draft.finish (d : Draft) : Request :=
  match d.settle? with
  | none => .misuse
  | some d =>
      match d.file with
      | none => .misuse
      | some file => .run ⟨d.pythonVersion, d.config, d.format.getD .text, file⟩

/-- One argument. -/
def Draft.step (d : Draft) (argument : String) : Step :=
  match argument.toList with
  | '-' :: '-' :: name => d.long name
  | '-' :: c :: more => d.short (c :: more)
  | _ => d.plain argument

/-- The arguments after `--`. -/
def readFiles (d : Draft) : List String → Request
  | [] => d.finish
  | argument :: rest =>
      match d.positional argument with
      | .answer request => request
      | .next d => readFiles d rest

/-- The arguments before `--`. -/
def readFrom (d : Draft) : List String → Request
  | [] => d.finish
  | argument :: rest =>
      if argument = "--" then readFiles d rest
      else
        match d.step argument with
        | .answer request => request
        | .next d => readFrom d rest

/-- What the arguments ask for. -/
def read (arguments : List String) : Request := readFrom {} arguments

end CommandLine

end Marginalia
