/-!
What the program says about its own command line.

Help is a list of lines, and a line a list of pieces, some of which are emphasised on a terminal
that shows it: headings are bold and underlined, names are bold.  Brief help has one line for each
option, with what it means in a column of its own; full help puts the meaning below the option.
-/

namespace Marginalia.CommandLine

/-- A piece of a line of help. -/
inductive Piece where
  | plain (text : String)
  | heading (text : String)
  | name (text : String)
  deriving DecidableEq, Repr

namespace Piece

/-- The text of a piece without emphasis. -/
def text : Piece → String
  | .plain text => text
  | .heading text => text
  | .name text => text

/-- What is printed for a piece. -/
def written (emphasis : Bool) (piece : Piece) : String :=
  if emphasis then
    match piece with
    | .plain text => text
    | .heading text => "\x1b[1m\x1b[4m" ++ text ++ "\x1b[0m"
    | .name text => "\x1b[1m" ++ text ++ "\x1b[0m"
  else piece.text

end Piece

/-- A line of help. -/
abbrev HelpLine := List Piece

/-- The number of characters of a line on the terminal. -/
def HelpLine.width (line : HelpLine) : Nat := line.foldr (fun piece n => piece.text.length + n) 0

/-- Lines as they are printed. -/
def written (emphasis : Bool) (lines : List HelpLine) : String :=
  String.join (lines.map fun line => String.join (line.map (Piece.written emphasis)) ++ "\n")

/-- So many blanks. -/
def blanks (count : Nat) : Piece := .plain (String.ofList (List.replicate count ' '))

/-! ### Options -/

/-- What help says of an option: its letter, its name, the kind of its value, what it means in brief
and what it means in full. -/
structure Entry where
  letter : Option Char
  name : String
  value : Option String
  brief : String
  full : List HelpLine

namespace Entry

/-- An option whose meaning is one line in both kinds of help. -/
def ofText (letter : Option Char) (name : String) (value : Option String) (text : String) : Entry :=
  ⟨letter, name, value, text, [[.plain text]]⟩

/-- How an option is written on the command line. -/
def synopsis (e : Entry) : HelpLine :=
  (match e.letter with
    | some c => [.plain "  ", .name (String.ofList ['-', c]), .plain ", "]
    | none => [blanks 6])
    ++ [.name ("--" ++ e.name)]
    ++ (match e.value with
      | some kind => [.plain (" <" ++ kind ++ ">")]
      | none => [])

/-- The column in which the meaning of an option starts in brief help. -/
def column : Nat := 34

/-- The line of an option in brief help. -/
def briefLine (e : Entry) : HelpLine :=
  e.synopsis ++ [blanks (column - HelpLine.width e.synopsis), .plain e.brief]

/-- The lines of an option in full help. -/
def fullLines (e : Entry) : List HelpLine := e.synopsis :: e.full.map (blanks 10 :: ·)

end Entry

/-- The options. -/
def entries : List Entry :=
  [.ofText none "python-version" (some "VERSION")
      "Interpreter version appended to the configured interpreter (e.g. \"3\")",
    .ofText (some 'c') "config" (some "PATH")
      "Config file to use instead of ~/.earthworm/config.toml",
    { letter := none, name := "format", value := some "FORMAT",
      brief := "[default: text] [possible values: text, json]",
      full :=
        [[.plain "Possible values:"],
          [.plain "- ", .name "text",
            .plain ": \x60file:line: message\x60, with range bodies indented below"],
          [.plain "- ", .name "json", .plain ": A JSON array of marker objects"],
          [],
          [.plain "[default: text]"]] },
    { letter := some 'h', name := "help", value := none,
      brief := "Print help (see more with '--help')",
      full := [[.plain "Print help (see a summary with '-h')"]] },
    .ofText (some 'V') "version" none "Print version"]

/-! ### The two kinds of help -/

/-- What help begins with. -/
def usage : List HelpLine :=
  [[.plain "Show Earthworm refactoring suggestions for a Python file"],
    [],
    [.heading "Usage:", .plain " ", .name "earthworm", .plain " [OPTIONS] <FILE>"],
    [],
    [.heading "Arguments:"]]

/-- Brief help. -/
def briefHelp : List HelpLine :=
  usage
    ++ [[.plain "  <FILE>  Python source file to analyze"], [], [.heading "Options:"]]
    ++ entries.map Entry.briefLine

/-- Full help. -/
def fullHelp : List HelpLine :=
  usage
    ++ [[.plain "  <FILE>"], [blanks 10, .plain "Python source file to analyze"], [],
      [.heading "Options:"]]
    ++ List.intercalate [[]] (entries.map Entry.fullLines)

/-- The answer to a request for help. -/
def helpText (emphasis long : Bool) : String :=
  written emphasis (if long then fullHelp else briefHelp)

/-- The answer to a request for the version. -/
def versionText : String := "earthworm 0.0.0\n"

end Marginalia.CommandLine
