/-!
Text that is safe to print on a terminal.

`sanitize` removes terminal escape sequences and control characters; line feeds and tabs stay.
An escape sequence is one of

* a control sequence: `ESC [`, then anything up to and including a character of `@` to `~`;
* an operating system command: `ESC ]`, then anything up to and including `BEL` or `ESC \`;
* `ESC` and any other character.

A sequence that the text does not finish reaches to its end.
-/

namespace Marginalia.Terminal

/-- The character that begins an escape sequence. -/
def escape : Char := '\x1b'

/-- The character that may end an operating system command. -/
def bell : Char := '\x07'

/-- Whether a character is a control character: C0, `DEL` or C1. -/
def isControl (c : Char) : Bool := c.toNat < 0x20 || (0x7F ≤ c.toNat && c.toNat ≤ 0x9F)

/-- Whether a character must not reach a terminal: a control character other than a line feed or
a tab. -/
def isUnsafe (c : Char) : Bool := isControl c && c != '\n' && c != '\t'

/-- Whether a character ends a control sequence. -/
def isFinal (c : Char) : Bool := 0x40 ≤ c.toNat && c.toNat ≤ 0x7E

/-- Where a scan stands: in plain text, after an escape, inside a control sequence, inside a
command, or after an escape inside a command. -/
inductive Mode where
  | plain
  | escaped
  | control
  | command
  | commandEscaped
  deriving DecidableEq, Repr

/-- The mode after one character. -/
def Mode.after (mode : Mode) (c : Char) : Mode :=
  match mode with
  | .plain => if c = escape then .escaped else .plain
  | .escaped => if c = '[' then .control else if c = ']' then .command else .plain
  | .control => if isFinal c then .plain else .control
  | .command => if c = bell then .plain else if c = escape then .commandEscaped else .command
  | .commandEscaped =>
      if c = '\\' ∨ c = bell then .plain else if c = escape then .commandEscaped else .command

/-- The safe characters of a text outside its escape sequences, from a mode on. -/
def strip (mode : Mode) : List Char → List Char
  | [] => []
  | c :: rest =>
      if mode = .plain ∧ isUnsafe c = false then c :: strip (mode.after c) rest
      else strip (mode.after c) rest

/-- Whether a text may be printed as it is. -/
def isSafe (text : String) : Bool := text.toList.all fun c => !isUnsafe c

/-- The text that is made of a text that must not be printed as it is. -/
def stripped? (text : String) : Option String :=
  if isSafe text then none else some (String.ofList (strip .plain text.toList))

/-- A text without escape sequences and without control characters other than line feeds and tabs.
A safe text is returned as it is. -/
def sanitize (text : String) : String := (stripped? text).getD text

end Marginalia.Terminal
