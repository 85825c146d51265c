/-!
Strings of TOML.

A basic string stands in double quotes and has escapes; a literal string stands in single quotes and
has none.  Both may be written over several lines between three quotes; then a line break right
after the opening quotes is dropped, up to two quotes may stand before the closing ones, and in a
basic string a backslash at the end of a line drops all blank space up to the next visible
character.

Each reader takes the text after the opening quotes and gives the characters of the string and the
text after the closing ones.  The bound on the number of steps is the length of the text, since
every step takes at least one character.
-/

namespace Marginalia.Settings.Toml

/-- The quote of literal strings. -/
def apostrophe : Char := '\x27'

/-- Whether a character may stand in a string or a comment: a tab, or no control character. -/
def isPrintable (c : Char) : Bool := c = '\t' || (0x20 ≤ c.toNat && c.toNat ≠ 0x7F)

/-- Whether a character is a blank inside a line. -/
def isSpace (c : Char) : Bool := c = ' ' || c = '\t'

/-- The text after a line break at its start. -/
def newline? : List Char → Option (List Char)
  | '\n' :: rest => some rest
  | '\r' :: '\n' :: rest => some rest
  | _ => none

/-- The text without a line break at its start. -/
def dropNewline (chars : List Char) : List Char := (newline? chars).getD chars

/-! ### Escapes -/

/-- The value of a digit of base sixteen. -/
def hexValue? (c : Char) : Option Nat :=
  if '0' ≤ c ∧ c ≤ '9' then some (c.toNat - 0x30)
  else if 'a' ≤ c ∧ c ≤ 'f' then some (c.toNat - 0x61 + 10)
  else if 'A' ≤ c ∧ c ≤ 'F' then some (c.toNat - 0x41 + 10)
  else none

/-- The character of a code, which must be no surrogate. -/
def charOf? (code : Nat) : Option Char := if code.isValidChar then some (Char.ofNat code) else none

/-- The character written by so many digits of base sixteen, and the text after them. -/
def codePoint? (count : Nat) (chars : List Char) : Option (Char × List Char) := do
  let digits ← (chars.take count).mapM hexValue?
  if digits.length = count then
    let c ← charOf? (digits.foldl (fun n d => 16 * n + d) 0)
    return (c, chars.drop count)
  else none

/-- The character of an escape after its backslash, and the text after it. -/
def escape? : List Char → Option (Char × List Char)
  | 'b' :: rest => some ('\x08', rest)
  | 't' :: rest => some ('\t', rest)
  | 'n' :: rest => some ('\n', rest)
  | 'f' :: rest => some ('\x0c', rest)
  | 'r' :: rest => some ('\r', rest)
  | 'e' :: rest => some ('\x1b', rest)
  | '"' :: rest => some ('"', rest)
  | '\\' :: rest => some ('\\', rest)
  | 'x' :: rest => codePoint? 2 rest
  | 'u' :: rest => codePoint? 4 rest
  | 'U' :: rest => codePoint? 8 rest
  | _ => none

/-! ### Strings on one line -/

/-- A basic string. -/
def basic? : Nat → List Char → Option (List Char × List Char)
  | 0, _ => none
  | steps + 1, chars =>
      match chars with
      | [] => none
      | '"' :: rest => some ([], rest)
      | '\\' :: rest => do
          let (c, rest) ← escape? rest
          let (content, rest) ← basic? steps rest
          return (c :: content, rest)
      | c :: rest =>
          if isPrintable c then (basic? steps rest).map fun (content, rest) => (c :: content, rest)
          else none

/-- A literal string. -/
def literal? : List Char → Option (List Char × List Char)
  | [] => none
  | c :: rest =>
      if c = apostrophe then some ([], rest)
      else if isPrintable c then
        (literal? rest).map fun (content, rest) => (c :: content, rest)
      else none

/-! ### Strings over several lines -/

/-- The text after three quotes at its start, and up to two more quotes before them. -/
def closing? (quote : Char) (chars : List Char) : Option (List Char × List Char) :=
  match [quote, quote, quote].isPrefixOf? chars with
  | none => none
  | some rest =>
      match [quote, quote].isPrefixOf? rest with
      | some rest => some ([quote, quote], rest)
      | none =>
          match [quote].isPrefixOf? rest with
          | some rest => some ([quote], rest)
          | none => some ([], rest)

/-- The text after all blanks and line breaks at its start. -/
def dropBlankLines (chars : List Char) : List Char :=
  match chars with
  | [] => []
  | ' ' :: rest => dropBlankLines rest
  | '\t' :: rest => dropBlankLines rest
  | '\n' :: rest => dropBlankLines rest
  | '\r' :: '\n' :: rest => dropBlankLines rest
  | c :: rest => c :: rest

/-- A basic string over several lines. -/
def basicLines? : Nat → List Char → Option (List Char × List Char)
  | 0, _ => none
  | steps + 1, chars =>
      match closing? '"' chars with
      | some closed => some closed
      | none =>
          match chars with
          | [] => none
          | '\\' :: rest =>
              match newline? (rest.dropWhile isSpace) with
              | some rest => basicLines? steps (dropBlankLines rest)
              | none => do
                  let (c, rest) ← escape? rest
                  let (content, rest) ← basicLines? steps rest
                  return (c :: content, rest)
          | '\r' :: '\n' :: rest =>
              (basicLines? steps rest).map fun (content, rest) => ('\r' :: '\n' :: content, rest)
          | c :: rest =>
              if isPrintable c ∨ c = '\n' then
                (basicLines? steps rest).map fun (content, rest) => (c :: content, rest)
              else none

/-- A literal string over several lines. -/
def literalLines? : Nat → List Char → Option (List Char × List Char)
  | 0, _ => none
  | steps + 1, chars =>
      match closing? apostrophe chars with
      | some closed => some closed
      | none =>
          match chars with
          | [] => none
          | '\r' :: '\n' :: rest =>
              (literalLines? steps rest).map fun (content, rest) => ('\r' :: '\n' :: content, rest)
          | c :: rest =>
              if isPrintable c ∨ c = '\n' then
                (literalLines? steps rest).map fun (content, rest) => (c :: content, rest)
              else none

/-- A string of any kind at the start of a text, and the text after it. -/
def string? (chars : List Char) : Option (String × List Char) :=
  let read : Option (List Char × List Char) :=
    match "\"\"\"".toList.isPrefixOf? chars with
    | some rest => basicLines? (rest.length + 1) (dropNewline rest)
    | none =>
        match [apostrophe, apostrophe, apostrophe].isPrefixOf? chars with
        | some rest => literalLines? (rest.length + 1) (dropNewline rest)
        | none =>
            match chars with
            | '"' :: rest => basic? (rest.length + 1) rest
            | c :: rest => if c = apostrophe then literal? rest else none
            | [] => none
  read.map fun (content, rest) => (String.ofList content, rest)

end Marginalia.Settings.Toml
