import Marginalia.Settings.Value

/-!
Numbers, truth values, dates and times of TOML.

A scalar is judged as a whole (`scalar?`): the run of characters up to the next blank or piece of
punctuation.  A number is judged by its shape first and by its value second, and one that has the
shape but no value is kept as `Value.invalid`.

Digits may be grouped by single underscores (`isSpaced`), and one may follow a sign.  An integer in
base ten has no leading zeros; after its first underscore its shape asks no more than that every
underscore stands between digits of base sixteen.  In base sixteen, eight or two it has a marker and
no sign, and its shape allows that there are no digits.  Its value must fit 128 bits.  A float has a
fraction or an exponent, and its value must be less than the largest number of 64 bits, unless it is
an infinity or not a number.

Dates must exist in the calendar; seconds may be left out of a time.
-/

namespace Marginalia.Settings.Toml

/-! ### Digits -/

/-- The value of a digit in any base up to sixteen. -/
def digitValue (c : Char) : Nat :=
  if '0' ≤ c ∧ c ≤ '9' then c.toNat - 0x30
  else if 'a' ≤ c ∧ c ≤ 'f' then c.toNat - 0x61 + 10
  else if 'A' ≤ c ∧ c ≤ 'F' then c.toNat - 0x41 + 10
  else 16

/-- Whether a character is a digit of a base. -/
def isDigitOf (base : Nat) (c : Char) : Bool := digitValue c < base

/-- Whether every underscore of a text stands between two digits, the first of which may be replaced
by whatever comes before the text if that `fits`. -/
def isSpaced (base : Nat) (fits : Bool) : List Char → Bool
  | [] => true
  | '_' :: rest => fits && rest.head?.any (isDigitOf base) && isSpaced base false rest
  | c :: rest => isSpaced base (isDigitOf base c) rest

/-- The number written by digits and underscores. -/
def numberOf (base : Nat) (chars : List Char) : Nat :=
  (chars.filter (· != '_')).foldl (fun n c => base * n + digitValue c) 0

/-- Whether a text consists of digits and underscores. -/
def isDigits (base : Nat) (chars : List Char) : Bool :=
  chars.all fun c => c = '_' || isDigitOf base c

/-- A text without the sign at its start, and the sign if there was one. -/
def splitSign : List Char → Option Char × List Char
  | '+' :: rest => (some '+', rest)
  | '-' :: rest => (some '-', rest)
  | chars => (none, chars)

/-! ### Integers -/

/-- The value of an integer if it fits 128 bits, with or without a sign. -/
def valueOf (n : Int) : Value := if -(Int.pow 2 127) ≤ n ∧ n < Int.pow 2 128 then .int n else .invalid

/-- An integer after the marker of its base, if the text has the shape of one. -/
def marked? (base : Nat) (digits : List Char) : Option Value :=
  if isDigits base digits && isSpaced base false digits then
    some (if digits = [] then .invalid else valueOf (numberOf base digits))
  else none

/-- Whether a text without its sign has the shape of an integer in base ten: a digit, several digits
the first of which is not zero, or such digits followed by an underscore and more.  Next to an
underscore stand digits of base sixteen, and elsewhere any character that makes no float of it. -/
def isDecimal (isSigned : Bool) (body : List Char) : Bool :=
  match body.dropWhile (isDigitOf 10) with
  | [] => body.length = 1 || (body != [] && body.head? != some '0')
  | '_' :: rest =>
      body.head? != some '0' && isSpaced 16 isSigned body
        && !rest.any fun c => c = '.' || c = 'e' || c = 'E' || c = ' '
  | _ => false

/-- An integer in base ten, if the text has the shape of one. -/
def decimal? (chars : List Char) : Option Value :=
  let (sign, body) := splitSign chars
  if isDecimal sign.isSome body then
    some (
      if isDigits 10 body then
        valueOf (if sign = some '-' then -(numberOf 10 body : Int) else numberOf 10 body)
      else .invalid)
  else none

/-- An integer, if the text has the shape of one. -/
def integer? (chars : List Char) : Option Value :=
  match chars with
  | '0' :: 'x' :: digits => marked? 16 digits
  | '0' :: 'o' :: digits => marked? 8 digits
  | '0' :: 'b' :: digits => marked? 2 digits
  | _ => decimal? chars

/-! ### Floats -/

/-- The parts of a float without its sign: the digits before and after the point, and the exponent
with its sign. -/
structure FloatParts where
  whole : List Char
  fraction : List Char
  exponentIsNegative : Bool
  exponent : List Char

/-- Whether a character may stand in a part of a float. -/
def isPartChar (c : Char) : Bool := isDigitOf 10 c || c = '_'

/-- Whether a part of a float has a digit. -/
def hasDigit (chars : List Char) : Bool := chars.any (isDigitOf 10)

/-- Whether the part before the point has no leading zero. -/
def isWhole (chars : List Char) : Bool :=
  hasDigit chars && (chars.countP (isDigitOf 10) = 1 || chars.head? != some '0')

/-- What follows the fraction of a float: nothing or an exponent, with its sign. -/
def exponent? (chars : List Char) : Option (Bool × List Char) :=
  match chars with
  | [] => some (false, [])
  | c :: rest =>
      let (sign, digits) := splitSign rest
      if (c = 'e' ∨ c = 'E') ∧ digits.all isPartChar ∧ hasDigit digits then
        some (sign = some '-', digits)
      else none

/-- The parts of a float, if the text without its sign has the shape of one. -/
def floatParts? (body : List Char) : Option FloatParts :=
  let whole := body.takeWhile isPartChar
  if !isWhole whole then none
  else
    match body.dropWhile isPartChar with
    | [] => none
    | '.' :: rest =>
        let fraction := rest.takeWhile isPartChar
        if !hasDigit fraction then none
        else
          (exponent? (rest.dropWhile isPartChar)).map fun (isNegative, digits) =>
            ⟨whole, fraction, isNegative, digits⟩
    | rest => (exponent? rest).map fun (isNegative, digits) => ⟨whole, [], isNegative, digits⟩

/-- Whether rounding to 64 bits gives a finite number.  The value is `digits · 10 ^ exponent` for
the digits before and after the point; it is finite if it is less than the midpoint between the
largest finite number and the power of two after it. -/
def FloatParts.isFinite (p : FloatParts) : Bool :=
  let digits := ((p.whole ++ p.fraction).filter (· != '_')).dropWhile (· = '0')
  let places := (p.fraction.filter (· != '_')).length
  let shift : Int := numberOf 10 p.exponent
  let exponent : Int := (if p.exponentIsNegative then -shift else shift) - places
  let magnitude : Int := digits.length + exponent
  if digits = [] ∨ magnitude < 300 then true
  else if 310 < magnitude then false
  else
    let limit := Nat.pow 2 1024 - Nat.pow 2 970
    if 0 ≤ exponent then numberOf 10 digits * Nat.pow 10 exponent.toNat < limit
    else numberOf 10 digits < limit * Nat.pow 10 (-exponent).toNat

/-- A float, if the text has the shape of one. -/
def float? (chars : List Char) : Option Value :=
  let (sign, body) := splitSign chars
  if body = "inf".toList ∨ body = "nan".toList then some .float
  else if isSpaced 10 sign.isSome body then
    (floatParts? body).map fun parts => if parts.isFinite then .float else .invalid
  else none

/-! ### Dates and times -/

/-- A number of exactly so many digits at the start of a text, and the rest. -/
def fixed? (count : Nat) (chars : List Char) : Option (Nat × List Char) :=
  let digits := chars.take count
  if digits.length = count ∧ digits.all (isDigitOf 10) then
    some (numberOf 10 digits, chars.drop count)
  else none

/-- The number of days of a month. -/
def daysOf (year month : Nat) : Nat :=
  if month = 2 then
    if year % 4 = 0 ∧ (year % 100 ≠ 0 ∨ year % 400 = 0) then 29 else 28
  else if month = 4 ∨ month = 6 ∨ month = 9 ∨ month = 11 then 30
  else 31

/-- Read a date at the start of a text. -/
def date? (chars : List Char) : Option (List Char) := do
  let (year, rest) ← fixed? 4 chars
  let rest ← ['-'].isPrefixOf? rest
  let (month, rest) ← fixed? 2 rest
  let rest ← ['-'].isPrefixOf? rest
  let (day, rest) ← fixed? 2 rest
  if 1 ≤ month ∧ month ≤ 12 ∧ 1 ≤ day ∧ day ≤ daysOf year month then some rest else none

/-- Read the fraction of a second at the start of a text, if there is one. -/
def secondFraction? (chars : List Char) : Option (List Char) :=
  match chars with
  | '.' :: rest =>
      if (rest.takeWhile (isDigitOf 10)).isEmpty then none else some (rest.dropWhile (isDigitOf 10))
  | _ => some chars

/-- Read a time of day at the start of a text.  The seconds may be left out. -/
def time? (chars : List Char) : Option (List Char) := do
  let (hour, rest) ← fixed? 2 chars
  let rest ← [':'].isPrefixOf? rest
  let (minute, rest) ← fixed? 2 rest
  if 23 < hour ∨ 59 < minute then none
  else
    match rest with
    | ':' :: rest => do
        let (second, rest) ← fixed? 2 rest
        if 60 < second then none else secondFraction? rest
    | _ => some rest

/-- Whether a text is nothing or the offset of a time zone. -/
def isOffset (chars : List Char) : Bool :=
  match chars with
  | [] => true
  | ['Z'] => true
  | ['z'] => true
  | c :: rest =>
      if c = '+' ∨ c = '-' then
        match fixed? 2 rest with
        | some (hour, ':' :: rest) =>
            match fixed? 2 rest with
            | some (minute, []) => hour ≤ 23 && minute ≤ 59
            | _ => false
        | _ => false
      else false

/-- Whether a text is a date, a time, or both. -/
def isMoment (chars : List Char) : Bool :=
  match date? chars with
  | some [] => true
  | some (c :: rest) => (c = 'T' || c = 't' || c = ' ') && (time? rest).any isOffset
  | none => time? chars = some []

/-! ### All scalars -/

/-- The value of a scalar. -/
def scalar? (chars : List Char) : Option Value :=
  if chars = "true".toList then some (.bool true)
  else if chars = "false".toList then some (.bool false)
  else if isMoment chars then some .moment
  else (integer? chars).or (float? chars)

end Marginalia.Settings.Toml
