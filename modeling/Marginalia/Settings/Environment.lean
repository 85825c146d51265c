import Marginalia.Text.Utf8

/-!
Environment variables and references to them.

An environment is a list of entries `name=value`; the value of a name is what follows `name=` in the
first entry that starts with it.  `expand` replaces the references `${name}` of a text from left to
right.  A value is copied as it is and never looked at again; a name that is not set, or whose value
is not text, stands for nothing; a `${` that is never closed is text, and so is all after it.
-/

namespace Marginalia.Settings

open Text

/-- The variables that are set, with the bytes of their values. -/
structure Environment where
  entries : List (String × List UInt8)
  deriving Repr

namespace Environment

/-- The entry of a variable. -/
def entry (name : String) (value : List UInt8) : List UInt8 :=
  Utf8.encode name.toList ++ Utf8.encode ['='] ++ value

/-- The bytes of a variable's value. -/
def bytes? (env : Environment) (name : String) : Option (List UInt8) :=
  env.entries.findSome? fun (key, value) => (entry name []).isPrefixOf? (entry key value)

/-- Whether a variable is set to something. -/
def has (env : Environment) (name : String) : Bool :=
  (env.bytes? name).any fun value => !value.isEmpty

/-- The value of a variable as it is shown, if it is set: what is not text in it is replaced. -/
def shown? (env : Environment) (name : String) : Option String :=
  (env.bytes? name).map fun value => String.ofList (Utf8.decodeLossy value)

/-- The value of a variable as text, if it is set and is text. -/
def value? (env : Environment) (name : String) : Option String :=
  ((env.bytes? name).bind Utf8.decode?).map String.ofList

end Environment

/-! ### References -/

/-- Cut a text at the first `${`. -/
def cutOpen? : List Char → Option (List Char × List Char)
  | [] => none
  | '$' :: '{' :: rest => some ([], rest)
  | c :: rest => (cutOpen? rest).map fun (before, after) => (c :: before, after)

/-- A cut loses the two characters it is made at. -/
theorem length_of_cutOpen? {chars before after : List Char}
    (h : cutOpen? chars = some (before, after)) : after.length + 2 ≤ chars.length := by
  fun_induction cutOpen? chars generalizing before with
  | case1 => cases h
  | case2 rest =>
      cases h
      exact Nat.le_refl _
  | case3 c rest hne ih =>
      obtain ⟨⟨b, a⟩, hcut, heq⟩ := Option.map_eq_some_iff.mp h
      cases heq
      exact Nat.le_trans (ih hcut) (Nat.le_succ _)

/-- Cut a text at the first closing brace. -/
def cutClose? : List Char → Option (List Char × List Char)
  | [] => none
  | '}' :: rest => some ([], rest)
  | c :: rest => (cutClose? rest).map fun (before, after) => (c :: before, after)

theorem length_of_cutClose? {chars before after : List Char}
    (h : cutClose? chars = some (before, after)) : after.length + 1 ≤ chars.length := by
  fun_induction cutClose? chars generalizing before with
  | case1 => cases h
  | case2 rest =>
      cases h
      exact Nat.le_refl _
  | case3 c rest hne ih =>
      obtain ⟨⟨b, a⟩, hcut, heq⟩ := Option.map_eq_some_iff.mp h
      cases heq
      exact Nat.le_trans (ih hcut) (Nat.le_succ _)

/-- What a reference stands for.  The empty name stands for nothing. -/
def reference (value? : String → Option String) (name : List Char) : List Char :=
  if name = [] then [] else ((value? (String.ofList name)).getD "").toList

/-- A text with its references replaced. -/
def expandChars (value? : String → Option String) (chars : List Char) : List Char :=
  match _hopen : cutOpen? chars with
  | none => chars
  | some (before, after) =>
      match _hclose : cutClose? after with
      | none => chars
      | some (name, rest) => before ++ reference value? name ++ expandChars value? rest
  termination_by chars.length
  decreasing_by
    have h1 := length_of_cutOpen? _hopen
    have h2 := length_of_cutClose? _hclose
    omega

/-- The names of the references of a text, in order. -/
def referenceNames (chars : List Char) : List String :=
  match _hopen : cutOpen? chars with
  | none => []
  | some (_, after) =>
      match _hclose : cutClose? after with
      | none => []
      | some (name, rest) => String.ofList name :: referenceNames rest
  termination_by chars.length
  decreasing_by
    have h1 := length_of_cutOpen? _hopen
    have h2 := length_of_cutClose? _hclose
    omega

/-- A text with its references to variables replaced. -/
def Environment.expand (env : Environment) (text : String) : String :=
  String.ofList (expandChars env.value? text.toList)

end Marginalia.Settings
