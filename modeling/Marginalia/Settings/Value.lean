import Marginalia.Style

/-!
Settings as they are written down, before their meaning is known.

A value is a tree of texts, numbers, lists and tables.  A record with named fields may be written as
a table, in which unknown names are ignored, or as a list of its fields in order, whose missing tail
takes defaults (`fields?`).  A choice between names may be written as the name alone or as a table
with that one name and an empty payload (`choice?`).  The two notations for settings, JSON and TOML,
differ in what an empty payload is and in whether a list may be longer than the record.

A number may be written so that it has no value; then it is a fault, but only where it is looked at.
Everything is looked at except what a list has beyond the fields of its record.
-/

namespace Marginalia.Settings

/-- A value as written.  A `moment` is a date or a time, and `invalid` a number without a value;
JSON has neither, and TOML has no `null`. -/
inductive Value where
  | null
  | bool (value : Bool)
  | int (value : Int)
  | float
  | invalid
  | text (value : String)
  | moment
  | list (items : List Value)
  | table (members : List (String × Value))

/-- The notation a value was written in. -/
inductive Dialect where
  | json
  | toml
  deriving DecidableEq, Repr

namespace Value

/-! ### Numbers without a value -/

mutual

/-- Whether every number in a value has a value. -/
def isValid : Value → Bool
  | .invalid => false
  | .list items => areValid items
  | .table members => haveValid members
  | _ => true

/-- Whether every number in a list of values has a value. -/
def areValid : List Value → Bool
  | [] => true
  | item :: rest => item.isValid && areValid rest

/-- Whether every number in the members of a table has a value. -/
def haveValid : List (String × Value) → Bool
  | [] => true
  | (_, item) :: rest => item.isValid && haveValid rest

end

/-! ### Records and choices -/

/-- Whether a value is an empty payload. -/
def isUnit (dialect : Dialect) : Value → Bool
  | .null => dialect = .json
  | .list items => dialect = .toml && items.isEmpty
  | .table members => dialect = .toml && members.isEmpty
  | _ => false

/-- The fields of a record with the given names, in their order; `none` for an absent field.
Members of other names are looked at and ignored.  A date or time is a table without any of the
names. -/
def fields? (dialect : Dialect) (names : List String) : Value → Option (List (Option Value))
  | .table members =>
      if haveValid (members.filter fun m => !names.contains m.1) then
        some (names.map fun name => members.lookup name)
      else none
  | .list items =>
      if dialect = .json ∧ names.length < items.length then none
      else some ((List.range names.length).map fun i => items[i]?)
  | .moment => some (names.map fun _ => none)
  | _ => none

/-- The name chosen by a value. -/
def choice? (dialect : Dialect) : Value → Option String
  | .text name => some name
  | .table [(name, payload)] => if payload.isUnit dialect then some name else none
  | _ => none

/-! ### Fields -/

/-- A field that is read if it is there and takes a default if not. -/
def field? {α : Type} (default : α) (read? : Value → Option α) : Option Value → Option α
  | none => some default
  | some v => read? v

/-- A text. -/
def text? : Value → Option String
  | .text value => some value
  | _ => none

/-- A list of texts. -/
def texts? : Value → Option (List String)
  | .list items => items.mapM text?
  | _ => none

/-- A text or nothing. -/
def optionalText? : Value → Option (Option String)
  | .null => some none
  | .text value => some (some value)
  | _ => none

/-- A natural number of 64 bits. -/
def word? : Value → Option UInt64
  | .int value => if 0 ≤ value ∧ value.toNat < UInt64.size then some (UInt64.ofNat value.toNat) else none
  | _ => none

/-! ### Styles -/

/-- An icon. -/
def icon? (dialect : Dialect) (v : Value) : Option Icon := v.choice? dialect >>= Icon.ofName?

/-- A refresh pass. -/
def pass? (dialect : Dialect) (v : Value) : Option Pass := v.choice? dialect >>= Pass.ofName?

/-- A style. -/
def style? (dialect : Dialect) (v : Value) : Option Style :=
  match v.fields? dialect ["icon", "refresh"] with
  | some [icon, refresh] => do
      let icon ← field? .earthworm (icon? dialect) icon
      let refresh ← field? .updateAll (pass? dialect) refresh
      return ⟨icon, refresh⟩
  | _ => none

end Value

end Marginalia.Settings
