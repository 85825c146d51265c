import Marginalia.Settings.Value

/-!
How the statements of a TOML document build up its tables.

A table comes into being by a header of its own (`explicit`), by being on the way to a header
(`implied`) or by being on the way to a key with dots (`dotted`).  A header makes an implied table
explicit and may open no other existing table; a key with dots leads through dotted and implied
tables only, and makes them dotted; no key is defined twice; values, inline tables among them, are
closed.  A header in double brackets adds an element to an array of tables, and paths lead through
its last element.
-/

namespace Marginalia.Settings.Toml

/-- How a table came into being. -/
inductive Origin where
  | explicit
  | implied
  | dotted
  deriving DecidableEq, Repr

/-- What a key of a table under construction stands for. -/
inductive Node where
  | value (value : Value)
  | table (origin : Origin) (members : List (String × Node))
  | tables (elements : List (List (String × Node)))

/-- The members of a table under construction. -/
abbrev Members := List (String × Node)

namespace Members

/-- Change what a key stands for, or add it.  The change may be refused. -/
def alter (change : Option Node → Option Node) (key : String) : Members → Option Members
  | [] => (change none).map fun node => [(key, node)]
  | (k, node) :: rest =>
      if k = key then (change (some node)).map fun node => (k, node) :: rest
      else (alter change key rest).map fun rest => (k, node) :: rest

/-- Change the members of the table at the end of a path.  Missing tables on the way are made, with
the origin `made`; a key with dots does not lead through explicit tables, and makes dotted what it
leads through. -/
def within (made : Origin) (change : Origin → Members → Option Members) :
    List String → Origin → Members → Option Members
  | [], origin, members => change origin members
  | key :: path, _, members =>
      alter
        (fun
          | none => (within made change path made []).map (Node.table made)
          | some (.table origin inner) =>
              if made = .dotted ∧ origin = .explicit then none
              else
                (within made change path origin inner).map
                  (Node.table (if made = .dotted then .dotted else origin))
          | some (.tables elements) =>
              match elements.getLast? with
              | some last =>
                  (within made change path .explicit last).map fun last =>
                    Node.tables (elements.dropLast ++ [last])
              | none => none
          | some (.value _) => none)
        key members

/-- Define a key, with dots or without, in a table. -/
def define (path : List String) (key : String) (value : Value) (members : Members) :
    Option Members :=
  within .dotted
    (fun origin inner =>
      if path ≠ [] ∧ origin = .explicit then none
      else
        alter
          (fun
            | none => some (.value value)
            | some _ => none)
          key inner)
    path .explicit members

/-- Define a key in the table that a header opened. -/
def defineUnder (header path : List String) (key : String) (value : Value) (members : Members) :
    Option Members :=
  within .implied (fun _ inner => define path key value inner) header .explicit members

/-- Open a table by its header. -/
def openTable (path : List String) (key : String) (members : Members) : Option Members :=
  within .implied
    (fun _ inner =>
      alter
        (fun
          | none => some (.table .explicit [])
          | some (.table .implied found) => some (.table .explicit found)
          | some _ => none)
        key inner)
    path .explicit members

/-- Open a new element of an array of tables by its header. -/
def openElement (path : List String) (key : String) (members : Members) : Option Members :=
  within .implied
    (fun _ inner =>
      alter
        (fun
          | none => some (.tables [[]])
          | some (.tables elements) => some (.tables (elements ++ [[]]))
          | some _ => none)
        key inner)
    path .explicit members

end Members

/-! ### Closing -/

mutual

/-- What a finished node is as a value. -/
def Node.close : Node → Value
  | .value value => value
  | .table _ members => .table (closeMembers members)
  | .tables elements => .list (closeElements elements)

/-- The members of a finished table. -/
def closeMembers : List (String × Node) → List (String × Value)
  | [] => []
  | (key, node) :: rest => (key, node.close) :: closeMembers rest

/-- The elements of a finished array of tables. -/
def closeElements : List (List (String × Node)) → List Value
  | [] => []
  | members :: rest => .table (closeMembers members) :: closeElements rest

end

end Marginalia.Settings.Toml
