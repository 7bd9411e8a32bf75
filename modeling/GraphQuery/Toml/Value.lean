import GraphQuery.Settings.Datum

/-!
# TOML values

A `Value` is what stands behind a key.  Floats and dates are kept as they are
written; nothing computes with them.

A table remembers how it came to be, because that decides what may still be
put into it: `Table.insert?`, `Table.header?` and `Table.row?` are the three
ways in which a document grows, and each refuses to define a thing twice.
-/

namespace GraphQuery.Toml

/-- How a table came to be. -/
inductive Origin where
  /-- It is written in braces, and complete. -/
  | braces
  /-- It has a header of its own. -/
  | header
  /-- It was named in the header of another table. -/
  | implied
  /-- It was named in a dotted key. -/
  | dotted
  deriving DecidableEq

/-- A value. -/
inductive Value where
  | string (s : String)
  | integer (n : Int)
  | float (text : String)
  | bool (b : Bool)
  | date (text : String)
  | array (items : List Value)
  | table (origin : Origin) (members : List (String × Value))
  /-- An array of tables that have headers, the last one first. -/
  | rows (tables : List (List (String × Value)))

/-- The members of a table. -/
abbrev Table := List (String × Value)

/-- The place of a value: the names of the tables around it, and its own name. -/
structure Key where
  path : List String
  name : String
  deriving DecidableEq

namespace Table

/-- The table with another value behind a name that it has. -/
def replace (t : Table) (name : String) (v : Value) : Table :=
  t.map fun m => if m.1 = name then (name, v) else m

/-- The table with another value behind a new name. -/
def append (t : Table) (name : String) (v : Value) : Table := t ++ [(name, v)]

/-- The tables of a path that are not there yet come from a dotted key, or else from a header. -/
def created (isDotted : Bool) : Origin := if isDotted then .dotted else .implied

/-- A table may be passed on the way of a path. A dotted key does not go into a table that has a
header, and nothing goes into a table in braces. -/
def mayPass (isDotted : Bool) : Origin → Bool
  | .braces => false
  | .header => !isDotted
  | .implied | .dotted => true

/-- Change the table at the end of a path. Of an array of tables the last one is meant. The change
is told how the table at the end came to be. -/
def descend? (isDotted : Bool) (change : Origin → Table → Option Table) :
    List String → Origin → Table → Option Table
  | [], origin, t => change origin t
  | name :: path, _, t =>
    match t.lookup name with
    | none => do
      let origin := created isDotted
      return t.append name (.table origin (← descend? isDotted change path origin []))
    | some (.table origin inner) =>
      if mayPass isDotted origin then do
        return t.replace name (.table origin (← descend? isDotted change path origin inner))
      else none
    | some (.rows (last :: before)) => do
      return t.replace name (.rows ((← descend? isDotted change path .header last) :: before))
    | some _ => none

/-- Put a value behind a key whose path leads through dotted keys to a table that came from one. -/
def insert? (key : Key) (v : Value) (t : Table) : Option Table :=
  descend? true change key.path .header t
where
  /-- Put the value behind its name. -/
  change (origin : Origin) (t : Table) : Option Table :=
    if (origin == .dotted) == key.path.isEmpty then none
    else if (t.lookup key.name).isSome then none
    else some (t.append key.name v)

/-- Open a table with a header. It is new, or was only implied so far. -/
def header? (key : Key) (t : Table) : Option Table :=
  descend? false (fun _ => change) key.path .header t
where
  /-- Open the table behind its name. -/
  change (t : Table) : Option Table :=
    match t.lookup key.name with
    | none => some (t.append key.name (.table .header []))
    | some (.table .implied inner) => some (t.replace key.name (.table .header inner))
    | some _ => none

/-- Open one more table of an array of tables. -/
def row? (key : Key) (t : Table) : Option Table :=
  descend? false (fun _ => change) key.path .header t
where
  /-- Open the table in the array behind its name. -/
  change (t : Table) : Option Table :=
    match t.lookup key.name with
    | none => some (t.append key.name (.rows [[]]))
    | some (.rows tables) => some (t.replace key.name (.rows ([] :: tables)))
    | some _ => none

end Table

/-- The datum of a value. A date has parts, but none that settings know. -/
def Value.toDatum : Value → Datum
  | .string s => .text s
  | .integer n => .integer n
  | .float _ | .bool _ => .other
  | .date _ => .record []
  | .array items => .list (itemData items)
  | .table _ members => .record (memberData members)
  | .rows tables => .list (rowData tables).reverse
where
  /-- The datum of each item. -/
  itemData : List Value → List Datum
    | [] => []
    | item :: items => item.toDatum :: itemData items
  /-- The members with the datum of each value. -/
  memberData : List (String × Value) → List (String × Datum)
    | [] => []
    | (key, value) :: members => (key, value.toDatum) :: memberData members
  /-- The datum of each table. -/
  rowData : List (List (String × Value)) → List Datum
    | [] => []
    | members :: tables => .record (memberData members) :: rowData tables

end GraphQuery.Toml
