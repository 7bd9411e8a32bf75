import GraphQuery.Json.Number
import GraphQuery.Json.Quoted

/-!
# JSON values

`Json` is a JSON document with the members of its objects in the order in
which they were written.  `Json.canonical` is the value of the document: the
members sorted by key, and of equal keys only the last.  `Json.text` writes a
document without blanks, `Json.pretty` with one member on each line.
-/

namespace GraphQuery

/-- A JSON document. -/
inductive Json where
  | null
  | bool (b : Bool)
  | number (n : Number)
  | string (s : String)
  | array (items : List Json)
  | object (members : List (String × Json))

namespace Json

/-- A signed integer. -/
def int (n : Int) : Json := number (.integer n)

/-- A natural number. -/
def nat (n : Nat) : Json := number (.integer n)

/-- The value, or null. -/
def ofOption {α : Type} (f : α → Json) : Option α → Json
  | none => null
  | some a => f a

/-! ## The value of a document -/

/-- The members, sorted by key, with a new one in place of an older one with its key. -/
def putMember (key : String) (value : Json) : List (String × Json) → List (String × Json)
  | [] => [(key, value)]
  | m :: rest =>
    if key = m.1 then (key, value) :: rest
    else if key < m.1 then (key, value) :: m :: rest
    else m :: putMember key value rest

/-- The members sorted by key; the last of several with one key stays. -/
def sortMembers (members : List (String × Json)) : List (String × Json) :=
  members.foldl (fun sorted m => putMember m.1 m.2 sorted) []

/-- The document with the members of every object sorted and without repetition. -/
def canonical : Json → Json
  | null => null
  | bool b => bool b
  | number n => number n
  | string s => string s
  | array items => array (canonicalItems items)
  | object members => object (sortMembers (canonicalMembers members))
where
  /-- The canonical form of each item. -/
  canonicalItems : List Json → List Json
    | [] => []
    | item :: items => item.canonical :: canonicalItems items
  /-- The members with the canonical form of each value. -/
  canonicalMembers : List (String × Json) → List (String × Json)
    | [] => []
    | (key, value) :: members => (key, value.canonical) :: canonicalMembers members

/-! ## Looking into a document -/

/-- The values of the members with the given key, in order. -/
def fields (key : String) : Json → List Json
  | object members => members.filterMap fun m => if m.1 = key then some m.2 else none
  | _ => []

/-- The value of the member with the given key. -/
def field? (key : String) : Json → Option Json
  | object members => members.lookup key
  | _ => none

/-- The characters of a string. -/
def string? : Json → Option String
  | string s => some s
  | _ => none

/-- The value of an integer. -/
def integer? : Json → Option Int
  | number (.integer n) => some n
  | _ => none

/-- The value of an integer that fits into 64 bits with a sign. -/
def int64? (j : Json) : Option Int64 := do
  let n ← j.integer?
  if Int64.minValue.toInt ≤ n ∧ n ≤ Int64.maxValue.toInt then some (.ofInt n) else none

/-- The value of an integer from zero to below the bound. -/
def natBelow? (bound : Nat) (j : Json) : Option Nat := do
  let n ← j.integer?
  if 0 ≤ n ∧ n < bound then some n.toNat else none

/-- A truth value. -/
def bool? : Json → Option Bool
  | bool b => some b
  | _ => none

/-- The items of an array. -/
def items? : Json → Option (List Json)
  | array items => some items
  | _ => none

/-- The items of an array, if every one is of the expected form. -/
def list? {α : Type} (f : Json → Option α) (j : Json) : Option (List α) := do
  (← j.items?).mapM f

/-! ## Writing a document -/

/-- The document without blanks. -/
def text : Json → String
  | null => "null"
  | bool true => "true"
  | bool false => "false"
  | number n => n.text
  | string s => Quoted.encode s
  | array items => "[" ++ ",".intercalate (itemTexts items) ++ "]"
  | object members => "\x7b" ++ ",".intercalate (memberTexts members) ++ "\x7d"
where
  /-- The text of each item. -/
  itemTexts : List Json → List String
    | [] => []
    | item :: items => item.text :: itemTexts items
  /-- The text of each member. -/
  memberTexts : List (String × Json) → List String
    | [] => []
    | (key, value) :: members => (Quoted.encode key ++ ":" ++ value.text) :: memberTexts members

/-- The items of an array are written one by one. -/
theorem itemTexts_eq_map (items : List Json) : text.itemTexts items = items.map text := by
  induction items with
  | nil => rfl
  | cons item items ih => rw [text.itemTexts, ih, List.map_cons]

/-- The members of an object are written one by one. -/
theorem memberTexts_eq_map (members : List (String × Json)) :
    text.memberTexts members = members.map fun m => Quoted.encode m.1 ++ ":" ++ m.2.text := by
  induction members with
  | nil => rfl
  | cons m members ih => rw [text.memberTexts, ih, List.map_cons]

/-- Lines between two brackets, one step further in than the line on which the brackets stand. -/
def block (indent opening closing : String) (lines : List String) : String :=
  if lines.isEmpty then opening ++ closing
  else
    opening ++ "\n" ++ ",\n".intercalate (lines.map ((indent ++ "  ") ++ ·)) ++ "\n" ++ indent
      ++ closing

/-- The document with every item and member on a line of its own. -/
def pretty (indent : String) : Json → String
  | array items => block indent "[" "]" (itemLines items)
  | object members => block indent "\x7b" "\x7d" (memberLines members)
  | null => "null"
  | bool true => "true"
  | bool false => "false"
  | number n => n.text
  | string s => Quoted.encode s
where
  /-- The line of each item. -/
  itemLines : List Json → List String
    | [] => []
    | item :: items => item.pretty (indent ++ "  ") :: itemLines items
  /-- The line of each member. -/
  memberLines : List (String × Json) → List String
    | [] => []
    | (key, value) :: members =>
      (Quoted.encode key ++ ": " ++ value.pretty (indent ++ "  ")) :: memberLines members

end Json

end GraphQuery
