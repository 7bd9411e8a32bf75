import GraphQuery.Json.Skim
import GraphQuery.Value

/-!
# Values as JSON

A value is written as an object with two members, `t` for its kind and `v`
for its content.  When it is read, both members have to be there once, other
members are passed over, and a pair of kind and content is accepted as well.
The kind in an object may itself be an object that has the word for the kind
as its only key, with null as its value.

`Value.decode?` reads a value from the bytes of a text.  It only skims the
members that it passes over, so they may hold what could not be read.
-/

namespace GraphQuery.Value

/-- The word for a value's kind in its JSON form. -/
def tag : Value → String
  | string _ => "String"
  | int _ => "Int"
  | uid _ => "Uid"
  | predicate _ => "Predicate"

/-- The content of a value's JSON form. -/
def content : Value → Json
  | string text => .string text
  | int n => .int n.toInt
  | uid text => .string text
  | predicate name => .string name

/-- The JSON form of a value. -/
def toJson (v : Value) : Json :=
  .object [("t", .string v.tag), ("v", v.content)]

/-- The value with the given tag and content. -/
def ofContent? (tag : String) (content : Json) : Option Value :=
  match tag with
  | "String" => content.string?.map string
  | "Int" => content.int64?.map int
  | "Uid" => content.string?.map uid
  | "Predicate" => content.string?.map predicate
  | _ => none

/-- The word for a kind, by itself or as the only key of an object. -/
def tag? : Json → Option String
  | .string tag => some tag
  | .object [(tag, .null)] => some tag
  | _ => none

/-- The value with the given JSON form. -/
def ofJson? : Json → Option Value
  | .array [.string tag, content] => ofContent? tag content
  | j =>
    match j.fields "t", j.fields "v" with
    | [t], [content] => tag? t >>= fun tag => ofContent? tag content
    | _, _ => none

/-- The values of the members with the given key. -/
def contents (key : String) (members : List (String × Json.Skim.Bytes)) :
    List Json.Skim.Bytes :=
  members.filterMap fun m => if m.1 = key then some m.2 else none

/-- The key of a member, and the bytes of its value. -/
def keyed? (m : Json.Skim.Member) : Option (String × Json.Skim.Bytes) := do
  return (← Json.ofBytes? m.key >>= Json.string?, m.value)

/-- The value that a text with the given bytes stands for. -/
def decode? (bytes : List UInt8) : Option Value :=
  match Json.Skim.members? bytes with
  | none => Json.ofBytes? bytes >>= ofJson?
  | some members => do
    let members ← members.mapM keyed?
    match contents "t" members, contents "v" members with
    | [t], [v] => ofJson? (.object [("t", ← Json.ofBytes? t), ("v", ← Json.ofBytes? v)])
    | _, _ => none

/-- A value is read back from its JSON form. -/
theorem ofJson?_toJson (v : Value) : ofJson? v.toJson = some v := by
  cases v with
  | scalar s =>
    cases s with
    | string text => rfl
    | int n =>
      have low : -9223372036854775808 ≤ n.toInt := n.le_toInt
      have high : n.toInt ≤ Int64.maxValue.toInt := Int.le_of_lt_add_one n.toInt_lt
      simp [ofJson?, toJson, tag, tag?, content, Json.fields, ofContent?, Json.int64?, Json.int,
        Json.integer?, low, high]
  | uid text => rfl
  | predicate name => rfl

end GraphQuery.Value
