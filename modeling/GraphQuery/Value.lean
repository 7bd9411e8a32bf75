import GraphQuery.Name

/-!
# Argument values

A value is a scalar or a name.  Scalars (`Scalar`) are content: they never
stand in a statement and travel beside it as parameters.  Node identifiers
and predicates are names: they stand in the statement itself, so
`Value.check` refuses those that are not of their class.
-/

namespace GraphQuery

/-- Content that is bound to a parameter. -/
inductive Scalar where
  | string (text : String)
  | int (n : Int64)
  deriving DecidableEq

/-- What may be given to a function. -/
inductive Value where
  | scalar (s : Scalar)
  | uid (text : String)
  | predicate (name : String)
  deriving DecidableEq

/-- The four kinds of value. -/
inductive Kind where
  | string
  | int
  | uid
  | predicate
  deriving DecidableEq

namespace Kind

/-- The kind in lower case. -/
def name : Kind → String
  | string => "string"
  | int => "int"
  | uid => "uid"
  | predicate => "predicate"

/-- Values of the kind are bound to parameters. -/
def isScalar : Kind → Bool
  | string | int => true
  | uid | predicate => false

/-- The type under which a parameter of the kind is declared. -/
def declaredType? : Kind → Option String
  | string => some "string"
  | int => some "int"
  | uid | predicate => none

end Kind

/-- The decimal text of a signed 64-bit integer. -/
def decimal (n : Int64) : String :=
  toString n.toInt

namespace Scalar

/-- The kind of a scalar. -/
def kind : Scalar → Kind
  | string _ => .string
  | int _ => .int

/-- The text bound to the parameter that stands for the scalar. -/
def text : Scalar → String
  | string text => text
  | int n => decimal n

/-- The type under which the scalar is declared. -/
def typeName : Scalar → String
  | string _ => "string"
  | int _ => "int"

end Scalar

namespace Value

/-- A string value. -/
@[match_pattern] abbrev string (text : String) : Value := .scalar (.string text)

/-- An integer value. -/
@[match_pattern] abbrev int (n : Int64) : Value := .scalar (.int n)

/-- The kind of a value. -/
def kind : Value → Kind
  | scalar s => s.kind
  | uid _ => .uid
  | predicate _ => .predicate

/-- The text of a value, without anything that tells its kind. -/
def text : Value → String
  | scalar s => s.text
  | uid text => text
  | predicate name => name

/-- Refuse a name that is not of its class; scalars are always accepted. -/
def check : Value → Verdict
  | scalar _ => .ok ()
  | uid text => Name.checkIdentifier text
  | predicate name => Name.checkPredicate name

end Value

/-- The declared type of a scalar is that of its kind. -/
theorem Scalar.declaredType?_kind (s : Scalar) : s.kind.declaredType? = some s.typeName := by
  cases s <;> rfl

/-- A value is of a scalar kind exactly when it is a scalar. -/
theorem Value.isScalar_kind_iff {v : Value} : v.kind.isScalar = true ↔ ∃ s, v = .scalar s := by
  cases v with
  | scalar s => cases s <;> simp [Value.kind, Scalar.kind, Kind.isScalar]
  | uid _ => simp [Value.kind, Kind.isScalar]
  | predicate _ => simp [Value.kind, Kind.isScalar]

end GraphQuery
