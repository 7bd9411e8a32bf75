import GraphQuery.Template

/-!
# Function calls

A `Call` is a function with its arguments, as in `has(<name>)` or
`eq(<age>, $p0)`.  The built-in functions (`BuiltIn`) ask for arguments of
certain kinds, written down as an `Arity`: kinds for the first arguments and,
for some functions, one kind for any number of further ones.  A custom
function takes any arguments.

`Call.check` looks at the name and at the kinds of the arguments only; that
the names among the arguments are well formed shows when the call's template
is filled.
-/

namespace GraphQuery

/-- The functions that have an arity. -/
inductive BuiltIn where
  | eq | le | lt | ge | gt | between | has | ofType | uid | uidIn
  | allOfTerms | anyOfTerms | allOfText | anyOfText | regexp | fuzzyMatch
  deriving DecidableEq

namespace BuiltIn

/-- The name in a statement. -/
def name : BuiltIn → String
  | eq => "eq"
  | le => "le"
  | lt => "lt"
  | ge => "ge"
  | gt => "gt"
  | between => "between"
  | has => "has"
  | ofType => "type"
  | uid => "uid"
  | uidIn => "uid_in"
  | allOfTerms => "allofterms"
  | anyOfTerms => "anyofterms"
  | allOfText => "alloftext"
  | anyOfText => "anyoftext"
  | regexp => "regexp"
  | fuzzyMatch => "match"

/-- Every built-in function, once. -/
def all : List BuiltIn :=
  [eq, le, lt, ge, gt, between, has, ofType, uid, uidIn, allOfTerms, anyOfTerms, allOfText,
    anyOfText, regexp, fuzzyMatch]

/-- The built-in function of the given name. -/
def ofName? (name : String) : Option BuiltIn :=
  all.find? (·.name == name)

theorem name_of_ofName? {name : String} {b : BuiltIn} (h : ofName? name = some b) :
    b.name = name :=
  eq_of_beq (List.find?_some (p := fun b : BuiltIn => b.name == name) h)

/-- No two built-in functions have a name in common. -/
theorem ofName?_name (b : BuiltIn) : ofName? b.name = some b := by
  cases b <;> decide

end BuiltIn

/-- What one argument place accepts. -/
inductive Slot where
  | predicate
  | scalar
  | uid
  | string
  | int
  deriving DecidableEq

/-- The kinds of value that a place accepts. -/
def Slot.accepts : Slot → Kind → Bool
  | predicate, .predicate => true
  | scalar, k => k.isScalar
  | uid, .uid => true
  | string, .string => true
  | int, .int => true
  | _, _ => false

/-- The kinds of argument that a function asks for. -/
structure Arity where
  /-- The places of the first arguments. -/
  fixed : List Slot
  /-- The place of all further arguments, of which there is at least one. Without it there are
  none. -/
  further : Option Slot
  /-- The arguments in words. -/
  expected : String

/-- The kinds of an argument list are those that the arity asks for. -/
def Arity.admits (a : Arity) (kinds : List Kind) : Bool :=
  go a.fixed kinds
where
  /-- The remaining kinds fit the remaining places. -/
  go : List Slot → List Kind → Bool
    | [], kinds =>
      match a.further with
      | none => kinds.isEmpty
      | some slot => !kinds.isEmpty && kinds.all slot.accepts
    | _ :: _, [] => false
    | slot :: slots, kind :: kinds => slot.accepts kind && go slots kinds

/-- The arity of a built-in function. -/
def BuiltIn.arity : BuiltIn → Arity
  | has => ⟨[.predicate], none, "exactly one predicate"⟩
  | ofType => ⟨[.predicate], none, "exactly one type name"⟩
  | uid => ⟨[], some .uid, "one or more node identifiers"⟩
  | uidIn => ⟨[.predicate, .uid], none, "a predicate and a node identifier"⟩
  | eq => ⟨[.predicate], some .scalar, "a predicate and one or more values"⟩
  | le | lt | ge | gt | allOfTerms | anyOfTerms | allOfText | anyOfText | regexp =>
    ⟨[.predicate, .scalar], none, "a predicate and one value"⟩
  | fuzzyMatch =>
    ⟨[.predicate, .string, .int], none, "a predicate, a string and a distance"⟩
  | between => ⟨[.predicate, .scalar, .scalar], none, "a predicate and two bounds"⟩

/-- Which function is called. -/
inductive FunctionName where
  | builtIn (b : BuiltIn)
  | custom (name : String)
  deriving DecidableEq

namespace FunctionName

/-- The built-in function of that name, or a custom one. -/
def ofName (name : String) : FunctionName :=
  match BuiltIn.ofName? name with
  | some b => builtIn b
  | none => custom name

/-- The name in a statement. -/
def name : FunctionName → String
  | builtIn b => b.name
  | custom name => name

/-- A function that is made from a name has it. -/
theorem name_ofName (name : String) : (ofName name).name = name := by
  unfold ofName
  cases h : BuiltIn.ofName? name with
  | none => rfl
  | some b => exact BuiltIn.name_of_ofName? h

end FunctionName

/-- A function with its arguments. -/
structure Call where
  function : FunctionName
  args : List Value
  deriving DecidableEq

namespace Call

/-- A call of the built-in function of that name, or of a custom one. -/
def named (name : String) (args : List Value) : Call :=
  ⟨.ofName name, args⟩

/-- The nodes that have the predicate. -/
def has (predicate : String) : Call :=
  ⟨.builtIn .has, [.predicate predicate]⟩

/-- The nodes of the type. -/
def ofType (name : String) : Call :=
  ⟨.builtIn .ofType, [.predicate name]⟩

/-- The nodes whose predicate has the value. -/
def eq (predicate : String) (value : Value) : Call :=
  ⟨.builtIn .eq, [.predicate predicate, value]⟩

/-- The nodes with the given identifiers. -/
def uid (uids : List String) : Call :=
  ⟨.builtIn .uid, uids.map .uid⟩

/-- The call with further arguments. -/
def addArgs (c : Call) (args : List Value) : Call :=
  { c with args := c.args ++ args }

/-- The arguments have the kinds that the function asks for. -/
def checkArity (c : Call) : Verdict :=
  match c.function with
  | .custom _ => .ok ()
  | .builtIn b =>
    .ofBool (b.arity.admits (c.args.map Value.kind))
      (.arityMismatch b.name b.arity.expected c.args.length)

/-- A type name carries no reverse mark. -/
def checkTypeName (c : Call) : Verdict :=
  match c.function, c.args with
  | .builtIn .ofType, [.predicate name] => Name.checkPlain name
  | _, _ => .ok ()

/-- The function has a usable name, has arguments, and has them of the right kinds. -/
def check (c : Call) : Verdict := do
  Verdict.ofBool (c.function.name != "") .missingFunction
  Name.checkFunction c.function.name
  Verdict.ofBool (!c.args.isEmpty) (.missingArguments c.function.name)
  c.checkArity
  c.checkTypeName

/-- The place of an argument: the name of a type stands bare. -/
def argPiece (function : FunctionName) (v : Value) : Piece :=
  match function, v with
  | .builtIn .ofType, .predicate _ => .bare v
  | _, _ => .argument v

/-- The text of a call with places for its arguments. -/
def template (c : Call) : Template :=
  .demand c.check :: .text c.function.name ::
    Template.parenthesized (Template.join ", " (c.args.map fun v => [argPiece c.function v]))

end Call

end GraphQuery
