import GraphQuery.Directive
import GraphQuery.Json.Basic
import GraphQuery.Selection

/-!
# Queries and mutations

A `Query` is built up step by step: a name, a root function, selected fields,
modifiers at the paths of fields, directives, and payloads to set or delete.
The first payload makes it a mutation, of which only the payloads count.

`Query.check` looks at what can be seen without writing the statement: the
name, the root function and all filters of a query, or the kinds of the
payloads of a mutation.
-/

namespace GraphQuery

/-- A statement either reads or changes the graph. -/
inductive Operation where
  | query
  | mutation
  deriving DecidableEq

/-- What happens to a payload. -/
inductive MutationKind where
  | set
  | delete
  deriving DecidableEq

/-- A JSON value that is set or deleted. -/
structure Payload where
  kind : MutationKind
  json : Json

/-- A query or mutation as far as it has been built. -/
structure Query where
  operation : Operation
  name : String
  root? : Option Call
  selection : Selection
  modifiers : Modifiers
  directives : List Directive
  payloads : List Payload
  /-- The statement has a header and braces of its own. -/
  isStandalone : Bool
  /-- The message of the first payload that could not be encoded. -/
  encodingError? : Option String

namespace Query

/-- The name of a query that was not given one. -/
def defaultName : String := "q"

/-- A query that selects nothing yet. -/
def empty : Query where
  operation := .query
  name := defaultName
  root? := none
  selection := .nil
  modifiers := .empty
  directives := []
  payloads := []
  isStandalone := true
  encodingError? := none

/-- A mutation without payloads. -/
def emptyMutation : Query := { empty with operation := .mutation }

/-- One step in building a query. -/
inductive Step where
  /-- Give the query a name. -/
  | name (name : String)
  /-- Give the query a root function. -/
  | root (c : Call)
  /-- Select further fields. -/
  | select (fields : Selection)
  /-- Register a modifier under a path. -/
  | modify (path : Path) (m : Modifier)
  /-- Add a directive. -/
  | direct (d : Directive)
  /-- Add a payload, or the error by which its encoding failed. -/
  | mutate (kind : MutationKind) (payload : Except Error Json)
  /-- Say whether the statement has a header and braces of its own. -/
  | standalone (isStandalone : Bool)

/-- The query with another payload; of several failed encodings the first is remembered. -/
def mutate (q : Query) (kind : MutationKind) : Except Error Json → Query
  | .ok json => { q with operation := .mutation, payloads := q.payloads ++ [⟨kind, json⟩] }
  | .error e =>
    { q with
      operation := .mutation
      encodingError? := some (q.encodingError?.getD e.message) }

/-- The query after one more step. -/
def apply (q : Query) : Step → Query
  | .name name => { q with name }
  | .root c => { q with root? := some c }
  | .select fields => { q with selection := q.selection ++ fields }
  | .modify path m => { q with modifiers := q.modifiers.add path m }
  | .direct d => { q with directives := q.directives ++ [d] }
  | .mutate kind payload => q.mutate kind payload
  | .standalone isStandalone => { q with isStandalone }

/-- The query after several steps. -/
def build (start : Query) (steps : List Step) : Query :=
  steps.foldl apply start

/-- The kind of a mutation is that of its first payload. -/
def mutationKind? (q : Query) : Option MutationKind :=
  q.payloads.head?.map Payload.kind

/-- The name, the root function and the filters of a query are usable. -/
def checkQuery (q : Query) : Verdict := do
  Name.checkPlain q.name
  match q.root? with
  | none => .error .missingFunction
  | some c => c.check
  q.modifiers.checkFilters

/-- A mutation has payloads, all of one kind. -/
def checkMutation (q : Query) : Verdict :=
  match q.payloads with
  | [] => .error .emptyMutation
  | first :: rest => .ofBool (rest.all (·.kind == first.kind)) .mixedMutation

/-- What can be checked without writing the statement. -/
def check (q : Query) : Verdict :=
  match q.encodingError? with
  | some message => .error (.serialization message)
  | none =>
    match q.operation with
    | .query => q.checkQuery
    | .mutation => q.checkMutation

end Query

end GraphQuery
