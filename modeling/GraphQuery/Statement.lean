import GraphQuery.Query

/-!
# Statements

A `Statement` is what is sent to the database: a text, and the scalars of a
query as bindings beside it.

The block of a query is a template (`Query.block`), so numbering its
parameters is left to `Template.fill`.  A standalone statement wraps its
block in braces, behind a header that declares the parameters if there are
any.  The text of a mutation is the JSON of its payloads.
-/

namespace GraphQuery

/-- What a statement does. -/
inductive StatementKind where
  | query
  | set
  | delete
  deriving DecidableEq

/-- A text for the database, with the values of its parameters. -/
structure Statement where
  kind : StatementKind
  text : String
  bindings : List (String × String)
  deriving DecidableEq

namespace Statement

/-- The statement changes the graph. -/
def isMutation (s : Statement) : Bool := s.kind != .query

/-- Blocks in braces, behind the header of the parameters that they refer to. -/
def wrap (name : String) (p : Parameters) (body : String) : String :=
  if p.isEmpty then "\x7b " ++ body ++ " \x7d"
  else "query " ++ name ++ "(" ++ p.declarations ++ ") \x7b " ++ body ++ " \x7d"

end Statement

/-- The kind of statement that a mutation becomes. -/
def MutationKind.statementKind : MutationKind → StatementKind
  | set => .set
  | delete => .delete

namespace Query

/-- A query as the clauses of its root block see it. -/
def target (q : Query) : Target := ⟨q.name, none, .root⟩

/-- The root function with places for its arguments. -/
def rootTemplate (q : Query) : Template :=
  match q.root? with
  | none => [.demand (.error .missingFunction)]
  | some c => c.template

/-- The block of a query with places for its values. -/
def block (q : Query) : Template :=
  let c := Clauses.ofModifiers q.target (q.modifiers.forPath .root)
  .text (q.name ++ "(func: ") :: q.rootTemplate ++ c.demands
    ++ c.args.flatMap (fun a => .text ", " :: a) ++ [.text ")"]
    ++ c.directives.flatMap (fun d => .text " " :: d)
    ++ q.directives.flatMap (fun d => .text " " :: d.template)
    ++ .text " " :: q.selection.template q.modifiers .root

/-- The statement of a query that passed its check. -/
def queryStatement (q : Query) : Except Error Statement :=
  let (body, p) := q.block.fill .empty
  body.map fun body =>
    ⟨.query, if q.isStandalone then Statement.wrap q.name p body else body, p.bindings⟩

/-- The JSON of the payloads: one by itself, several as an array. -/
def payloadText (q : Query) : String :=
  match q.payloads with
  | [p] => p.json.text
  | ps => (Json.array (ps.map Payload.json)).text

/-- The statement of a mutation that passed its check. -/
def mutationStatement (q : Query) : Except Error Statement :=
  match q.mutationKind? with
  | none => .error .emptyMutation
  | some kind => .ok ⟨kind.statementKind, q.payloadText, []⟩

/-- The statement of a query or mutation. -/
def compile (q : Query) : Except Error Statement := do
  q.check
  match q.operation with
  | .query => q.queryStatement
  | .mutation => q.mutationStatement

end Query

/-! ## Batches -/

/-- Queries that are sent as one statement. -/
structure Batch where
  name : String
  queries : List Query

namespace Batch

/-- A batch without queries. -/
def empty (name : String) : Batch := ⟨name, []⟩

/-- The batch with one more query, whose name is its place in the batch. -/
def push (b : Batch) (q : Query) : Batch :=
  { b with
    queries := b.queries ++
      [{ q with name := "q" ++ toString b.queries.length, isStandalone := false }] }

/-- A batch of the given queries. -/
def ofList (name : String) (queries : List Query) : Batch :=
  queries.foldl push (empty name)

/-- A mutation has no place in a batch. -/
def checkMember (q : Query) : Verdict := do
  Verdict.ofBool (q.operation == .query)
    (.invalidArgument "mutations cannot be merged into a query batch")
  q.check

/-- The blocks of the queries, each behind its check. -/
def body (b : Batch) : Template :=
  Template.join " " (b.queries.map fun q => .demand (checkMember q) :: q.block)

/-- The statement of a batch: one header and one pair of braces around all blocks. -/
def compile (b : Batch) : Except Error Statement := do
  Verdict.ofBool (!b.queries.isEmpty) (.invalidArgument "query batch is empty")
  Name.checkPlain b.name
  let (body, p) := b.body.fill .empty
  return ⟨.query, Statement.wrap b.name p (← body), p.bindings⟩

end Batch

end GraphQuery
