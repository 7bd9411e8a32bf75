import GraphQuery.Filter

/-!
# Modifiers

A modifier changes which nodes of a block or field are selected, in which
order, or what is said about them.  There are five groups, and the clauses
that a target carries are written group by group: the aggregate first, then
pagination, ordering, filters and the request for facets.  Within a group
the order of registration is kept.

`Clauses.ofModifiers` turns the modifiers of a target into its clauses.  An
aggregate replaces the name of a field, pagination and ordering are arguments
in its parentheses, and filters and facets are directives behind them.
Aggregates and facets belong to fields only, so a root block refuses them.
-/

namespace GraphQuery

/-- A window into the list of nodes. -/
inductive Page where
  /-- At most this many nodes; a negative number counts from the end. -/
  | first (n : Int64)
  /-- Skip this many nodes. -/
  | offset (n : Int64)
  /-- Only nodes after the given one. -/
  | after (uid : String)
  deriving DecidableEq

/-- Which end of an order comes first. -/
inductive Direction where
  | ascending
  | descending
  deriving DecidableEq

/-- An order of nodes by one predicate. -/
structure OrderBy where
  direction : Direction
  predicate : String
  deriving DecidableEq

/-- The value that is computed from the nodes of a field. -/
inductive AggregateKind where
  | count | min | max | sum | avg
  deriving DecidableEq

/-- The name in a statement. -/
def AggregateKind.name : AggregateKind → String
  | count => "count"
  | min => "min"
  | max => "max"
  | sum => "sum"
  | avg => "avg"

/-- A computed value, under an alias of its own or one made from the field's key. -/
structure Aggregate where
  kind : AggregateKind
  alias? : Option String
  deriving DecidableEq

/-- A change to what a target selects. -/
inductive Modifier where
  | aggregate (a : Aggregate)
  | page (p : Page)
  | order (o : OrderBy)
  | filter (f : Filter)
  | facets

/-- The groups in which clauses are written. -/
inductive Group where
  | aggregate
  | pagination
  | ordering
  | filter
  | facets
  deriving DecidableEq

/-- The group's name in error messages. -/
def Group.name : Group → String
  | aggregate => "Aggregate"
  | pagination => "Pagination"
  | ordering => "Ordering"
  | filter => "Filter"
  | facets => "Facets"

/-- The groups in the order in which their clauses are written. -/
def Group.all : List Group :=
  [aggregate, pagination, ordering, filter, facets]

/-- What carries modifiers: a root block or a field of a selection. -/
inductive Source where
  | root
  | field
  deriving DecidableEq

/-- A block or field, as its clauses see it. -/
structure Target where
  predicate : String
  alias? : Option String
  source : Source

/-- The key of the target in a response: its alias, or its name without reverse marks. -/
def Target.key (t : Target) : String :=
  t.alias?.getD (Name.withoutMarks t.predicate)

namespace Modifier

/-- The group of a modifier. -/
def group : Modifier → Group
  | aggregate _ => .aggregate
  | page _ => .pagination
  | order _ => .ordering
  | filter _ => .filter
  | facets => .facets

/-- The modifier makes sense on such a target. -/
def canApplyTo (m : Modifier) (s : Source) : Bool :=
  match m with
  | aggregate _ | facets => s == .field
  | _ => true

/-- Refuse a modifier on a target where it makes no sense. -/
def checkTarget (m : Modifier) (t : Target) : Verdict :=
  .ofBool (m.canApplyTo t.source)
    (.invalidArgument (m.group.name ++ " modifier cannot be attached to '" ++ t.key ++ "'"))

/-- The modifiers group by group, each group in the order in which it was. -/
def arrange (ms : List Modifier) : List Modifier :=
  Group.all.flatMap fun g => ms.filter (·.group == g)

end Modifier

/-- The argument of a window. -/
def Page.template : Page → Template
  | first n => [.text "first: ", .bare (.int n)]
  | offset n => [.text "offset: ", .bare (.int n)]
  | after uid => [.text "after: ", .bare (.uid uid)]

/-- The argument of an order. -/
def OrderBy.template (o : OrderBy) : Template :=
  match o.direction with
  | .ascending => [.text "orderasc: ", .bare (.predicate o.predicate)]
  | .descending => [.text "orderdesc: ", .bare (.predicate o.predicate)]

/-- The key of a computed value in a response. -/
def Aggregate.key (a : Aggregate) (t : Target) : String :=
  a.alias?.getD (t.key ++ "_" ++ a.kind.name)

/-- The text that stands for the name of an aggregated field. -/
def Aggregate.head (a : Aggregate) (t : Target) : String :=
  a.key t ++ " : " ++ a.kind.name ++ "(" ++ t.predicate ++ ")"

/-- The clauses of a target, group by group. -/
structure Clauses where
  /-- What must hold before any clause is written. -/
  demands : Template
  /-- The text that replaces the name of the target. -/
  head? : Option String
  /-- The arguments in its parentheses. -/
  args : List Template
  /-- The directives behind it. -/
  directives : List Template

namespace Clauses

/-- No clauses. -/
def empty : Clauses := ⟨[], none, [], []⟩

/-- The clauses of a modifier before those of later ones. -/
def cons (t : Target) (m : Modifier) (rest : Clauses) : Clauses :=
  match m with
  | .aggregate a =>
    { rest with
      demands := .demand (m.checkTarget t) :: .demand (Name.checkPredicate (a.key t))
        :: rest.demands
      head? := some (rest.head?.getD (a.head t)) }
  | .page p => { rest with args := p.template :: rest.args }
  | .order o => { rest with args := o.template :: rest.args }
  | .filter none => rest
  | .filter (some c) =>
    { rest with directives := Filter.template (some c) :: rest.directives }
  | .facets =>
    { rest with
      directives := [.demand (m.checkTarget t), .text "@facets"] :: rest.directives }

/-- The clauses of a target with the given modifiers. -/
def ofModifiers (t : Target) (ms : List Modifier) : Clauses :=
  (Modifier.arrange ms).foldr (cons t) empty

/-- Clauses with their parameters numbered. -/
structure Text where
  head? : Option String
  args : List String
  directives : List String

/-- The clauses as text, or the first error, and the parameters that were registered. -/
def fill (p : Parameters) (c : Clauses) : Except Error Text × Parameters :=
  match c.demands.fill p with
  | (.error e, p) => (.error e, p)
  | (.ok _, p) =>
    match Template.fillAll p c.args with
    | (.error e, p) => (.error e, p)
    | (.ok args, p) =>
      match Template.fillAll p c.directives with
      | (.error e, p) => (.error e, p)
      | (.ok directives, p) => (.ok ⟨c.head?, args, directives⟩, p)

end Clauses

/-! ## Modifiers by path -/

/-- The names from the root to a field, joined by slashes; the root block has the empty path. -/
abbrev Path := String

namespace Path

/-- The path of the root block. -/
def root : Path := ""

/-- What stands between two names of a path. -/
def separator : Char := '/'

/-- The path of a field below the given one. -/
def child (parent : Path) (name : String) : Path :=
  if parent = root then name else parent ++ "/" ++ name

end Path

/-- The modifiers of a query, each registered under a path. -/
structure Modifiers where
  /-- At most one for each path. -/
  aggregates : List (Path × Aggregate)
  /-- In the order of registration. -/
  pages : List (Path × Page)
  /-- In the order of registration. -/
  orders : List (Path × OrderBy)
  /-- At most one for each path. -/
  filters : List (Path × Filter)
  /-- The paths whose facets are asked for, each once. -/
  facets : List Path

namespace Modifiers

/-- No modifiers. -/
def empty : Modifiers := ⟨[], [], [], [], []⟩

/-- The entries with a new value under the path in place of an older one. -/
def put {α : Type} (path : Path) (a : α) (entries : List (Path × α)) : List (Path × α) :=
  entries.filter (·.1 != path) ++ [(path, a)]

/-- The entries under a path. -/
def under {α : Type} (path : Path) (entries : List (Path × α)) : List α :=
  entries.filterMap fun e => if e.1 = path then some e.2 else none

/-- Register a modifier under a path. Aggregates and filters replace an older one, pages and
orders add to those before. -/
def add (ms : Modifiers) (path : Path) : Modifier → Modifiers
  | .aggregate a => { ms with aggregates := put path a ms.aggregates }
  | .page p => { ms with pages := ms.pages ++ [(path, p)] }
  | .order o => { ms with orders := ms.orders ++ [(path, o)] }
  | .filter f => { ms with filters := put path f ms.filters }
  | .facets => { ms with facets := ms.facets.filter (· != path) ++ [path] }

/-- An aggregate is registered under the path. -/
def hasAggregate (ms : Modifiers) (path : Path) : Bool :=
  (ms.aggregates.lookup path).isSome

/-- A filter is registered under the path. -/
def hasFilter (ms : Modifiers) (path : Path) : Bool :=
  (ms.filters.lookup path).isSome

/-- Facets are asked for under the path. -/
def hasFacets (ms : Modifiers) (path : Path) : Bool :=
  ms.facets.contains path

/-- The modifiers under a path, group by group. -/
def forPath (ms : Modifiers) (path : Path) : List Modifier :=
  (under path ms.aggregates).map .aggregate ++ (under path ms.pages).map .page
    ++ (under path ms.orders).map .order ++ (under path ms.filters).map .filter
    ++ if ms.hasFacets path then [.facets] else []

/-- Every registered filter passes its check. -/
def checkFilters (ms : Modifiers) : Verdict :=
  ms.filters.forM fun e => e.2.check

end Modifiers

end GraphQuery
