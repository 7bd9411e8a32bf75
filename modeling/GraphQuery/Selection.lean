import GraphQuery.Modifier

/-!
# Selections

A selection is the list of fields between two braces, each field with the
selection below it.  Every selection ends with the selector `uid`, so a field
of that name without an alias is left out with all that is below it.

`Selection.template` writes the fields of a selection, each with the
modifiers of its path.  A field that is aggregated selects a value and not a
node, so what stands below it is not written.

`Selection.ofPaths` builds a selection from slash-separated paths.
-/

namespace GraphQuery

/-- A field, without the selection below it. -/
structure Field where
  name : String
  alias? : Option String := none
  /-- The field selects nodes, even if nothing is selected of them. -/
  isObject : Bool := false
  /-- The field has several values; the text does not depend on it. -/
  isList : Bool := false
  /-- The field asks for its facets. -/
  wantsFacets : Bool := false
  deriving DecidableEq

namespace Field

/-- The field that closes every selection. -/
def selectorName : String := "uid"

/-- The field follows its predicate in reverse. -/
def isReverse (f : Field) : Bool := Name.isReverse f.name

/-- The field says no more than the selector that closes every selection. -/
def isSelector (f : Field) : Bool := f.name == selectorName && f.alias?.isNone

/-- The field as its clauses see it. -/
def target (f : Field) : Target := ⟨f.name, f.alias?, .field⟩

/-- The name of a field is there and well formed. -/
def checkName (f : Field) : Verdict := do
  Verdict.ofBool (f.name != "") .missingFieldName
  Name.checkPredicate f.name

/-- An alias is a plain name. -/
def checkAlias (f : Field) : Verdict :=
  match f.alias? with
  | none => .ok ()
  | some a => Name.checkPlain a

/-- The name of a field with the key that it has in the response, if they differ. -/
def label (f : Field) : String :=
  match f.alias? with
  | some a => a ++ " : " ++ f.name
  | none =>
    if f.isReverse then Name.withoutMarks f.name ++ " : " ++ f.name else f.name

/-- The clauses of a field at a path; a field that wants facets asks for them once. -/
def clauses (ms : Modifiers) (path : Path) (f : Field) : Clauses :=
  .ofModifiers f.target
    (ms.forPath path ++ if f.wantsFacets && !ms.hasFacets path then [.facets] else [])

end Field

/-- The arguments and directives of a target, behind its name. -/
def Clauses.template (c : Clauses) : Template :=
  (if c.args.isEmpty then [] else .text " " :: (Template.join ", " c.args).parenthesized)
    ++ c.directives.flatMap fun d => .text " " :: d

/-- The text of a field up to the selection below it. The alias is looked at last, and only where it
is written. -/
def Field.template (ms : Modifiers) (path : Path) (f : Field) : Template :=
  let c := f.clauses ms path
  match c.head? with
  | some head => .demand f.checkName :: c.demands ++ .text head :: c.template
  | none =>
    .demand f.checkName :: c.demands ++ .text f.label :: c.template
      ++ [.demand f.checkAlias]

/-- Fields in order, each with the selection below it. -/
inductive Selection where
  | nil
  | cons (field : Field) (children rest : Selection)
  deriving DecidableEq, Inhabited

namespace Selection

/-- There is no field. -/
def isEmpty : Selection → Bool
  | nil => true
  | cons _ _ _ => false

/-- One selection behind another. -/
def append : Selection → Selection → Selection
  | nil, s => s
  | cons f children rest, s => cons f children (rest.append s)

instance : Append Selection := ⟨append⟩

/-- A single field. -/
def single (f : Field) (children : Selection := nil) : Selection := cons f children nil

/-- The fields of a selection with what is below them. -/
def toList : Selection → List (Field × Selection)
  | nil => []
  | cons f children rest => (f, children) :: rest.toList

/-- A selection with its braces and the selector that closes it. -/
def braced (fields : Template) : Template :=
  .text "\x7b" :: fields ++ [.text (" " ++ Field.selectorName ++ " \x7d")]

/-- The fields of a selection below a path, each behind a space. -/
def fields (ms : Modifiers) (parent : Path) : Selection → Template
  | nil => []
  | cons f children rest =>
    let path := Path.child parent f.name
    (if f.isSelector then []
      else .text " " :: f.template ms path ++
        if !ms.hasAggregate path && (f.isObject || !children.isEmpty) then
          .text " " :: braced (children.fields ms path)
        else [])
      ++ rest.fields ms parent

/-- The text of a selection below a path with places for its values. -/
def template (ms : Modifiers) (path : Path) (s : Selection) : Template :=
  braced (s.fields ms path)

/-! ## Selections from paths -/

/-- The parts of a text between slashes. -/
def segments : List Char → List (List Char)
  | [] => [[]]
  | c :: cs =>
    if c = Path.separator then
      [] :: segments cs
    else
      match segments cs with
      | [] => [[c]]
      | s :: rest => (c :: s) :: rest

/-- The names in a path. -/
def names (path : Path) : List String :=
  (segments path.toList).map String.ofList

/-- Change what is below the first field of the name, which is added at the end if it is missing. -/
def update (name : String) (isObject : Bool) (change : Selection → Selection) :
    Selection → Selection
  | nil => single { name, isObject } (change nil)
  | cons f children rest =>
    if f.name = name then
      cons { f with isObject := f.isObject || isObject } (change children) rest
    else
      cons f children (rest.update name isObject change)

/-- The selection with the field that the names lead to. -/
def insert : List String → Selection → Selection
  | [], s => s
  | name :: rest, s => s.update name (!rest.isEmpty) (insert rest)

/-- The selection of all fields that the paths lead to; a path with an empty name is refused. -/
def ofPaths (paths : List Path) : Except Error Selection :=
  if paths.all fun path => (names path).all (· != "") then
    .ok (paths.foldl (fun s path => insert (names path) s) nil)
  else
    .error .missingFieldName

end Selection

end GraphQuery
