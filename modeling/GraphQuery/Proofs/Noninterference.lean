import GraphQuery.Proofs.Bindings
import GraphQuery.Proofs.Clauses
import GraphQuery.Proofs.Compiling
import GraphQuery.Proofs.Conditions

/-!
# Content does not reach the text of a statement

Strings and integers travel beside a statement as the values of its
parameters.  `Recoding` changes them, by an injective map on strings and one
on integers, wherever they stand in a query: among the arguments of the root
function and of every filter, and in windows.  Nothing else is changed.

A recoded query has the block of the query with its places recoded, because
no check and no template looks at content.  Filling recodes the parameters
and leaves every number alone, so the text stays the same and the parameters
of the same names are bound to the recoded content.  `Statement.Recoded` says
so of two statements, and `compile_recoded` of all queries and batches.
-/

namespace GraphQuery

/-- Only the function `type` looks at the name of its argument. -/
theorem Call.checkTypeName_of_ne {c : Call} (h : c.function ≠ .builtIn .ofType) :
    c.checkTypeName = .ok () := by
  rw [checkTypeName]
  split
  · rename_i hfunction _
    exact absurd hfunction h
  · rfl

/-- A change of content that keeps different strings and different integers different. -/
structure Recoding where
  string : String → String
  int : Int64 → Int64
  string_injective : Function.Injective string
  int_injective : Function.Injective int

namespace Recoding

variable (r : Recoding)

/-! ## Recoded queries -/

def scalar : Scalar → Scalar
  | .string text => .string (r.string text)
  | .int n => .int (r.int n)

def value : Value → Value
  | .scalar s => .scalar (r.scalar s)
  | .uid text => .uid text
  | .predicate name => .predicate name

def call (c : Call) : Call :=
  { c with args := c.args.map r.value }

def condition : Condition → Condition
  | .call c => .call (r.call c)
  | .and cs => .and (conditions cs)
  | .or cs => .or (conditions cs)
  | .not c => .not (condition c)
where
  /-- The recoded conditions of a list. -/
  conditions : List Condition → List Condition
    | [] => []
    | c :: cs => condition c :: conditions cs

def filter (f : Filter) : Filter :=
  f.map r.condition

def page : Page → Page
  | .first n => .first (r.int n)
  | .offset n => .offset (r.int n)
  | .after uid => .after uid

def modifier : Modifier → Modifier
  | .page p => .page (r.page p)
  | .filter f => .filter (r.filter f)
  | m => m

/-- The modifiers with recoded windows and filters under the same paths. -/
def modifiers (ms : Modifiers) : Modifiers :=
  { ms with
    pages := ms.pages.map fun e => (e.1, r.page e.2)
    filters := ms.filters.map fun e => (e.1, r.filter e.2) }

/-- The query with recoded root function, windows and filters. -/
def query (q : Query) : Query :=
  { q with root? := q.root?.map r.call, modifiers := r.modifiers q.modifiers }

/-- The batch of the recoded queries. -/
def batch (b : Batch) : Batch :=
  { b with queries := b.queries.map r.query }

/-! ## Recoded templates -/

def piece : Piece → Piece
  | .argument v => .argument (r.value v)
  | .bare v => .bare (r.value v)
  | p => p

def template (t : Template) : Template :=
  t.map r.piece

def clauses (c : Clauses) : Clauses where
  demands := r.template c.demands
  head? := c.head?
  args := c.args.map r.template
  directives := c.directives.map r.template

theorem scalar_injective : Function.Injective r.scalar := by
  intro a b h
  cases a with
  | string x =>
    cases b with
    | string y => exact congrArg _ (r.string_injective (Scalar.string.inj h))
    | int m => cases h
  | int n =>
    cases b with
    | string y => cases h
    | int m => exact congrArg _ (r.int_injective (Scalar.int.inj h))

/-- The parameters with recoded content. -/
def parameters (p : Parameters) : Parameters :=
  p.map r.scalar r.scalar_injective

variable {r}

@[simp] theorem kind_value (v : Value) : (r.value v).kind = v.kind := by
  rcases v with (_ | _) | _ | _ <;> rfl

@[simp] theorem check_value (v : Value) : (r.value v).check = v.check := by
  cases v <;> rfl

@[simp] theorem verdict_piece (x : Piece) : (r.piece x).verdict = x.verdict := by
  cases x with
  | argument v | bare v => exact check_value v
  | text _ | demand _ => rfl

theorem scalar?_piece (x : Piece) : (r.piece x).scalar? = x.scalar?.map r.scalar := by
  cases x with
  | argument v | bare v => cases v <;> rfl
  | text _ | demand _ => rfl

/-- A recoded piece reads the same when the recoded scalars have the numbers of the old ones. -/
theorem write_piece {n m : Scalar → Nat} (x : Piece) (h : ∀ s, m (r.scalar s) = n s) :
    (r.piece x).write m = x.write n := by
  cases hs : x.scalar? with
  | none =>
    cases x with
    | argument v | bare v =>
      cases v with
      | scalar s => cases hs
      | uid _ | predicate _ => rfl
    | text _ | demand _ => rfl
  | some s =>
    rw [Piece.write_of_scalar? hs, Piece.write_of_scalar? (by rw [scalar?_piece, hs]; rfl), h]

theorem verdict_template (t : Template) : (r.template t).verdict = t.verdict := by
  induction t with
  | nil => rfl
  | cons x t ih =>
    show ((r.piece x).verdict >>= fun _ => Template.verdict (r.template t)) = _
    rw [verdict_piece, ih]
    rfl

theorem scalars_template (t : Template) : (r.template t).scalars = t.scalars.map r.scalar := by
  rw [template, Template.scalars, Template.scalars, List.filterMap_map, List.map_filterMap]
  congr 1
  funext x
  exact scalar?_piece x

theorem write_template {n m : Scalar → Nat} (t : Template) (h : ∀ s, m (r.scalar s) = n s) :
    (r.template t).write m = t.write n := by
  induction t with
  | nil => rfl
  | cons x t ih =>
    show (r.piece x).write m ++ Template.write m (r.template t) = _
    rw [write_piece x h, ih]
    rfl

@[simp] theorem template_append (t u : Template) :
    r.template (t ++ u) = r.template t ++ r.template u :=
  List.map_append

@[simp] theorem template_nil : r.template [] = [] := rfl

@[simp] theorem template_cons (x : Piece) (t : Template) :
    r.template (x :: t) = r.piece x :: r.template t := rfl

@[simp] theorem piece_text (s : String) : r.piece (.text s) = .text s := rfl

@[simp] theorem piece_demand (check : Verdict) : r.piece (.demand check) = .demand check := rfl

@[simp] theorem template_parenthesized (t : Template) :
    r.template t.parenthesized = (r.template t).parenthesized := by
  simp [Template.parenthesized]

@[simp] theorem template_join (between : String) (ts : List Template) :
    r.template (Template.join between ts) = Template.join between (ts.map r.template) := by
  induction ts with
  | nil => rfl
  | cons t ts ih =>
    cases ts with
    | nil => rfl
    | cons t' ts =>
      rw [Template.join, template_append, template_cons, ih]
      · rfl
      · simp

theorem template_flatMap {α : Type} (xs : List α) (f : α → Template) :
    r.template (xs.flatMap f) = xs.flatMap fun x => r.template (f x) :=
  List.map_flatMap

/-! ## Calls and filters -/

theorem check_call (c : Call) : (r.call c).check = c.check := by
  have harity : (r.call c).checkArity = c.checkArity := by
    have hkinds : (r.call c).args.map Value.kind = c.args.map Value.kind := by
      rw [call, List.map_map]
      exact List.map_congr_left fun v _ => kind_value v
    have hlength : (r.call c).args.length = c.args.length := List.length_map _
    rw [Call.checkArity, Call.checkArity, hkinds, hlength]
    rfl
  have htype : (r.call c).checkTypeName = c.checkTypeName := by
    obtain ⟨function, args⟩ := c
    by_cases hfunction : function = .builtIn .ofType
    · subst hfunction
      rcases args with _ | ⟨v, _ | ⟨w, args⟩⟩
      · rfl
      · cases v <;> rfl
      · cases v <;> rfl
    · rw [Call.checkTypeName_of_ne hfunction, Call.checkTypeName_of_ne hfunction]
  have hempty : (r.call c).args.isEmpty = c.args.isEmpty := List.isEmpty_map
  rw [Call.check, Call.check, harity, htype, hempty]
  rfl

theorem template_call (c : Call) : (r.call c).template = r.template c.template := by
  have hpiece : ∀ v, Call.argPiece c.function (r.value v) =
      r.piece (Call.argPiece c.function v) := by
    intro v
    rcases c.function with b | _
    · cases b <;> cases v <;> rfl
    · rfl
  have hargs : (r.call c).args.map (fun v => [Call.argPiece c.function v]) =
      (c.args.map fun v => [Call.argPiece c.function v]).map r.template := by
    simp [call, hpiece]
  rw [Call.template, Call.template, check_call, template_cons, template_cons,
    template_parenthesized, template_join, ← hargs]
  rfl

theorem conditions_eq (cs : List Condition) :
    condition.conditions r cs = cs.map r.condition := by
  induction cs with
  | nil => rfl
  | cons c cs ih => rw [condition.conditions, ih, List.map_cons]

theorem check_condition (c : Condition) : (r.condition c).check = c.check := by
  induction c using Condition.induction with
  | call c => exact check_call c
  | and cs ih =>
    rw [condition, conditions_eq, Condition.check_and, Condition.check_and]
    exact Condition.checkOperands_map ih
  | or cs ih =>
    rw [condition, conditions_eq, Condition.check_or, Condition.check_or]
    exact Condition.checkOperands_map ih
  | not c ih => rw [condition, Condition.check, Condition.check, ih]

theorem joinsMany_condition (c : Condition) : (r.condition c).joinsMany = c.joinsMany := by
  cases c with
  | call c => rfl
  | and cs | or cs =>
    rw [condition, conditions_eq]
    rcases cs with _ | ⟨c, _ | ⟨c', cs⟩⟩ <;> rfl
  | not c => rfl

theorem asOperand_condition {c : Condition}
    (h : (r.condition c).template = r.template c.template) :
    (r.condition c).asOperand = r.template c.asOperand := by
  rw [Condition.asOperand, Condition.asOperand, Condition.operandTemplate,
    Condition.operandTemplate, joinsMany_condition, h]
  cases c.joinsMany with
  | false => rfl
  | true => exact (template_parenthesized _).symm

theorem map_asOperand {cs : List Condition}
    (h : ∀ c ∈ cs, (r.condition c).template = r.template c.template) :
    (cs.map r.condition).map Condition.asOperand =
      (cs.map Condition.asOperand).map r.template := by
  rw [List.map_map, List.map_map]
  exact List.map_congr_left fun c hc => asOperand_condition (h c hc)

theorem template_condition (c : Condition) :
    (r.condition c).template = r.template c.template := by
  induction c using Condition.induction with
  | call c => exact template_call c
  | and cs ih =>
    rw [condition, conditions_eq, Condition.template_and, Condition.template_and, map_asOperand ih,
      template_join]
  | or cs ih =>
    rw [condition, conditions_eq, Condition.template_or, Condition.template_or, map_asOperand ih,
      template_join]
  | not c ih =>
    rw [condition, Condition.template_not, Condition.template_not, asOperand_condition ih,
      template_cons]
    rfl

theorem check_filter (f : Filter) : (r.filter f).check = f.check := by
  cases f with
  | none => rfl
  | some c => exact check_condition c

theorem template_filter (f : Filter) : (r.filter f).template = r.template f.template := by
  cases f with
  | none => rfl
  | some c =>
    show Filter.template (some (r.condition c)) = _
    rw [Filter.template, Filter.template, check_condition, template_condition, template_cons,
      template_cons, template_parenthesized]
    rfl

/-! ## Modifiers and fields -/

theorem group_modifier (m : Modifier) : (r.modifier m).group = m.group := by
  cases m <;> rfl

theorem arrange_modifier (ms : List Modifier) :
    Modifier.arrange (ms.map r.modifier) = (Modifier.arrange ms).map r.modifier := by
  rw [Modifier.arrange, Modifier.arrange, List.map_flatMap]
  congr 1
  funext g
  rw [List.filter_map]
  congr 2
  funext m
  exact congrArg (· == g) (group_modifier m)

theorem template_page (p : Page) : (r.page p).template = r.template p.template := by
  cases p <;> rfl

theorem template_order (o : OrderBy) : r.template o.template = o.template := by
  obtain ⟨direction, predicate⟩ := o
  cases direction <;> rfl

theorem clauses_cons (t : Target) (m : Modifier) (c : Clauses) :
    (r.clauses c).cons t (r.modifier m) = r.clauses (c.cons t m) := by
  cases m with
  | aggregate a => rfl
  | page p => simp [Clauses.cons, modifier, clauses, template_page]
  | order o => simp [Clauses.cons, modifier, clauses, template_order]
  | filter f =>
    cases f with
    | none => rfl
    | some condition =>
      have hfilter := template_filter (r := r) (some condition)
      rw [filter, Option.map_some] at hfilter
      simpa [Clauses.cons, modifier, clauses, filter] using hfilter
  | facets => rfl

theorem ofModifiers_modifier (t : Target) (ms : List Modifier) :
    Clauses.ofModifiers t (ms.map r.modifier) = r.clauses (Clauses.ofModifiers t ms) := by
  rw [Clauses.ofModifiers, Clauses.ofModifiers, arrange_modifier]
  induction Modifier.arrange ms with
  | nil => rfl
  | cons m ms ih => rw [List.map_cons, List.foldr_cons, List.foldr_cons, ih, clauses_cons]

theorem under_map {α β : Type} (path : Path) (f : α → β) (entries : List (Path × α)) :
    Modifiers.under path (entries.map fun e => (e.1, f e.2)) =
      (Modifiers.under path entries).map f := by
  rw [Modifiers.under, Modifiers.under, List.filterMap_map, List.map_filterMap]
  congr 1
  funext e
  by_cases h : e.1 = path <;> simp [h]

theorem forPath_modifiers (ms : Modifiers) (path : Path) :
    (r.modifiers ms).forPath path = (ms.forPath path).map r.modifier := by
  have hpages := under_map path r.page ms.pages
  have hfilters := under_map path r.filter ms.filters
  have hfacets : (r.modifiers ms).hasFacets path = ms.hasFacets path := rfl
  simp only [Modifiers.forPath, hfacets, List.map_append, List.map_map]
  simp only [modifiers, hpages, hfilters, List.map_map]
  split <;> rfl

theorem clauses_field (ms : Modifiers) (path : Path) (f : Field) :
    f.clauses (r.modifiers ms) path = r.clauses (f.clauses ms path) := by
  have hfacets : (r.modifiers ms).hasFacets path = ms.hasFacets path := rfl
  rw [Field.clauses, Field.clauses, forPath_modifiers, hfacets, ← ofModifiers_modifier,
    List.map_append]
  split <;> rfl

theorem template_clauses (c : Clauses) : (r.clauses c).template = r.template c.template := by
  have hempty : (r.clauses c).args.isEmpty = c.args.isEmpty := List.isEmpty_map
  have hdirectives : (r.clauses c).directives.flatMap (fun d => Piece.text " " :: d) =
      r.template (c.directives.flatMap fun d => .text " " :: d) := by
    rw [template_flatMap, clauses, List.flatMap_map]
    rfl
  rw [Clauses.template, Clauses.template, template_append, hempty, hdirectives]
  split
  · rfl
  · rw [template_cons, template_parenthesized, template_join]
    rfl

theorem template_field (ms : Modifiers) (path : Path) (f : Field) :
    f.template (r.modifiers ms) path = r.template (f.template ms path) := by
  have hsame : (f.clauses (r.modifiers ms) path).head? = (f.clauses ms path).head? := by
    rw [clauses_field]
    rfl
  cases hhead : (f.clauses ms path).head? with
  | none =>
    rw [Field.template_of_no_head hhead, Field.template_of_no_head (hsame.trans hhead),
      clauses_field]
    simp only [template_append, template_cons, template_clauses]
    rfl
  | some head =>
    rw [Field.template_of_head hhead, Field.template_of_head (hsame.trans hhead), clauses_field]
    simp only [template_append, template_cons, template_clauses]
    rfl

theorem template_braced (t : Template) :
    r.template (Selection.braced t) = Selection.braced (r.template t) := by
  simp [Selection.braced]

theorem fields_selection (ms : Modifiers) (parent : Path) (s : Selection) :
    s.fields (r.modifiers ms) parent = r.template (s.fields ms parent) := by
  induction s generalizing parent with
  | nil => rfl
  | cons f children rest ihChildren ihRest =>
    have haggregate : ∀ path, (r.modifiers ms).hasAggregate path = ms.hasAggregate path :=
      fun _ => rfl
    rw [Selection.fields, Selection.fields, template_append, ihRest, template_field, haggregate,
      ihChildren]
    congr 1
    split
    · rfl
    · rw [template_append, template_cons]
      congr 1
      split
      · rw [template_cons, template_braced]
        rfl
      · rfl

/-! ## Queries and batches -/

theorem template_directive (d : Directive) : r.template d.template = d.template := by
  cases d with
  | cascade predicates => simp [Directive.template, template, piece, Function.comp_def]
  | normalize | ignoreReflex | recurse _ _ => rfl

theorem root?_query (q : Query) : (r.query q).root? = q.root?.map r.call := rfl

theorem block_query (q : Query) : (r.query q).block = r.template q.block := by
  have hclauses : Clauses.ofModifiers (r.query q).target
      ((r.query q).modifiers.forPath .root) =
      r.clauses (Clauses.ofModifiers q.target (q.modifiers.forPath .root)) := by
    rw [← ofModifiers_modifier, ← forPath_modifiers]
    rfl
  have hroot : (r.query q).rootTemplate = r.template q.rootTemplate := by
    unfold Query.rootTemplate
    rw [root?_query]
    cases q.root? with
    | none => rfl
    | some c => exact template_call c
  have hselection : (r.query q).selection.template (r.query q).modifiers .root =
      r.template (q.selection.template q.modifiers .root) := by
    rw [Selection.template, Selection.template, template_braced, ← fields_selection]
    rfl
  rw [Query.block, Query.block, hclauses, hroot, hselection]
  simp only [template_append, template_cons, template_flatMap, template_directive]
  simp only [clauses, List.flatMap_map]
  rfl

theorem checkFilters_modifiers (ms : Modifiers) :
    (r.modifiers ms).checkFilters = ms.checkFilters := by
  show (ms.filters.map fun e => (e.1, r.filter e.2)).forM (fun e => e.2.check) = _
  rw [Modifiers.checkFilters]
  induction ms.filters with
  | nil => rfl
  | cons e es ih => rw [List.map_cons, List.forM, List.forM, check_filter, ih]

theorem check_query (q : Query) : (r.query q).check = q.check := by
  have hroot : (r.query q).checkRoot = q.checkRoot := by
    unfold Query.checkRoot
    rw [root?_query]
    cases q.root? with
    | none => rfl
    | some c => exact check_call c
  have hfilters : (r.query q).modifiers.checkFilters = q.modifiers.checkFilters :=
    checkFilters_modifiers q.modifiers
  rw [Query.check, Query.check, Query.checkQuery_eq, Query.checkQuery_eq, hroot, hfilters]
  rfl

theorem verdict_query (q : Query) : (r.query q).verdict = q.verdict := by
  rw [Query.verdict, Query.verdict, check_query, block_query, verdict_template]

theorem body_batch (b : Batch) : (r.batch b).body = r.template b.body := by
  rw [Batch.body, Batch.body, template_join, batch, List.map_map, List.map_map]
  congr 2
  funext q
  show .demand (Batch.checkMember (r.query q)) :: (r.query q).block = _
  rw [block_query, Batch.checkMember, check_query]
  rfl

theorem verdict_batch (b : Batch) : (r.batch b).verdict = b.verdict := by
  have hempty : (r.batch b).queries.isEmpty = b.queries.isEmpty := List.isEmpty_map
  rw [Batch.verdict, Batch.verdict, body_batch, verdict_template, hempty]
  rfl

/-- Interning recoded scalars recodes the parameters. -/
theorem internAll_template (t : Template) :
    Parameters.internAll .empty (r.template t).scalars =
      r.parameters (.internAll .empty t.scalars) := by
  rw [scalars_template]
  exact Parameters.internAll_map (p := .empty)

theorem parameters_query (q : Query) : (r.query q).parameters = r.parameters q.parameters := by
  rw [Query.parameters, block_query, internAll_template]
  rfl

theorem parameters_batch (b : Batch) : (r.batch b).parameters = r.parameters b.parameters := by
  rw [Batch.parameters, body_batch, internAll_template]
  rfl

theorem text_query (q : Query) : (r.query q).text = q.text := by
  rw [Query.text, block_query, parameters_query]
  exact write_template q.block fun s => Parameters.number_map

theorem text_batch (b : Batch) : (r.batch b).text = b.text := by
  rw [Batch.text, body_batch, parameters_batch]
  exact write_template b.body fun s => Parameters.number_map

end Recoding

/-! ## Statements with recoded content -/

/-- `new` is `old`, whose parameters are `p`, with recoded content: the same text and the same
names, where a name that was bound to a string or to an integer is bound to its image. -/
structure Statement.Recoded (r : Recoding) (p : Parameters) (old new : Statement) : Prop where
  kind : new.kind = old.kind
  text : new.text = old.text
  names : new.bindings.map Prod.fst = old.bindings.map Prod.fst
  /-- The parameters account for all bindings. -/
  length : old.bindings.length = p.size
  string : ∀ i text, p.scalars[i]? = some (.string text) →
    (parameterName i, text) ∈ old.bindings ∧ (parameterName i, r.string text) ∈ new.bindings
  int : ∀ i n, p.scalars[i]? = some (.int n) →
    (parameterName i, decimal n) ∈ old.bindings ∧
      (parameterName i, decimal (r.int n)) ∈ new.bindings

/-- Two outcomes that differ in content only: the same error twice, or a statement and the same
statement with recoded content. -/
inductive Statement.RecodedOutcome (r : Recoding) (p : Parameters) :
    Except Error Statement → Except Error Statement → Prop where
  | error (e : Error) : RecodedOutcome r p (.error e) (.error e)
  | ok {old new : Statement} (h : Recoded r p old new) : RecodedOutcome r p (.ok old) (.ok new)

namespace Recoding

variable {r : Recoding}

theorem wrap_parameters (name : String) (p : Parameters) (text : String) :
    Statement.wrap name (r.parameters p) text = Statement.wrap name p text := by
  have hempty : (r.parameters p).isEmpty = p.isEmpty := List.isEmpty_map
  have hdeclarations : (r.parameters p).declarations = p.declarations :=
    Parameters.declarations_map fun s => by cases s <;> rfl
  rw [Statement.wrap, Statement.wrap, hempty, hdeclarations]

/-- Statements of the same text whose bindings are those of parameters and of the recoded ones. -/
theorem recoded_of_bindings {p : Parameters} {old new : Statement} (hkind : new.kind = old.kind)
    (htext : new.text = old.text) (hold : old.bindings = p.bindings)
    (hnew : new.bindings = (r.parameters p).bindings) : Statement.Recoded r p old new := by
  have hmem : ∀ i s, p.scalars[i]? = some s → (parameterName i, s.text) ∈ old.bindings ∧
      (parameterName i, (r.scalar s).text) ∈ new.bindings := by
    intro i s hs
    have hs' : (r.parameters p).scalars[i]? = some (r.scalar s) := by
      rw [parameters, Parameters.scalars_map, List.getElem?_map, hs]
      rfl
    rw [hold, hnew]
    exact ⟨Parameters.mem_bindings_of_getElem? hs, Parameters.mem_bindings_of_getElem? hs'⟩
  exact {
    kind := hkind
    text := htext
    names := by rw [hold, hnew]; exact Parameters.names_bindings_map
    length := by rw [hold]; exact Parameters.length_bindings
    string := fun i text h => hmem i (.string text) h
    int := fun i n h => hmem i (.int n) h }

theorem recoded_query (q : Query) :
    Statement.Recoded r q.parameters q.statement (r.query q).statement := by
  apply recoded_of_bindings
  · rfl
  · rw [Query.statement, Query.statement, text_query, parameters_query]
    show (if q.isStandalone then Statement.wrap q.name _ q.text else q.text) = _
    rw [wrap_parameters]
  · rfl
  · rw [← parameters_query]
    rfl

theorem recoded_batch (b : Batch) :
    Statement.Recoded r b.parameters b.statement (r.batch b).statement := by
  apply recoded_of_bindings
  · rfl
  · rw [Batch.statement, Batch.statement, text_batch, parameters_batch]
    exact wrap_parameters b.name b.parameters b.text
  · rfl
  · rw [← parameters_batch]
    rfl

/-- A verdict that does not change decides between the same error and the recoded statement. -/
theorem recodedOutcome_map {p : Parameters} {old new : Statement} (verdict : Verdict)
    (h : Statement.Recoded r p old new) :
    Statement.RecodedOutcome r p (verdict.map fun _ => old) (verdict.map fun _ => new) := by
  cases verdict with
  | error e => exact .error e
  | ok u => exact .ok h

end Recoding

/-- Strings and integers do not reach the text of a statement: a recoded query or batch is refused
with the same error, or compiled to the same text under the same names, bound to the recoded
content. -/
theorem compile_recoded (r : Recoding) :
    (∀ q : Query, q.operation = .query →
      Statement.RecodedOutcome r q.parameters q.compile (r.query q).compile) ∧
    ∀ b : Batch, Statement.RecodedOutcome r b.parameters b.compile (r.batch b).compile := by
  constructor
  · intro q hq
    rw [Query.compile_eq hq, Query.compile_eq (q := r.query q) hq, Recoding.verdict_query]
    exact Recoding.recodedOutcome_map q.verdict (Recoding.recoded_query q)
  · intro b
    rw [Batch.compile_eq, Batch.compile_eq, Recoding.verdict_batch]
    exact Recoding.recodedOutcome_map b.verdict (Recoding.recoded_batch b)

/-- A recoding that moves every string and every integer. -/
def Recoding.shifted : Recoding where
  string := fun text => "x" ++ text
  int := fun n => n + 1
  string_injective := fun a b h => by simpa using h
  int_injective := fun a b h => by simpa using h

theorem compile_recoded_adults :
    Query.adults.operation = .query ∧
    (∃ st, Query.adults.compile = .ok st ∧ st.bindings = [("$p0", "alice"), ("$p1", "10")]) ∧
    (∃ st, (Recoding.shifted.query .adults).compile = .ok st ∧
      st.bindings = [("$p0", "xalice"), ("$p1", "11")]) ∧
    Statement.RecodedOutcome .shifted Query.adults.parameters Query.adults.compile
      (Recoding.shifted.query .adults).compile :=
  ⟨rfl, ⟨_, Query.compile_adults, rfl⟩, ⟨_, by cbv, rfl⟩,
    (compile_recoded .shifted).1 .adults rfl⟩

end GraphQuery
