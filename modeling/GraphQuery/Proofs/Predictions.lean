import GraphQuery.Proofs.Acceptance

/-!
# What the check of a query predicts

`Query.check` looks at a query without writing it.  A query that it refuses is
refused for the same reason when it is compiled, and a mutation that it
accepts becomes a statement.  The names in a query are looked at only where
they are written, so a query that it accepts may still be refused, but only
for a reason that `Query.ShowsLate` lists.

An error of a template is the error of one of its pieces, so it is enough to
know with which errors each piece can fail (`Template.FailsOnlyWith`).  Calls
and filters demand their check again where they are written.  Behind a
successful check this demand is met, so they fail over names only.
-/

namespace GraphQuery

/-- The error is about a name that is not of its class. -/
inductive Error.IsMisnomer : Error → Prop where
  | identifier (text : String) : IsMisnomer (.invalidIdentifier text)
  | predicate (text : String) : IsMisnomer (.invalidPredicate text)

/-- The error may come up when a query is written that has passed its check. -/
inductive Query.ShowsLate (q : Query) : Error → Prop where
  | misnomer {e : Error} (h : e.IsMisnomer) : ShowsLate q e
  | fieldName : ShowsLate q .missingFieldName
  /-- An aggregate is registered under the path of the root block. -/
  | aggregate {a : Aggregate} (h : (Path.root, a) ∈ q.modifiers.aggregates) :
    ShowsLate q (.invalidArgument
      ("Aggregate modifier cannot be attached to '" ++ q.target.key ++ "'"))
  /-- Facets are asked for under the path of the root block. -/
  | facets (h : Path.root ∈ q.modifiers.facets) :
    ShowsLate q (.invalidArgument
      ("Facets modifier cannot be attached to '" ++ q.target.key ++ "'"))

/-! ## Names -/

section
variable {text : String} {e : Error}

theorem Name.isMisnomer_of_checkIdentifier (h : checkIdentifier text = .error e) :
    e.IsMisnomer := by
  obtain ⟨-, rfl⟩ := Verdict.ofBool_eq_error_iff.mp h
  exact .identifier text

theorem Name.isMisnomer_of_checkPredicate (h : checkPredicate text = .error e) :
    e.IsMisnomer := by
  obtain ⟨-, rfl⟩ := Verdict.ofBool_eq_error_iff.mp h
  exact .predicate text

theorem Name.isMisnomer_of_checkPlain (h : checkPlain text = .error e) : e.IsMisnomer := by
  obtain ⟨-, rfl⟩ := Verdict.ofBool_eq_error_iff.mp h
  exact .predicate text

theorem Value.isMisnomer_of_check {v : Value} (h : v.check = .error e) : e.IsMisnomer := by
  cases v with
  | scalar s => cases h
  | uid text => exact Name.isMisnomer_of_checkIdentifier h
  | predicate name => exact Name.isMisnomer_of_checkPredicate h

end

/-! ## Errors of templates -/

/-- If the piece cannot be written, the error is of the given kind. -/
def Piece.FailsOnlyWith (kind : Error → Prop) (piece : Piece) : Prop :=
  ∀ e, piece.verdict = .error e → kind e

/-- If a piece cannot be written, the error is of the given kind. -/
def Template.FailsOnlyWith (kind : Error → Prop) (t : Template) : Prop :=
  ∀ piece ∈ t, piece.FailsOnlyWith kind

namespace Piece

variable {kind : Error → Prop}

@[simp] theorem failsOnlyWith_text {s : String} : FailsOnlyWith kind (.text s) := by
  intro e he
  cases he

@[simp] theorem failsOnlyWith_demand {check : Verdict} :
    FailsOnlyWith kind (.demand check) ↔ ∀ e, check = .error e → kind e :=
  Iff.rfl

theorem failsOnlyWith_demand_of_ok {check : Verdict} (h : check = .ok ()) :
    FailsOnlyWith kind (.demand check) := by
  intro e he
  cases h.symm.trans he

theorem failsOnlyWith_bare {v : Value} : FailsOnlyWith Error.IsMisnomer (.bare v) :=
  fun _ he => Value.isMisnomer_of_check he

end Piece

namespace Template

variable {kind kind' : Error → Prop} {t u : Template} {piece : Piece} {e : Error}

@[simp] theorem failsOnlyWith_nil : FailsOnlyWith kind [] := fun _ h => absurd h List.not_mem_nil

@[simp] theorem failsOnlyWith_cons :
    FailsOnlyWith kind (piece :: t) ↔ piece.FailsOnlyWith kind ∧ FailsOnlyWith kind t :=
  List.forall_mem_cons

@[simp] theorem failsOnlyWith_append :
    FailsOnlyWith kind (t ++ u) ↔ FailsOnlyWith kind t ∧ FailsOnlyWith kind u :=
  List.forall_mem_append

@[simp] theorem failsOnlyWith_parenthesized :
    t.parenthesized.FailsOnlyWith kind ↔ FailsOnlyWith kind t := by
  simp [parenthesized]

theorem failsOnlyWith_join {between : String} {ts : List Template}
    (h : ∀ t ∈ ts, FailsOnlyWith kind t) : FailsOnlyWith kind (join between ts) := by
  intro piece hpiece
  rcases mem_join hpiece with rfl | ⟨t, ht, hmem⟩
  · exact Piece.failsOnlyWith_text
  · exact h t ht piece hmem

theorem failsOnlyWith_flatMap {α : Type} {xs : List α} {f : α → Template}
    (h : ∀ x ∈ xs, FailsOnlyWith kind (f x)) : FailsOnlyWith kind (xs.flatMap f) := by
  intro piece hpiece
  obtain ⟨x, hx, hmem⟩ := List.mem_flatMap.mp hpiece
  exact h x hx piece hmem

theorem FailsOnlyWith.mono (h : FailsOnlyWith kind t) (hkind : ∀ e, kind e → kind' e) :
    FailsOnlyWith kind' t :=
  fun piece hpiece e he => hkind e (h piece hpiece e he)

/-- The error of a template is the error of one of its pieces. -/
theorem exists_of_verdict (h : t.verdict = .error e) : ∃ piece ∈ t, piece.verdict = .error e := by
  induction t with
  | nil => cases h
  | cons piece t ih =>
    rw [verdict_cons] at h
    cases hpiece : piece.verdict with
    | error e' =>
      rw [hpiece] at h
      obtain rfl := Except.error.inj h
      exact ⟨piece, List.mem_cons_self, hpiece⟩
    | ok u =>
      rw [hpiece] at h
      obtain ⟨other, hother, he⟩ := ih h
      exact ⟨other, List.mem_cons_of_mem piece hother, he⟩

theorem FailsOnlyWith.of_verdict (h : FailsOnlyWith kind t) (he : t.verdict = .error e) :
    kind e := by
  obtain ⟨piece, hpiece, herror⟩ := exists_of_verdict he
  exact h piece hpiece e herror

/-- Whatever the parameters are, a filling fails with an error of the same kind. -/
theorem FailsOnlyWith.of_fill {p : Parameters} (h : FailsOnlyWith kind t)
    (he : (t.fill p).1 = .error e) : kind e := by
  rw [fill_fst] at he
  cases hverdict : t.verdict with
  | error e' =>
    rw [hverdict] at he
    obtain rfl := Except.error.inj he
    exact h.of_verdict hverdict
  | ok u =>
    rw [hverdict] at he
    cases he

end Template

/-! ## Calls and filters that pass their check -/

theorem Call.failsOnlyWith_template {c : Call} (h : c.check = .ok ()) :
    c.template.FailsOnlyWith Error.IsMisnomer := by
  unfold template
  rw [Template.failsOnlyWith_cons, Template.failsOnlyWith_cons,
    Template.failsOnlyWith_parenthesized]
  refine ⟨Piece.failsOnlyWith_demand_of_ok h, Piece.failsOnlyWith_text,
    Template.failsOnlyWith_join ?_⟩
  intro t ht
  obtain ⟨v, -, rfl⟩ := List.mem_map.mp ht
  refine Template.failsOnlyWith_cons.mpr ⟨fun e he => ?_, Template.failsOnlyWith_nil⟩
  rw [verdict_argPiece] at he
  exact Value.isMisnomer_of_check he

namespace Condition

theorem failsOnlyWith_asOperand {c : Condition} {kind : Error → Prop}
    (h : c.template.FailsOnlyWith kind) : c.asOperand.FailsOnlyWith kind := by
  unfold asOperand operandTemplate
  split
  · exact Template.failsOnlyWith_parenthesized.mpr h
  · exact h

theorem failsOnlyWith_operands {cs : List Condition} {between : String} {kind : Error → Prop}
    (h : ∀ c ∈ cs, c.template.FailsOnlyWith kind) :
    Template.FailsOnlyWith kind (Template.join between (cs.map asOperand)) := by
  apply Template.failsOnlyWith_join
  intro t ht
  obtain ⟨c, hc, rfl⟩ := List.mem_map.mp ht
  exact failsOnlyWith_asOperand (h c hc)

/-- The check of a condition reaches all its calls. -/
theorem failsOnlyWith_template {c : Condition} (h : c.check = .ok ()) :
    c.template.FailsOnlyWith Error.IsMisnomer := by
  induction c using Condition.induction with
  | call c => exact Call.failsOnlyWith_template h
  | and cs ih =>
    rw [check_and, checkOperands_eq_ok_iff] at h
    rw [template_and]
    exact failsOnlyWith_operands fun c hc => ih c hc (h.2 c hc)
  | or cs ih =>
    rw [check_or, checkOperands_eq_ok_iff] at h
    rw [template_or]
    exact failsOnlyWith_operands fun c hc => ih c hc (h.2 c hc)
  | not c ih =>
    rw [template_not, Template.failsOnlyWith_cons]
    exact ⟨Piece.failsOnlyWith_text, failsOnlyWith_asOperand (ih h)⟩

end Condition

theorem Filter.failsOnlyWith_template {f : Filter} (h : f.check = .ok ()) :
    Template.FailsOnlyWith Error.IsMisnomer f.template := by
  cases f with
  | none => exact Template.failsOnlyWith_nil
  | some c =>
    unfold template
    rw [Template.failsOnlyWith_cons, Template.failsOnlyWith_cons,
      Template.failsOnlyWith_parenthesized]
    exact ⟨Piece.failsOnlyWith_demand_of_ok h, Piece.failsOnlyWith_text,
      Condition.failsOnlyWith_template h⟩

/-! ## Clauses, fields and directives -/

theorem Page.failsOnlyWith_template (p : Page) :
    Template.FailsOnlyWith Error.IsMisnomer p.template := by
  cases p with
  | first n | offset n | after uid => simp [template, Piece.failsOnlyWith_bare]

theorem OrderBy.failsOnlyWith_template (o : OrderBy) :
    Template.FailsOnlyWith Error.IsMisnomer o.template := by
  obtain ⟨direction, predicate⟩ := o
  cases direction with
  | ascending | descending => simp [template, Piece.failsOnlyWith_bare]

theorem Directive.failsOnlyWith_template (d : Directive) :
    d.template.FailsOnlyWith Error.IsMisnomer := by
  cases d with
  | cascade predicates =>
    unfold template
    rw [Template.failsOnlyWith_append, Template.failsOnlyWith_cons]
    refine ⟨fun piece hpiece => ?_, Piece.failsOnlyWith_text, Template.failsOnlyWith_nil⟩
    obtain ⟨name, -, rfl⟩ := List.mem_map.mp hpiece
    exact fun e he => Name.isMisnomer_of_checkPredicate he
  | normalize | ignoreReflex | recurse depth? allowLoop => simp [template]

namespace Clauses

variable {kind : Error → Prop} {t : Target} {ms : List Modifier}

/-- Clauses fail over names, or over a modifier that makes no sense on their target. -/
structure FailOnlyWith (kind : Error → Prop) (c : Clauses) : Prop where
  demands : c.demands.FailsOnlyWith kind
  args : ∀ u ∈ c.args, u.FailsOnlyWith kind
  directives : ∀ u ∈ c.directives, u.FailsOnlyWith kind

theorem failOnlyWith (hmisnomer : ∀ e : Error, e.IsMisnomer → kind e)
    (htarget : ∀ m ∈ ms, ∀ e, m.checkTarget t = .error e → kind e)
    (hfilters : ∀ f, Modifier.filter f ∈ ms → Filter.check f = .ok ()) :
    (ofModifiers t ms).FailOnlyWith kind where
  demands := by
    rw [ofModifiers_eq]
    apply Template.failsOnlyWith_flatMap
    intro m hm
    cases m with
    | aggregate a =>
      simp only [Modifier.demands, Template.failsOnlyWith_cons, Piece.failsOnlyWith_demand]
      refine ⟨htarget _ (Modifier.mem_arrange.mp hm), fun e he => ?_, Template.failsOnlyWith_nil⟩
      exact hmisnomer e (Name.isMisnomer_of_checkPredicate he)
    | page p | order o | filter f | facets => exact Template.failsOnlyWith_nil
  args := by
    intro u hu
    rcases mem_args.mp hu with ⟨p, -, rfl⟩ | ⟨o, -, rfl⟩
    · exact (Page.failsOnlyWith_template p).mono hmisnomer
    · exact (OrderBy.failsOnlyWith_template o).mono hmisnomer
  directives := by
    intro u hu
    rcases mem_directives.mp hu with ⟨c, hc, rfl⟩ | ⟨hfacets, rfl⟩
    · exact (Filter.failsOnlyWith_template (hfilters _ hc)).mono hmisnomer
    · simp only [Template.failsOnlyWith_cons, Piece.failsOnlyWith_demand]
      exact ⟨htarget _ hfacets, Piece.failsOnlyWith_text, Template.failsOnlyWith_nil⟩

theorem FailOnlyWith.template {c : Clauses} (h : c.FailOnlyWith kind) :
    c.template.FailsOnlyWith kind := by
  unfold Clauses.template
  rw [Template.failsOnlyWith_append]
  constructor
  · split
    · exact Template.failsOnlyWith_nil
    · simpa using Template.failsOnlyWith_join h.args
  · apply Template.failsOnlyWith_flatMap
    intro u hu
    exact Template.failsOnlyWith_cons.mpr ⟨Piece.failsOnlyWith_text, h.directives u hu⟩

end Clauses

/-! ## Blocks of queries whose filters pass their check -/

section
variable {q : Query}
  (hfilters : ∀ path f, (path, f) ∈ q.modifiers.filters → Filter.check f = .ok ())
include hfilters

/-- Every modifier makes sense on a field. -/
theorem Field.failOnlyWith_clauses {f : Field} {path : Path} :
    (f.clauses q.modifiers path).FailOnlyWith q.ShowsLate := by
  rw [clauses_eq]
  refine Clauses.failOnlyWith (fun e => .misnomer) (fun m _ e he => ?_) fun g hg => ?_
  · obtain ⟨hrefused, -⟩ := Verdict.ofBool_eq_error_iff.mp he
    cases m <;> cases hrefused
  · exact hfilters path g
      (Modifiers.filter_mem_forPath.mp ((mem_modifiers Modifier.noConfusion).mp hg))

theorem Field.failsOnlyWith_template {f : Field} {path : Path} :
    (f.template q.modifiers path).FailsOnlyWith q.ShowsLate := by
  have hclauses : (f.clauses q.modifiers path).FailOnlyWith q.ShowsLate :=
    failOnlyWith_clauses hfilters
  have hname : ∀ e, f.checkName = .error e → q.ShowsLate e := by
    intro e he
    unfold checkName at he
    by_cases hempty : f.name = ""
    · rw [hempty] at he
      obtain rfl := Except.error.inj he
      exact .fieldName
    · have hnonempty : (f.name != "") = true := by simpa using hempty
      rw [hnonempty] at he
      exact .misnomer (Name.isMisnomer_of_checkPredicate he)
  have halias : ∀ e, f.checkAlias = .error e → q.ShowsLate e := by
    intro e he
    unfold checkAlias at he
    split at he
    · cases he
    · exact .misnomer (Name.isMisnomer_of_checkPlain he)
  cases hhead : (f.clauses q.modifiers path).head? with
  | some head =>
    rw [template_of_head hhead]
    simpa [hclauses.demands, hclauses.template] using hname
  | none =>
    rw [template_of_no_head hhead]
    simpa [hclauses.demands, hclauses.template] using And.intro hname halias

theorem Selection.failsOnlyWith_fields {s : Selection} {path : Path} :
    (s.fields q.modifiers path).FailsOnlyWith q.ShowsLate := by
  induction s generalizing path with
  | nil => exact Template.failsOnlyWith_nil
  | cons f children rest ihchildren ihrest =>
    rw [fields, Template.failsOnlyWith_append]
    refine ⟨?_, ihrest⟩
    split
    · exact Template.failsOnlyWith_nil
    · rw [Template.failsOnlyWith_append, Template.failsOnlyWith_cons]
      refine ⟨⟨Piece.failsOnlyWith_text, Field.failsOnlyWith_template hfilters⟩, ?_⟩
      split
      · simpa [braced] using ihchildren
      · exact Template.failsOnlyWith_nil

namespace Query

/-- The root block refuses aggregates and facets. -/
theorem failOnlyWith_clauses : q.clauses.FailOnlyWith q.ShowsLate := by
  refine Clauses.failOnlyWith (fun e => .misnomer) (fun m hm e he => ?_) fun g hg =>
    hfilters .root g (Modifiers.filter_mem_forPath.mp hg)
  obtain ⟨hrefused, rfl⟩ := Verdict.ofBool_eq_error_iff.mp he
  cases m with
  | aggregate a => exact .aggregate (Modifiers.aggregate_mem_forPath.mp hm)
  | facets => exact .facets (List.contains_iff_mem.mp (Modifiers.facets_mem_forPath.mp hm))
  | page p | order o | filter f => cases hrefused

theorem failsOnlyWith_block {c : Call} (hroot : q.root? = some c) (hc : c.check = .ok ()) :
    q.block.FailsOnlyWith q.ShowsLate := by
  have hclauses := failOnlyWith_clauses hfilters
  have hcall : q.rootTemplate.FailsOnlyWith q.ShowsLate := by
    rw [rootTemplate, hroot]
    exact (Call.failsOnlyWith_template hc).mono fun e => .misnomer
  have hargs : Template.FailsOnlyWith q.ShowsLate
      (q.clauses.args.flatMap fun a => .text ", " :: a) :=
    Template.failsOnlyWith_flatMap fun u hu => by simpa using hclauses.args u hu
  have hdirectives : Template.FailsOnlyWith q.ShowsLate
      (q.clauses.directives.flatMap fun d => .text " " :: d) :=
    Template.failsOnlyWith_flatMap fun u hu => by simpa using hclauses.directives u hu
  have hown : Template.FailsOnlyWith q.ShowsLate
      (q.directives.flatMap fun d => .text " " :: d.template) := by
    refine Template.failsOnlyWith_flatMap fun d _ => ?_
    simpa using (Directive.failsOnlyWith_template d).mono fun e => ShowsLate.misnomer
  have hselection : (q.selection.template q.modifiers .root).FailsOnlyWith q.ShowsLate := by
    simpa [Selection.template, Selection.braced] using Selection.failsOnlyWith_fields hfilters
  rw [block_eq]
  simp [hcall, hclauses.demands, hargs, hdirectives, hown, hselection]

end Query

end

/-! ## The result -/

namespace Query

variable {q : Query}

theorem checkFilters_of_check (hq : q.operation = .query) (h : q.check = .ok ()) :
    ∀ path f, (path, f) ∈ q.modifiers.filters → Filter.check f = .ok () :=
  Modifiers.checkFilters_eq_ok_iff.mp ((check_eq_ok_iff hq).mp h).2.2.2

theorem exists_root_of_check (hq : q.operation = .query) (h : q.check = .ok ()) :
    ∃ c, q.root? = some c ∧ c.check = .ok () := by
  obtain ⟨-, -, hroot, -⟩ := (check_eq_ok_iff hq).mp h
  unfold checkRoot at hroot
  split at hroot
  · cases hroot
  · exact ⟨_, ‹_›, hroot⟩

theorem compile_of_check_error {e : Error} (h : q.check = .error e) : q.compile = .error e := by
  rw [compile, h]
  rfl

/-- A mutation that passes its check has payloads to write. -/
theorem exists_compile_of_check (hq : q.operation = .mutation) (h : q.check = .ok ()) :
    ∃ st, q.compile = .ok st := by
  have hcompile : q.compile = q.mutationStatement := by
    rw [compile, h, hq]
    rfl
  rw [check] at h
  split at h
  · cases h
  · rw [hq] at h
    cases hpayloads : q.payloads with
    | nil =>
      rw [checkMutation, hpayloads] at h
      cases h
    | cons first rest =>
      refine ⟨⟨first.kind.statementKind, q.payloadText, []⟩, ?_⟩
      rw [hcompile, mutationStatement, mutationKind?, hpayloads]
      rfl

theorem compile_of_check_query (hq : q.operation = .query) (h : q.check = .ok ()) :
    (∃ st, q.compile = .ok st) ∨ ∃ e, q.compile = .error e ∧ q.ShowsLate e := by
  obtain ⟨c, hroot, hc⟩ := exists_root_of_check hq h
  have hblock : q.block.FailsOnlyWith q.ShowsLate :=
    failsOnlyWith_block (checkFilters_of_check hq h) hroot hc
  rw [compile_eq hq, verdict, h]
  cases hverdict : q.block.verdict with
  | ok u => exact Or.inl ⟨q.statement, rfl⟩
  | error e => exact Or.inr ⟨e, rfl, hblock.of_verdict hverdict⟩

/-- What the check of a query says about its compilation. -/
structure IsPredicted (q : Query) : Prop where
  /-- An error of the check is the error of the compilation. -/
  refused : ∀ e, q.check = .error e → q.compile = .error e
  mutation : q.operation = .mutation → q.check = .ok () → ∃ st, q.compile = .ok st
  query : q.operation = .query → q.check = .ok () →
    (∃ st, q.compile = .ok st) ∨ ∃ e, q.compile = .error e ∧ q.ShowsLate e
  /-- There is a root function, which can be written from any parameters but for its names. -/
  root : q.operation = .query → q.check = .ok () →
    ∃ c, q.root? = some c ∧ ∀ p e, (c.template.fill p).1 = .error e → e.IsMisnomer
  /-- A filter under any path can be written from any parameters but for its names. -/
  filters : q.operation = .query → q.check = .ok () → ∀ path f, (path, f) ∈ q.modifiers.filters →
    ∀ p e, (Template.fill p (Filter.template f)).1 = .error e → e.IsMisnomer

/-- The check of a query predicts its compilation. -/
theorem check_predicts (q : Query) : q.IsPredicted where
  refused := fun _ h => compile_of_check_error h
  mutation := exists_compile_of_check
  query := compile_of_check_query
  root := by
    intro hq h
    obtain ⟨c, hroot, hc⟩ := exists_root_of_check hq h
    exact ⟨c, hroot, fun p e he => (Call.failsOnlyWith_template hc).of_fill he⟩
  filters := by
    intro hq h path f hf p e he
    exact (Filter.failsOnlyWith_template (checkFilters_of_check hq h path f hf)).of_fill he

/-- A query for the facets of its root block passes its check and cannot be written. -/
example : let q := build .empty [.root (.has "name"), .modify .root .facets]
    q.check = .ok () ∧
      q.compile = .error (.invalidArgument "Facets modifier cannot be attached to 'q'") := by
  decide

end Query

end GraphQuery
