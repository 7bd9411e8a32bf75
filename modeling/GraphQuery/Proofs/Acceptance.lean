import GraphQuery.Proofs.Blocks

/-!
# Which queries compile

What makes a query unusable is spread over its check, the demands among its
clauses and the names that are written into its block.  `Query.Acceptable`
collects it in one place, and `compile_iff_acceptable` says that these are the
queries that compile.

Not all of a query is looked at.  The filters that are registered under any
path pass their check, but apart from that only the fields that are `Rendered`
count: a selector is left out with all that is below it, and so is whatever
stands below an aggregated field.
-/

namespace GraphQuery

/-! ## Queries as they are built -/

/-- The query comes from building steps. -/
inductive Query.Built : Query → Prop where
  | empty : Built .empty
  | emptyMutation : Built .emptyMutation
  | apply {q : Query} (s : Query.Step) (h : Built q) : Built (q.apply s)

/-- Only mutations have payloads that could not be encoded. -/
theorem Query.Built.encodingError?_eq_none {q : Query} (h : q.Built)
    (hq : q.operation = .query) : q.encodingError? = none := by
  induction h with
  | empty => rfl
  | emptyMutation => cases hq
  | apply s _ ih =>
    cases s with
    | mutate kind payload => cases payload <;> cases hq
    | name name | root c | select fields | modify path m | direct d | standalone isStandalone =>
      exact ih hq

theorem Query.Built.build {q : Query} (h : q.Built) (steps : List Query.Step) :
    (q.build steps).Built := by
  induction steps generalizing q with
  | nil => exact h
  | cons s steps ih => exact ih (.apply s h)

/-! ## Rendered fields -/

/-- The field, whose path is `path`, is written with the selection below `parent`. -/
inductive Selection.Rendered (ms : Modifiers) : Path → Selection → Path → Field → Prop where
  /-- A field is written unless it is the selector. -/
  | here {parent : Path} {f : Field} {children rest : Selection} (h : f.isSelector = false) :
    Rendered ms parent (.cons f children rest) (parent.child f.name) f
  /-- With a field that is not aggregated, the fields below it are written. -/
  | beneath {parent path : Path} {f g : Field} {children rest : Selection}
    (h : f.isSelector = false) (hagg : ms.hasAggregate (parent.child f.name) = false)
    (hg : Rendered ms (parent.child f.name) children path g) :
    Rendered ms parent (.cons f children rest) path g
  /-- The fields behind a field are written in any case. -/
  | behind {parent path : Path} {f g : Field} {children rest : Selection}
    (hg : Rendered ms parent rest path g) : Rendered ms parent (.cons f children rest) path g

/-- A selection can be written when its rendered fields can. -/
theorem Selection.verdict_fields_iff {ms : Modifiers} {parent : Path} {s : Selection} :
    (s.fields ms parent).verdict = .ok () ↔
      ∀ path f, Rendered ms parent s path f → (f.template ms path).verdict = .ok () := by
  induction s generalizing parent with
  | nil =>
    constructor
    · intro _ path f hf
      cases hf
    · intro _
      rfl
  | cons f children rest ihchildren ihrest =>
    rw [verdict_fields_cons, ihchildren, ihrest]
    constructor
    · intro hall path g hg
      obtain ⟨hfield, hrest⟩ := hall
      cases hg with
      | here h => exact (hfield h).1
      | beneath h hagg hg => exact (hfield h).2 hagg path g hg
      | behind hg => exact hrest path g hg
    · intro h
      refine ⟨fun hselector => ⟨h _ _ (.here hselector), fun hagg path g hg => ?_⟩,
        fun path g hg => h path g (.behind hg)⟩
      exact h path g (.beneath hselector hagg hg)

/-! ## Acceptable fields and queries -/

/-- The windows, orders and filters under a path can be written. -/
structure Modifiers.WellFormedAt (ms : Modifiers) (path : Path) : Prop where
  cursors : ∀ uid, (path, Page.after uid) ∈ ms.pages → Name.checkIdentifier uid = .ok ()
  orders : ∀ o, (path, o) ∈ ms.orders → Name.checkPredicate o.predicate = .ok ()
  filters : ∀ f, (path, f) ∈ ms.filters → f.WellFormed

/-- The field has a usable name, alias or key, and its modifiers can be written. The alias of an
aggregated field is not looked at, but the key that the aggregate gives it. -/
structure Field.Acceptable (ms : Modifiers) (path : Path) (f : Field) : Prop where
  name_ne : f.name ≠ ""
  name : Name.checkPredicate f.name = .ok ()
  aliasName : ms.hasAggregate path = false → ∀ a, f.alias? = some a → Name.checkPlain a = .ok ()
  keys : ∀ a, (path, a) ∈ ms.aggregates → Name.checkPredicate (a.key f.target) = .ok ()
  modifiers : ms.WellFormedAt path

/-- Nothing about the query keeps it from being compiled. -/
structure Query.Acceptable (q : Query) : Prop where
  name : Name.checkPlain q.name = .ok ()
  root : ∃ c, q.root? = some c ∧ c.WellFormed
  /-- Filters are checked under every path, also where nothing is written. -/
  filters : ∀ path f, (path, f) ∈ q.modifiers.filters → Filter.check f = .ok ()
  aggregates : ∀ a, (Path.root, a) ∉ q.modifiers.aggregates
  facets : Path.root ∉ q.modifiers.facets
  modifiers : q.modifiers.WellFormedAt .root
  cascades : ∀ predicates, Directive.cascade predicates ∈ q.directives →
    ∀ name ∈ predicates, Name.checkPredicate name = .ok ()
  fields : ∀ path f, Selection.Rendered q.modifiers .root q.selection path f →
    f.Acceptable q.modifiers path

/-- The arguments and the filters among the directives can be written when the modifiers can. -/
theorem Modifiers.wellFormedAt_iff {ms : Modifiers} {path : Path} : ms.WellFormedAt path ↔
    (∀ p, (path, p) ∈ ms.pages → Template.verdict p.template = .ok ()) ∧
      (∀ o, (path, o) ∈ ms.orders → Template.verdict o.template = .ok ()) ∧
      ∀ f, (path, f) ∈ ms.filters → Template.verdict (Filter.template f) = .ok () := by
  simp only [Page.verdict_template, OrderBy.verdict_template, Filter.verdict_template]
  constructor
  · intro h
    refine ⟨?_, h.orders, h.filters⟩
    intro p hp uid heq
    obtain rfl := heq
    exact h.cursors uid hp
  · intro hall
    obtain ⟨hpages, horders, hfilters⟩ := hall
    exact ⟨fun uid hp => hpages _ hp uid rfl, horders, hfilters⟩

/-- Apart from facets, the clauses of a target depend on the modifiers under its path. -/
theorem Clauses.verdict_iff_wellFormedAt {t : Target} {own : List Modifier} {ms : Modifiers}
    {path : Path} (hown : ∀ m, m ≠ .facets → (m ∈ own ↔ m ∈ ms.forPath path)) :
    (ofModifiers t own).template.verdict = .ok () ↔
      ms.WellFormedAt path ∧ (Modifier.facets ∈ own → t.source = .field) := by
  have hpage (p : Page) : Modifier.page p ∈ own ↔ (path, p) ∈ ms.pages :=
    (hown _ Modifier.noConfusion).trans Modifiers.page_mem_forPath
  have horder (o : OrderBy) : Modifier.order o ∈ own ↔ (path, o) ∈ ms.orders :=
    (hown _ Modifier.noConfusion).trans Modifiers.order_mem_forPath
  have hfilter (f : Filter) : Modifier.filter f ∈ own ↔ (path, f) ∈ ms.filters :=
    (hown _ Modifier.noConfusion).trans Modifiers.filter_mem_forPath
  rw [verdict_template, verdict_args, verdict_directives, Modifiers.wellFormedAt_iff]
  simp only [hpage, horder, hfilter, and_assoc]

theorem Field.checkName_eq_ok_iff {f : Field} :
    f.checkName = .ok () ↔ f.name ≠ "" ∧ Name.checkPredicate f.name = .ok () := by
  simp [checkName]

theorem Field.checkAlias_eq_ok_iff {f : Field} :
    f.checkAlias = .ok () ↔ ∀ a, f.alias? = some a → Name.checkPlain a = .ok () := by
  unfold checkAlias
  cases f.alias? with
  | none => simp
  | some a => simp

/-- The acceptable fields are those that can be written. -/
theorem Field.acceptable_iff {ms : Modifiers} {path : Path} {f : Field} :
    f.Acceptable ms path ↔ (f.template ms path).verdict = .ok () := by
  have hown (m : Modifier) (h : m ≠ .facets) : m ∈ f.modifiers ms path ↔ m ∈ ms.forPath path :=
    mem_modifiers h
  have hkeys (a : Aggregate) : Modifier.aggregate a ∈ f.modifiers ms path ↔
      (path, a) ∈ ms.aggregates :=
    (hown _ Modifier.noConfusion).trans Modifiers.aggregate_mem_forPath
  rw [verdict_template, checkName_eq_ok_iff, checkAlias_eq_ok_iff, clauses_eq,
    Clauses.verdict_demands, Clauses.verdict_iff_wellFormedAt hown]
  simp only [hkeys]
  constructor
  · intro h
    exact ⟨⟨h.name_ne, h.name⟩, fun a ha => ⟨rfl, h.keys a ha⟩, ⟨h.modifiers, fun _ => rfl⟩,
      h.aliasName⟩
  · intro hall
    obtain ⟨⟨hne, hname⟩, hkey, ⟨hmodifiers, -⟩, halias⟩ := hall
    exact ⟨hne, hname, halias, fun a ha => (hkey a ha).2, hmodifiers⟩

theorem Modifiers.checkFilters_eq_ok_iff {ms : Modifiers} : ms.checkFilters = .ok () ↔
    ∀ path f, (path, f) ∈ ms.filters → Filter.check f = .ok () := by
  unfold checkFilters
  induction ms.filters with
  | nil => simp [List.forM, pure, Except.pure]
  | cons e es ih =>
    obtain ⟨path, f⟩ := e
    rw [List.forM, Verdict.bind_eq_ok_iff, ih]
    simp [or_imp, forall_and]

namespace Query

variable {q : Query}

theorem verdict_rootTemplate :
    q.rootTemplate.verdict = .ok () ↔ ∃ c, q.root? = some c ∧ c.WellFormed := by
  unfold rootTemplate
  cases q.root? with
  | none => simp
  | some c => simp [Call.wellFormed_iff]

theorem checkRoot_of_wellFormed {c : Call} (hroot : q.root? = some c) (hc : c.WellFormed) :
    q.checkRoot = .ok () := by
  unfold checkRoot
  rw [hroot]
  exact hc.check

/-- The acceptable queries are those that pass their check and whose block can be written. -/
theorem acceptable_iff (hq : q.operation = .query) (herror : q.encodingError? = none) :
    q.Acceptable ↔ q.check = .ok () ∧ q.block.verdict = .ok () := by
  have hown (m : Modifier) (_ : m ≠ .facets) :
      m ∈ q.modifiers.forPath .root ↔ m ∈ q.modifiers.forPath .root := Iff.rfl
  rw [check_eq_ok_iff hq, Modifiers.checkFilters_eq_ok_iff, verdict_block, verdict_rootTemplate,
    clauses, Clauses.verdict_demands, Clauses.verdict_iff_wellFormedAt hown,
    Selection.verdict_fields_iff]
  simp only [Directive.verdict_template, ← Field.acceptable_iff, Modifiers.aggregate_mem_forPath,
    Modifiers.facets_mem_forPath, target]
  constructor
  · intro h
    obtain ⟨c, hroot, hc⟩ := h.root
    refine ⟨⟨herror, h.name, checkRoot_of_wellFormed hroot hc, h.filters⟩, h.root,
      fun a ha => absurd ha (h.aggregates a), ⟨h.modifiers, ?_⟩, ?_, h.fields⟩
    · intro hfacets
      exact absurd (List.contains_iff_mem.mp hfacets) h.facets
    · intro d hd predicates heq
      obtain rfl := heq
      exact h.cascades predicates hd
  · intro hall
    obtain ⟨⟨-, hname, -, hfilters⟩, hroot, haggregates, ⟨hmodifiers, hfacets⟩, hcascades,
      hfields⟩ := hall
    refine ⟨hname, hroot, hfilters, ?_, ?_, hmodifiers, ?_, hfields⟩
    · intro a ha
      cases (haggregates a ha).1
    · intro hmem
      cases hfacets (List.contains_iff_mem.mpr hmem)
    · intro predicates hd
      exact hcascades _ hd predicates rfl

end Query

/-- A query compiles exactly when it is acceptable. -/
theorem compile_iff_acceptable {q : Query} (h : q.Built) (hq : q.operation = .query) :
    (∃ st, q.compile = .ok st) ↔ q.Acceptable := by
  rw [Query.exists_compile_iff hq, Query.acceptable_iff hq (h.encodingError?_eq_none hq)]

/-- The query `adults` is acceptable, since it compiles. -/
theorem acceptable_adults : Query.adults.Acceptable :=
  (compile_iff_acceptable (Query.Built.build .empty _) rfl).mp ⟨_, Query.compile_adults⟩

end GraphQuery
