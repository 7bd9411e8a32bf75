import GraphQuery.Proofs.Filling
import GraphQuery.Selection

/-!
# What the clauses of a target consist of

`Clauses.ofModifiers` arranges the modifiers of a target group by group and
folds them into clauses.  Each modifier gives at most one part of a kind: an
argument, a directive, a head or some demands.  `ofModifiers_eq` says that the
clauses are these parts of the arranged modifiers, kind by kind; of several
heads the last one counts.

The lemmas behind it read the parts off the modifiers, whatever their order:
the templates among the arguments (`mem_args`) and the directives
(`mem_directives`), the demands (`verdict_demands`) and the head
(`head?_eq_some`, `head?_eq_none_iff`).  The last section says which modifiers
are registered under a path and which a field has.
-/

namespace GraphQuery

namespace Modifier

/-- The argument that a modifier adds to its target. -/
def argument? : Modifier → Option Template
  | page p => some p.template
  | order o => some o.template
  | _ => none

/-- The directive that a modifier adds to its target. -/
def directive? (t : Target) : Modifier → Option Template
  | filter (some c) => some (Filter.template (some c))
  | facets => some [.demand (facets.checkTarget t), .text "@facets"]
  | _ => none

/-- The name that a modifier gives to its target. -/
def head? (t : Target) : Modifier → Option String
  | aggregate a => some (a.head t)
  | _ => none

/-- What a modifier asks of its target before anything is written. -/
def demands (t : Target) : Modifier → Template
  | aggregate a =>
    [.demand ((aggregate a).checkTarget t), .demand (Name.checkPredicate (a.key t))]
  | _ => []

/-- Arranging modifiers loses none and adds none. -/
theorem mem_arrange {m : Modifier} {ms : List Modifier} : m ∈ arrange ms ↔ m ∈ ms := by
  rw [arrange, List.mem_flatMap]
  constructor
  · intro hall
    obtain ⟨g, -, hm⟩ := hall
    exact (List.mem_filter.mp hm).1
  · intro hm
    refine ⟨m.group, ?_, List.mem_filter.mpr ⟨hm, by simp⟩⟩
    cases m.group <;> decide

/-- An aggregate asks for a field, and for a well-formed key of its own. -/
theorem verdict_demands {t : Target} {m : Modifier} : (m.demands t).verdict = .ok () ↔
    ∀ a, m = .aggregate a → t.source = .field ∧ Name.checkPredicate (a.key t) = .ok () := by
  cases m with
  | aggregate a => simp [demands, checkTarget, canApplyTo]
  | page p | order o | filter f | facets => simp [demands]

end Modifier

namespace Clauses

variable {t : Target} {ms : List Modifier} {u : Template}

theorem foldr_cons_empty : ms.foldr (cons t) empty =
    { demands := ms.flatMap (Modifier.demands t)
      head? := (ms.filterMap (Modifier.head? t)).getLast?
      args := ms.filterMap Modifier.argument?
      directives := ms.filterMap (Modifier.directive? t) } := by
  induction ms with
  | nil => rfl
  | cons m ms ih =>
    rw [List.foldr_cons, ih]
    cases m with
    | aggregate a =>
      simp [cons, Modifier.demands, Modifier.head?, Modifier.argument?, Modifier.directive?,
        List.filterMap_cons, List.getLast?_cons]
    | filter f => cases f <;> rfl
    | page p | order o | facets => rfl

/-- The clauses are the parts of the arranged modifiers, kind by kind. -/
theorem ofModifiers_eq : ofModifiers t ms =
    { demands := (Modifier.arrange ms).flatMap (Modifier.demands t)
      head? := ((Modifier.arrange ms).filterMap (Modifier.head? t)).getLast?
      args := (Modifier.arrange ms).filterMap Modifier.argument?
      directives := (Modifier.arrange ms).filterMap (Modifier.directive? t) } :=
  foldr_cons_empty

/-- The arguments are those of the windows and orders. -/
theorem mem_args : u ∈ (ofModifiers t ms).args ↔
    (∃ p, Modifier.page p ∈ ms ∧ u = p.template) ∨
      ∃ o, Modifier.order o ∈ ms ∧ u = o.template := by
  rw [ofModifiers_eq, List.mem_filterMap]
  simp only [Modifier.mem_arrange]
  constructor
  · intro hall
    obtain ⟨m, hm, hu⟩ := hall
    cases m with
    | page p => exact Or.inl ⟨p, hm, (Option.some.inj hu).symm⟩
    | order o => exact Or.inr ⟨o, hm, (Option.some.inj hu).symm⟩
    | aggregate a | filter f | facets => cases hu
  · intro hor
    rcases hor with ⟨p, hp, rfl⟩ | ⟨o, ho, rfl⟩
    · exact ⟨_, hp, rfl⟩
    · exact ⟨_, ho, rfl⟩

/-- The directives are those of the filters that hold something back, and the request for
facets. -/
theorem mem_directives : u ∈ (ofModifiers t ms).directives ↔
    (∃ c, Modifier.filter (some c) ∈ ms ∧ u = Filter.template (some c)) ∨
      Modifier.facets ∈ ms ∧ u = [.demand (Modifier.facets.checkTarget t), .text "@facets"] := by
  rw [ofModifiers_eq, List.mem_filterMap]
  simp only [Modifier.mem_arrange]
  constructor
  · intro hall
    obtain ⟨m, hm, hu⟩ := hall
    cases m with
    | filter f =>
      cases f with
      | none => cases hu
      | some c => exact Or.inl ⟨c, hm, (Option.some.inj hu).symm⟩
    | facets => exact Or.inr ⟨hm, (Option.some.inj hu).symm⟩
    | aggregate a | page p | order o => cases hu
  · intro hor
    rcases hor with ⟨c, hc, rfl⟩ | ⟨hfacets, rfl⟩
    · exact ⟨_, hc, rfl⟩
    · exact ⟨_, hfacets, rfl⟩

/-- The demands are those of the aggregates. -/
theorem verdict_demands : (ofModifiers t ms).demands.verdict = .ok () ↔
    ∀ a, Modifier.aggregate a ∈ ms →
      t.source = .field ∧ Name.checkPredicate (a.key t) = .ok () := by
  rw [ofModifiers_eq, Template.verdict_flatMap_eq_ok_iff]
  simp only [Modifier.mem_arrange, Modifier.verdict_demands]
  constructor
  · intro h a ha
    exact h _ ha a rfl
  · intro h m hm a heq
    obtain rfl := heq
    exact h a hm

/-- The demands are conditions and nothing else. -/
theorem mem_demands {piece : Piece} (h : piece ∈ (ofModifiers t ms).demands) :
    ∃ check, piece = .demand check := by
  rw [ofModifiers_eq] at h
  obtain ⟨m, -, hpiece⟩ := List.mem_flatMap.mp h
  cases m with
  | aggregate a =>
    simp only [Modifier.demands, List.mem_cons, List.not_mem_nil, or_false] at hpiece
    rcases hpiece with rfl | rfl
    · exact ⟨_, rfl⟩
    · exact ⟨_, rfl⟩
  | page p | order o | filter f | facets => cases hpiece

/-- The head comes from an aggregate. -/
theorem head?_eq_some {head : String} (h : (ofModifiers t ms).head? = some head) :
    ∃ a, Modifier.aggregate a ∈ ms ∧ head = a.head t := by
  rw [ofModifiers_eq] at h
  obtain ⟨m, hm, hhead⟩ := List.mem_filterMap.mp (List.mem_of_getLast? h)
  cases m with
  | aggregate a => exact ⟨a, Modifier.mem_arrange.mp hm, (Option.some.inj hhead).symm⟩
  | page p | order o | filter f | facets => cases hhead

/-- There is no head exactly when there is no aggregate. -/
theorem head?_eq_none_iff :
    (ofModifiers t ms).head? = none ↔ ∀ a, Modifier.aggregate a ∉ ms := by
  rw [ofModifiers_eq]
  simp only [List.getLast?_eq_none_iff, List.filterMap_eq_nil_iff, Modifier.mem_arrange]
  constructor
  · intro h a ha
    cases h _ ha
  · intro h m hm
    cases m with
    | aggregate a => exact absurd hm (h a)
    | page p | order o | filter f | facets => rfl

/-- Clauses can be written when all their arguments and directives can. -/
theorem verdict_template {c : Clauses} : c.template.verdict = .ok () ↔
    (∀ u ∈ c.args, u.verdict = .ok ()) ∧ ∀ u ∈ c.directives, u.verdict = .ok () := by
  rw [template, Template.verdict_append_eq_ok_iff, Template.verdict_flatMap_eq_ok_iff]
  simp only [Template.verdict_text_cons]
  refine and_congr_left fun _ => ?_
  cases hargs : c.args with
  | nil => simp
  | cons u us => simp

/-- Facets belong to fields. -/
theorem verdict_of_facets {t : Target} :
    Template.verdict [.demand (Modifier.facets.checkTarget t), .text "@facets"] = .ok () ↔
      t.source = .field := by
  simp [Modifier.checkTarget, Modifier.canApplyTo]

/-- The arguments can be written when those of the windows and orders can. -/
theorem verdict_args : (∀ u ∈ (ofModifiers t ms).args, u.verdict = .ok ()) ↔
    (∀ p, Modifier.page p ∈ ms → Template.verdict p.template = .ok ()) ∧
      ∀ o, Modifier.order o ∈ ms → Template.verdict o.template = .ok () := by
  constructor
  · intro h
    exact ⟨fun p hp => h _ (mem_args.mpr (Or.inl ⟨p, hp, rfl⟩)),
      fun o ho => h _ (mem_args.mpr (Or.inr ⟨o, ho, rfl⟩))⟩
  · intro hall u hu
    obtain ⟨hpages, horders⟩ := hall
    rcases mem_args.mp hu with ⟨p, hp, rfl⟩ | ⟨o, ho, rfl⟩
    · exact hpages p hp
    · exact horders o ho

/-- The directives can be written when the filters can, and facets have a place. -/
theorem verdict_directives : (∀ u ∈ (ofModifiers t ms).directives, u.verdict = .ok ()) ↔
    (∀ f, Modifier.filter f ∈ ms → Template.verdict f.template = .ok ()) ∧
      (Modifier.facets ∈ ms → t.source = .field) := by
  constructor
  · intro h
    refine ⟨fun f hf => ?_, fun hfacets => ?_⟩
    · cases f with
      | none => rfl
      | some c => exact h _ (mem_directives.mpr (Or.inl ⟨c, hf, rfl⟩))
    · exact verdict_of_facets.mp (h _ (mem_directives.mpr (Or.inr ⟨hfacets, rfl⟩)))
  · intro hall u hu
    obtain ⟨hfilters, hfacets⟩ := hall
    rcases mem_directives.mp hu with ⟨c, hc, rfl⟩ | ⟨hmem, rfl⟩
    · exact hfilters _ hc
    · exact verdict_of_facets.mpr (hfacets hmem)

end Clauses

/-- A window can be written when the node that it starts from is well formed. -/
theorem Page.verdict_template {p : Page} : Template.verdict p.template = .ok () ↔
    ∀ uid, p = .after uid → Name.checkIdentifier uid = .ok () := by
  cases p with
  | first n | offset n | after uid => simp [template, Value.check]

/-- An order can be written when its predicate is well formed. -/
theorem OrderBy.verdict_template {o : OrderBy} :
    Template.verdict o.template = .ok () ↔ Name.checkPredicate o.predicate = .ok () := by
  obtain ⟨direction, predicate⟩ := o
  cases direction with
  | ascending | descending => simp [template, Value.check]

/-! ## Modifiers under a path -/

namespace Modifiers

variable {ms : Modifiers} {path : Path}

theorem mem_under {α : Type} {entries : List (Path × α)} {a : α} :
    a ∈ under path entries ↔ (path, a) ∈ entries := by
  rw [under, List.mem_filterMap]
  constructor
  · intro hall
    obtain ⟨⟨other, b⟩, hmem, hb⟩ := hall
    by_cases hpath : other = path
    · rw [if_pos hpath] at hb
      rw [← hpath, ← Option.some.inj hb]
      exact hmem
    · rw [if_neg hpath] at hb
      cases hb
  · intro hmem
    exact ⟨_, hmem, if_pos rfl⟩

theorem aggregate_mem_forPath {a : Aggregate} :
    Modifier.aggregate a ∈ ms.forPath path ↔ (path, a) ∈ ms.aggregates := by
  rw [← mem_under, forPath]
  cases ms.hasFacets path <;> simp

theorem page_mem_forPath {p : Page} :
    Modifier.page p ∈ ms.forPath path ↔ (path, p) ∈ ms.pages := by
  rw [← mem_under, forPath]
  cases ms.hasFacets path <;> simp

theorem order_mem_forPath {o : OrderBy} :
    Modifier.order o ∈ ms.forPath path ↔ (path, o) ∈ ms.orders := by
  rw [← mem_under, forPath]
  cases ms.hasFacets path <;> simp

theorem filter_mem_forPath {f : Filter} :
    Modifier.filter f ∈ ms.forPath path ↔ (path, f) ∈ ms.filters := by
  rw [← mem_under, forPath]
  cases ms.hasFacets path <;> simp

theorem facets_mem_forPath : Modifier.facets ∈ ms.forPath path ↔ ms.hasFacets path = true := by
  rw [forPath]
  cases ms.hasFacets path <;> simp

theorem hasAggregate_iff : ms.hasAggregate path = true ↔ ∃ a, (path, a) ∈ ms.aggregates := by
  rw [hasAggregate]
  induction ms.aggregates with
  | nil => simp
  | cons e es ih =>
    obtain ⟨other, a⟩ := e
    by_cases h : path = other
    · subst h
      simp
    · have hne : (path == other) = false := beq_eq_false_iff_ne.mpr h
      rw [List.lookup_cons, hne]
      simp [ih, h]

end Modifiers

/-! ## Fields and selections -/

namespace Field

variable {ms : Modifiers} {path : Path} {f : Field}

/-- The modifiers of a field: those under its path, and a request for facets of its own. -/
def modifiers (ms : Modifiers) (path : Path) (f : Field) : List Modifier :=
  ms.forPath path ++ if f.wantsFacets && !ms.hasFacets path then [.facets] else []

theorem clauses_eq : f.clauses ms path = .ofModifiers f.target (f.modifiers ms path) := rfl

/-- Apart from facets, a field has the modifiers under its path. -/
theorem mem_modifiers {m : Modifier} (h : m ≠ .facets) :
    m ∈ f.modifiers ms path ↔ m ∈ ms.forPath path := by
  rw [modifiers, List.mem_append]
  split <;> simp [h]

/-- A field with an aggregate is written under the name that the aggregate gives it. -/
theorem template_of_head {head : String} (h : (f.clauses ms path).head? = some head) :
    f.template ms path = .demand f.checkName :: (f.clauses ms path).demands
      ++ .text head :: (f.clauses ms path).template := by
  unfold template
  simp only [h]

/-- A field without an aggregate is written under its own name, and its alias is checked last. -/
theorem template_of_no_head (h : (f.clauses ms path).head? = none) :
    f.template ms path = .demand f.checkName :: (f.clauses ms path).demands
      ++ .text f.label :: (f.clauses ms path).template ++ [.demand f.checkAlias] := by
  unfold template
  simp only [h]

theorem head?_eq_none_iff : (f.clauses ms path).head? = none ↔ ms.hasAggregate path = false := by
  rw [clauses_eq, Clauses.head?_eq_none_iff, Bool.eq_false_iff, Ne, Modifiers.hasAggregate_iff]
  simp only [mem_modifiers (m := .aggregate _) Modifier.noConfusion,
    Modifiers.aggregate_mem_forPath, not_exists]

/-- The alias of a field is looked at only where it is written. -/
theorem verdict_template : (f.template ms path).verdict = .ok () ↔
    f.checkName = .ok () ∧ (f.clauses ms path).demands.verdict = .ok () ∧
      (f.clauses ms path).template.verdict = .ok () ∧
      (ms.hasAggregate path = false → f.checkAlias = .ok ()) := by
  cases h : (f.clauses ms path).head? with
  | none =>
    have hagg : ms.hasAggregate path = false := head?_eq_none_iff.mp h
    rw [template_of_no_head h]
    simp [hagg]
  | some head =>
    have hagg : ms.hasAggregate path = true := by
      rw [← Bool.not_eq_false, ← head?_eq_none_iff (f := f), h]
      exact Option.some_ne_none head
    rw [template_of_head h]
    simp [hagg]

end Field

namespace Selection

variable {ms : Modifiers} {path : Path} {t : Template}

theorem verdict_braced : (braced t).verdict = .ok () ↔ t.verdict = .ok () := by
  simp [braced]

/-- Fields can be written when each can, with what is written below it. -/
theorem verdict_fields_cons {f : Field} {children rest : Selection} :
    ((cons f children rest).fields ms path).verdict = .ok () ↔
      (f.isSelector = false → (f.template ms (path.child f.name)).verdict = .ok () ∧
        (ms.hasAggregate (path.child f.name) = false →
          (children.fields ms (path.child f.name)).verdict = .ok ())) ∧
      (rest.fields ms path).verdict = .ok () := by
  rw [fields, Template.verdict_append_eq_ok_iff]
  refine and_congr_left fun _ => ?_
  cases hselector : f.isSelector with
  | true => simp
  | false =>
    cases hagg : ms.hasAggregate (path.child f.name) with
    | true => simp
    | false =>
      cases children with
      | nil =>
        -- Braces around nothing can be written as well as nothing at all.
        cases f.isObject <;> simp [fields, isEmpty, verdict_braced]
      | cons f' below rest' => simp [isEmpty, verdict_braced]

end Selection

end GraphQuery
