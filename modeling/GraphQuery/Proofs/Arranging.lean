import GraphQuery.Proofs.Fragments
import GraphQuery.Proofs.Readings

/-!
# The order of modifiers

Clauses are written group by group, so it does not matter how modifiers of
different groups were mixed.  `Modifier.mergeSort_eq_arrange` says that the
arranged modifiers are the stably sorted ones, and `Clauses.fill_ofModifiers`
that the clauses are what the sorted modifiers give one after the other: each
registers its values and adds its fragment, and the first that cannot do so ends
the rendering with the parameters as they are.

`Clauses.grouped` sums up what this means for the head, the arguments, the
directives and the numbers of parameters, and for the request for facets, which
can come from the path of a field and from the field itself.
-/

namespace GraphQuery

/-! ## Sorting by group -/

/-- The place of a group among all. -/
def Group.rank : Group → Nat
  | aggregate => 0
  | pagination => 1
  | ordering => 2
  | filter => 3
  | facets => 4

namespace Modifier

variable {ms ns : List Modifier}

/-- The group of the first modifier is not behind that of the second. -/
def le (a b : Modifier) : Bool := a.group.rank ≤ b.group.rank

theorem le_trans (a b c : Modifier) (hab : a.le b = true) (hbc : b.le c = true) :
    a.le c = true := by
  simp only [le, decide_eq_true_eq] at *
  omega

theorem le_total (a b : Modifier) : (a.le b || b.le a) = true := by
  simp only [le, Bool.or_eq_true, decide_eq_true_eq]
  omega

/-- Arranging looks at the groups one by one. -/
theorem arrange_congr (h : ∀ g, ns.filter (·.group == g) = ms.filter (·.group == g)) :
    arrange ns = arrange ms := by
  simp only [arrange, h]

/-- Behind a modifier of a sorted list there is none of an earlier group. -/
theorem filter_eq_nil_of_rank_lt {m : Modifier} {g : Group} (h : ∀ n ∈ ms, m.le n = true)
    (hg : g.rank < m.group.rank) : ms.filter (·.group == g) = [] := by
  refine List.filter_eq_nil_iff.mpr fun n hn hgroup => ?_
  have hle := h n hn
  rw [le, decide_eq_true_eq, eq_of_beq hgroup] at hle
  omega

/-- Modifiers that are sorted are arranged. -/
theorem arrange_of_pairwise (h : ms.Pairwise fun a b => a.le b = true) : arrange ms = ms := by
  induction ms with
  | nil => rfl
  | cons m ms ih =>
    obtain ⟨hfirst, hrest⟩ := List.pairwise_cons.mp h
    have hrest := ih hrest
    have hnone : ∀ g : Group, g.rank < m.group.rank → ms.filter (·.group == g) = [] := fun g =>
      filter_eq_nil_of_rank_lt hfirst
    simp only [arrange, Group.all, List.flatMap_cons, List.flatMap_nil, List.filter_cons,
      List.append_nil] at hrest ⊢
    cases hgroup : m.group with
    | aggregate => simp [hrest]
    | pagination =>
      rw [hgroup] at hnone
      simp only [hnone .aggregate (by decide), List.nil_append] at hrest ⊢
      simp [hrest]
    | ordering =>
      rw [hgroup] at hnone
      simp only [hnone .aggregate (by decide), hnone .pagination (by decide),
        List.nil_append] at hrest ⊢
      simp [hrest]
    | filter =>
      rw [hgroup] at hnone
      simp only [hnone .aggregate (by decide), hnone .pagination (by decide),
        hnone .ordering (by decide), List.nil_append] at hrest ⊢
      simp [hrest]
    | facets =>
      rw [hgroup] at hnone
      simp only [hnone .aggregate (by decide), hnone .pagination (by decide),
        hnone .ordering (by decide), hnone .filter (by decide), List.nil_append] at hrest ⊢
      simp [hrest]

/-- A stable sort keeps the order within each group. -/
theorem filter_mergeSort (g : Group) :
    (ms.mergeSort le).filter (·.group == g) = ms.filter (·.group == g) := by
  have hsame : (ms.filter (·.group == g)).Pairwise fun a b => a.le b = true := by
    refine List.pairwise_of_forall_mem_list fun a ha b hb => ?_
    have hab : a.group = b.group := by
      rw [eq_of_beq (List.mem_filter.mp ha).2, eq_of_beq (List.mem_filter.mp hb).2]
    rw [le, hab]
    simp
  have hsub : (ms.filter (·.group == g)).Sublist (ms.mergeSort le) :=
    List.sublist_mergeSort le_trans le_total hsame List.filter_sublist
  have hfilter := hsub.filter (·.group == g)
  rw [List.filter_filter] at hfilter
  simp only [Bool.and_self] at hfilter
  exact (hfilter.eq_of_length ((List.mergeSort_perm ms le).filter _).length_eq.symm).symm

/-- Arranging the modifiers is a stable sort. -/
theorem mergeSort_eq_arrange : ms.mergeSort le = arrange ms := by
  rw [← arrange_of_pairwise (List.pairwise_mergeSort le_trans le_total ms)]
  exact arrange_congr fun g => filter_mergeSort g

/-! ## The modifiers of each group -/

/-- The computed value that a modifier asks for. -/
def aggregate? : Modifier → Option Aggregate
  | aggregate a => some a
  | _ => none

/-- The window that a modifier is. -/
def page? : Modifier → Option Page
  | page p => some p
  | _ => none

/-- The order that a modifier is. -/
def order? : Modifier → Option OrderBy
  | order o => some o
  | _ => none

/-- The filter that a modifier is. -/
def filter? : Modifier → Option Filter
  | filter f => some f
  | _ => none

/-- The modifiers of a group are told by their contents. -/
theorem filter_eq_map {α : Type} {g : Group} {content? : Modifier → Option α} {make : α → Modifier}
    (hin : ∀ m, m.group = g → (content? m).map make = some m)
    (hout : ∀ m, m.group ≠ g → content? m = none) :
    ms.filter (·.group == g) = (ms.filterMap content?).map make := by
  induction ms with
  | nil => rfl
  | cons m ms ih =>
    by_cases hgroup : m.group = g
    · obtain ⟨a, ha, hmake⟩ := Option.map_eq_some_iff.mp (hin m hgroup)
      rw [List.filter_cons_of_pos (by simp [hgroup]), List.filterMap_cons_some ha, List.map_cons,
        hmake, ih]
    · rw [List.filter_cons_of_neg (by simp [hgroup]), List.filterMap_cons_none (hout m hgroup), ih]

theorem filter_facets : ms.filter (·.group == .facets) =
    List.replicate (ms.countP (·.group == .facets)) .facets := by
  rw [List.countP_eq_length_filter, List.eq_replicate_iff]
  refine ⟨rfl, fun m hm => ?_⟩
  have hgroup := eq_of_beq (List.mem_filter.mp hm).2
  cases m with
  | facets => rfl
  | aggregate a | page p | order o | filter f => cases hgroup

/-- The arranged modifiers are those of each group in turn. -/
theorem arrange_eq : arrange ms =
    (ms.filterMap aggregate?).map .aggregate ++ (ms.filterMap page?).map .page ++
      (ms.filterMap order?).map .order ++ (ms.filterMap filter?).map .filter ++
      List.replicate (ms.countP (·.group == .facets)) .facets := by
  have haggregates : ms.filter (·.group == .aggregate) =
      (ms.filterMap aggregate?).map .aggregate :=
    filter_eq_map (by rintro (_ | _ | _ | _ | _) ⟨⟩; rfl)
      (by rintro (_ | _ | _ | _ | _) <;> simp [group, aggregate?])
  have hpages : ms.filter (·.group == .pagination) = (ms.filterMap page?).map .page :=
    filter_eq_map (by rintro (_ | _ | _ | _ | _) ⟨⟩; rfl)
      (by rintro (_ | _ | _ | _ | _) <;> simp [group, page?])
  have horders : ms.filter (·.group == .ordering) = (ms.filterMap order?).map .order :=
    filter_eq_map (by rintro (_ | _ | _ | _ | _) ⟨⟩; rfl)
      (by rintro (_ | _ | _ | _ | _) <;> simp [group, order?])
  have hfilters : ms.filter (·.group == .filter) = (ms.filterMap filter?).map .filter :=
    filter_eq_map (by rintro (_ | _ | _ | _ | _) ⟨⟩; rfl)
      (by rintro (_ | _ | _ | _ | _) <;> simp [group, filter?])
  simp [arrange, Group.all, haggregates, hpages, horders, hfilters, filter_facets]

end Modifier

/-! ## One fragment after the other -/

/-- A condition that holds leaves no trace. -/
theorem Template.fill_demand_ok {u : Template} {p : Parameters} :
    Template.fill p (.demand (.ok ()) :: u) = u.fill p := by
  rw [fill]
  show ((u.fill p).1.map ("" ++ ·), (u.fill p).2) = _
  rcases u.fill p with ⟨_ | s, p⟩
  · rfl
  · simp [Except.map]

/-- What a modifier says of its target, behind the conditions for it. -/
def Modifier.fragment (t : Target) (m : Modifier) : Template :=
  .demand (m.checkTarget t) :: match m with
    | aggregate a => [.demand (Name.checkPredicate (a.key t)), .text (a.head t)]
    | page q => q.template
    | order o => o.template
    | filter f => f.template
    | facets => [.text "@facets"]

namespace Clauses

variable {t : Target} {m : Modifier} {ms ns : List Modifier} {p : Parameters} {x : Text}
  {u : Template}

/-- The text with the fragment of one more modifier. A head takes the place of an earlier one. -/
def Text.add (x : Text) (fragment : String) : Modifier → Text
  | .aggregate _ => { x with head? := some fragment }
  | .page _ | .order _ => { x with args := x.args ++ [fragment] }
  | .filter none => x
  | .filter (some _) | .facets => { x with directives := x.directives ++ [fragment] }

/-- The text with the fragments of the modifiers in their order, or the first error, and the
parameters that were registered. -/
def render (t : Target) (x : Text) (p : Parameters) : List Modifier → Except Error Text × Parameters
  | [] => (.ok x, p)
  | m :: ms =>
    match (m.fragment t).fill p with
    | (.error e, p) => (.error e, p)
    | (.ok fragment, p) => render t (x.add fragment m) p ms

theorem render_append : render t x p (ms ++ ns) =
    match render t x p ms with
    | (.error e, p) => (.error e, p)
    | (.ok x, p) => render t x p ns := by
  induction ms generalizing x p with
  | nil => rfl
  | cons m ms ih =>
    rw [List.cons_append, render, render]
    rcases (m.fragment t).fill p with ⟨_ | fragment, p⟩
    · rfl
    · exact ih

/-- Aggregates register nothing; the last one gives the head. -/
theorem render_aggregates (h : ∀ m ∈ ms, m.group = .aggregate) : render t x p ms =
    ((Template.fill p (ms.flatMap (Modifier.demands t))).1.map fun _ =>
      { x with head? := (ms.filterMap (Modifier.head? t)).getLast?.or x.head? },
      (Template.fill p (ms.flatMap (Modifier.demands t))).2) := by
  induction ms generalizing x with
  | nil => rfl
  | cons m ms ih =>
    obtain ⟨hm, hms⟩ := List.forall_mem_cons.mp h
    cases m with
    | page q | order o | filter f | facets => cases hm
    | aggregate a =>
      rw [List.flatMap_cons, Modifier.demands, render, Modifier.fragment]
      cases (Modifier.aggregate a).checkTarget t with
      | error e => rfl
      | ok accepted =>
        cases Name.checkPredicate (a.key t) with
        | error e => rfl
        | ok wellFormed =>
          have hhead : Template.fill p [.text (a.head t)] = (.ok (a.head t), p) := by
            simp [Template.fill, Piece.fill, Except.map]
          obtain ⟨⟩ := accepted
          obtain ⟨⟩ := wellFormed
          simp only [List.cons_append, List.nil_append, Template.fill_demand_ok, hhead]
          rw [ih hms]
          simp [Text.add, Modifier.head?, List.getLast?_cons]

theorem fill_fragment_of_argument? (h : m.argument? = some u) :
    (m.fragment t).fill p = u.fill p := by
  cases m with
  | page q | order o =>
    cases h
    exact Template.fill_demand_ok
  | aggregate a | filter f | facets => cases h

theorem Text.add_of_argument? {fragment : String} (h : m.argument? = some u) :
    x.add fragment m = { x with args := x.args ++ [fragment] } := by
  cases m with
  | page q | order o => rfl
  | aggregate a | filter f | facets => cases h

/-- Windows and orders give the arguments. -/
theorem render_args (h : ∀ m ∈ ms, m.argument?.isSome = true) : render t x p ms =
    ((Template.fillAll p (ms.filterMap Modifier.argument?)).1.map fun args =>
      { x with args := x.args ++ args },
      (Template.fillAll p (ms.filterMap Modifier.argument?)).2) := by
  induction ms generalizing x p with
  | nil => simp [render, Template.fillAll, Except.map]
  | cons m ms ih =>
    obtain ⟨hm, hms⟩ := List.forall_mem_cons.mp h
    obtain ⟨u, hu⟩ := Option.isSome_iff_exists.mp hm
    rw [render, fill_fragment_of_argument? hu, List.filterMap_cons_some hu, Template.fillAll]
    rcases u.fill p with ⟨_ | fragment, p⟩
    · rfl
    · dsimp only
      rw [ih hms, Text.add_of_argument? hu]
      rcases Template.fillAll p (ms.filterMap Modifier.argument?) with ⟨_ | args, p⟩
      · rfl
      · simp [Except.map]

theorem fill_fragment_of_directive? (h : m.directive? t = some u) :
    (m.fragment t).fill p = u.fill p := by
  cases m with
  | aggregate a | page q | order o => cases h
  | facets =>
    cases h
    rfl
  | filter f =>
    cases f with
    | none => cases h
    | some c =>
      cases h
      exact Template.fill_demand_ok

theorem Text.add_of_directive? {fragment : String} (h : m.directive? t = some u) :
    x.add fragment m = { x with directives := x.directives ++ [fragment] } := by
  cases m with
  | aggregate a | page q | order o => cases h
  | facets => rfl
  | filter f =>
    cases f with
    | none => cases h
    | some c => rfl

/-- Filters and requests for facets give the directives. -/
theorem render_directives (h : ∀ m ∈ ms, m.group = .filter ∨ m.group = .facets) :
    render t x p ms =
      ((Template.fillAll p (ms.filterMap (Modifier.directive? t))).1.map fun directives =>
        { x with directives := x.directives ++ directives },
        (Template.fillAll p (ms.filterMap (Modifier.directive? t))).2) := by
  induction ms generalizing x p with
  | nil => simp [render, Template.fillAll, Except.map]
  | cons m ms ih =>
    obtain ⟨hm, hms⟩ := List.forall_mem_cons.mp h
    cases hu : m.directive? t with
    | none =>
      -- Only an empty filter has no directive here, and it changes nothing.
      have hm : m = .filter none := by
        cases m with
        | aggregate a | page q | order o => simp [Modifier.group] at hm
        | facets => cases hu
        | filter f =>
          cases f with
          | none => rfl
          | some c => cases hu
      subst hm
      exact ih hms
    | some u =>
      rw [render, fill_fragment_of_directive? hu, List.filterMap_cons_some hu, Template.fillAll]
      rcases u.fill p with ⟨_ | fragment, p⟩
      · rfl
      · dsimp only
        rw [ih hms, Text.add_of_directive? hu]
        rcases Template.fillAll p (ms.filterMap (Modifier.directive? t)) with ⟨_ | ds, p⟩
        · rfl
        · simp [Except.map]

section
variable {as bs ds : List Modifier}

/-- Aggregates, arguments and directives each give their own part of the clauses. -/
theorem ofModifiers_of_arrange (h : Modifier.arrange ms = as ++ (bs ++ ds))
    (has : ∀ m ∈ as, m.group = .aggregate) (hbs : ∀ m ∈ bs, m.argument?.isSome = true)
    (hds : ∀ m ∈ ds, m.group = .filter ∨ m.group = .facets) :
    ofModifiers t ms = ⟨as.flatMap (Modifier.demands t),
      (as.filterMap (Modifier.head? t)).getLast?, bs.filterMap Modifier.argument?,
      ds.filterMap (Modifier.directive? t)⟩ := by
  have hasNone : ∀ m ∈ as, m.argument? = none ∧ m.directive? t = none := by
    intro m hm
    cases m with
    | aggregate a => exact ⟨rfl, rfl⟩
    | page q | order o | filter f | facets => cases has _ hm
  have hbsNone : ∀ m ∈ bs, m.demands t = [] ∧ m.head? t = none ∧ m.directive? t = none := by
    intro m hm
    cases m with
    | page q | order o => exact ⟨rfl, rfl, rfl⟩
    | aggregate a | filter f | facets => cases hbs _ hm
  have hdsNone : ∀ m ∈ ds, m.demands t = [] ∧ m.head? t = none ∧ m.argument? = none := by
    intro m hm
    cases m with
    | filter f | facets => exact ⟨rfl, rfl, rfl⟩
    | aggregate a | page q | order o => rcases hds _ hm with hgroup | hgroup <;> cases hgroup
  have hdemands : (bs ++ ds).flatMap (Modifier.demands t) = [] :=
    List.flatMap_eq_nil_iff.mpr (List.forall_mem_append.mpr
      ⟨fun m hm => (hbsNone m hm).1, fun m hm => (hdsNone m hm).1⟩)
  have hheads : (bs ++ ds).filterMap (Modifier.head? t) = [] :=
    List.filterMap_eq_nil_iff.mpr (List.forall_mem_append.mpr
      ⟨fun m hm => (hbsNone m hm).2.1, fun m hm => (hdsNone m hm).2.1⟩)
  have hasArgs : as.filterMap Modifier.argument? = [] :=
    List.filterMap_eq_nil_iff.mpr fun m hm => (hasNone m hm).1
  have hdsArgs : ds.filterMap Modifier.argument? = [] :=
    List.filterMap_eq_nil_iff.mpr fun m hm => (hdsNone m hm).2.2
  have hasDirectives : as.filterMap (Modifier.directive? t) = [] :=
    List.filterMap_eq_nil_iff.mpr fun m hm => (hasNone m hm).2
  have hbsDirectives : bs.filterMap (Modifier.directive? t) = [] :=
    List.filterMap_eq_nil_iff.mpr fun m hm => (hbsNone m hm).2.2
  rw [ofModifiers_eq, h, List.flatMap_append, hdemands, List.filterMap_append, hheads,
    List.filterMap_append, List.filterMap_append, hasArgs, hdsArgs, List.filterMap_append,
    List.filterMap_append, hasDirectives, hbsDirectives]
  simp

/-- Clauses of aggregates, arguments and directives are what these give one after the other. -/
theorem fill_eq_render (has : ∀ m ∈ as, m.group = .aggregate)
    (hbs : ∀ m ∈ bs, m.argument?.isSome = true)
    (hds : ∀ m ∈ ds, m.group = .filter ∨ m.group = .facets) :
    fill p ⟨as.flatMap (Modifier.demands t), (as.filterMap (Modifier.head? t)).getLast?,
      bs.filterMap Modifier.argument?, ds.filterMap (Modifier.directive? t)⟩ =
      render t ⟨none, [], []⟩ p (as ++ (bs ++ ds)) := by
  rw [render_append, render_aggregates has, fill]
  rcases Template.fill p (as.flatMap (Modifier.demands t)) with ⟨_ | _, p⟩
  · rfl
  · simp only [Except.map]
    rw [render_append, render_args hbs]
    rcases Template.fillAll p (bs.filterMap Modifier.argument?) with ⟨_ | args, p⟩
    · rfl
    · simp only [Except.map]
      rw [render_directives hds]
      rcases Template.fillAll p (ds.filterMap (Modifier.directive? t)) with ⟨_ | ds, p⟩
      · rfl
      · simp [Except.map]

end

/-- Arranged modifiers are aggregates, arguments and directives, and each is told by its content. -/
theorem exists_parts (t : Target) (ms : List Modifier) : ∃ as bs ds,
    Modifier.arrange ms = as ++ (bs ++ ds) ∧ (∀ m ∈ as, m.group = .aggregate) ∧
      (∀ m ∈ bs, m.argument?.isSome = true) ∧
      (∀ m ∈ ds, m.group = .filter ∨ m.group = .facets) ∧
      as.filterMap (Modifier.head? t) =
        (ms.filterMap Modifier.aggregate?).map (Aggregate.head · t) ∧
      bs.filterMap Modifier.argument? = (ms.filterMap Modifier.page?).map Page.template ++
        (ms.filterMap Modifier.order?).map OrderBy.template ∧
      ds.filterMap (Modifier.directive? t) =
        ((ms.filterMap Modifier.filter?).filter (!·.isEmpty)).map Filter.template ++
          List.replicate (ms.countP (·.group == .facets))
            [.demand (Modifier.facets.checkTarget t), .text "@facets"] := by
  refine ⟨(ms.filterMap Modifier.aggregate?).map .aggregate,
    (ms.filterMap Modifier.page?).map .page ++ (ms.filterMap Modifier.order?).map .order,
    (ms.filterMap Modifier.filter?).map .filter ++
      List.replicate (ms.countP (·.group == .facets)) .facets, ?_, ?_, ?_, ?_, ?_, ?_, ?_⟩
  · rw [Modifier.arrange_eq]
    simp only [List.append_assoc]
  · exact List.forall_mem_map.mpr fun _ _ => rfl
  · exact List.forall_mem_append.mpr
      ⟨List.forall_mem_map.mpr fun _ _ => rfl, List.forall_mem_map.mpr fun _ _ => rfl⟩
  · refine List.forall_mem_append.mpr ⟨List.forall_mem_map.mpr fun _ _ => Or.inl rfl, ?_⟩
    intro m hm
    rw [List.eq_of_mem_replicate hm]
    exact Or.inr rfl
  · rw [List.filterMap_map]
    exact congrFun (List.filterMap_eq_map ..) _
  · rw [List.filterMap_append, List.filterMap_map, List.filterMap_map]
    exact congrArg₂ (· ++ ·) (congrFun (List.filterMap_eq_map ..) _)
      (congrFun (List.filterMap_eq_map ..) _)
  · have hfacets : Modifier.directive? t .facets =
        some [.demand (Modifier.facets.checkTarget t), .text "@facets"] := rfl
    rw [List.filterMap_append, List.filterMap_map, List.filterMap_replicate_of_some hfacets]
    congr 1
    induction ms.filterMap Modifier.filter? with
    | nil => rfl
    | cons f filters ih =>
      cases f with
      | none => exact ih
      | some c => exact congrArg (Filter.template (some c) :: ·) ih

/-- The clauses of a target are what its modifiers give one after the other when they are sorted by
group. -/
theorem fill_ofModifiers : (ofModifiers t ms).fill p =
    render t ⟨none, [], []⟩ p (ms.mergeSort Modifier.le) := by
  obtain ⟨as, bs, ds, harrange, has, hbs, hds, -⟩ := exists_parts t ms
  rw [ofModifiers_of_arrange harrange has hbs hds, fill_eq_render has hbs hds,
    Modifier.mergeSort_eq_arrange, harrange]

/-- The arguments are the windows and then the orders, the directives the filters that hold
something back and then the requests for facets, and the last aggregate gives the head. -/
theorem ofModifiers_parts (t : Target) (ms : List Modifier) :
    (ofModifiers t ms).head? =
      (ms.filterMap Modifier.aggregate?).getLast?.map (Aggregate.head · t) ∧
    (ofModifiers t ms).args = (ms.filterMap Modifier.page?).map Page.template ++
      (ms.filterMap Modifier.order?).map OrderBy.template ∧
    (ofModifiers t ms).directives =
      ((ms.filterMap Modifier.filter?).filter (!·.isEmpty)).map Filter.template ++
        List.replicate (ms.countP (·.group == .facets))
          [.demand (Modifier.facets.checkTarget t), .text "@facets"] := by
  obtain ⟨as, bs, ds, harrange, has, hbs, hds, hheads, hargs, hdirectives⟩ := exists_parts t ms
  rw [ofModifiers_of_arrange harrange has hbs hds]
  exact ⟨by rw [hheads, List.getLast?_map], hargs, hdirectives⟩

end Clauses

/-! ## The text of clauses -/

/-- What has been written stays as it is when further scalars are interned. -/
theorem Template.write_internAll {u : Template} {p : Parameters} {ss : List Scalar}
    (h : ∀ s ∈ u.scalars, s ∈ p.scalars) :
    u.write (p.internAll ss).number = u.write p.number :=
  write_congr fun s hs => Parameters.number_internAll_of_mem (h s hs)

/-- Several templates are filled with the numbers that the scalars have in the end. -/
theorem Template.of_fillAll {us : List Template} {p p' : Parameters} {texts : List String}
    (h : fillAll p us = (.ok texts, p')) : (∀ u ∈ us, u.verdict = .ok ()) ∧
      texts = us.map (write p'.number) ∧ p' = p.internAll (us.flatMap scalars) := by
  induction us generalizing p texts with
  | nil =>
    cases h
    exact ⟨List.forall_mem_nil _, rfl, rfl⟩
  | cons u us ih =>
    rw [fillAll] at h
    rcases hu : u.fill p with ⟨_ | text, p₁⟩
    · rw [hu] at h
      cases h
    · rw [hu] at h
      dsimp only at h
      rcases hrest : fillAll p₁ us with ⟨_ | rest, p₂⟩
      · rw [hrest] at h
        cases h
      · rw [hrest] at h
        dsimp only [Except.map] at h
        obtain ⟨htexts, rfl⟩ := Prod.mk.inj h
        obtain ⟨hverdict, rfl, hscalars⟩ := of_fill hu
        obtain rfl : p₁ = p.internAll u.scalars := by
          have hsnd := fill_snd (p := p) hverdict
          rw [hu] at hsnd
          exact hsnd
        obtain ⟨hverdicts, rfl, rfl⟩ := ih hrest
        refine ⟨List.forall_mem_cons.mpr ⟨hverdict, hverdicts⟩, ?_, ?_⟩
        · rw [List.map_cons, write_internAll hscalars]
          exact (Except.ok.inj htexts).symm
        · rw [List.flatMap_cons, Parameters.internAll_append]

/-- The argument of a window when the scalars have the given numbers. -/
def Page.written (number : Scalar → Nat) : Page → String
  | first n => "first: " ++ parameterName (number (.int n))
  | offset n => "offset: " ++ parameterName (number (.int n))
  | after uid => "after: " ++ uid

/-- The scalar of a window, if it has one. -/
def Page.scalar? : Page → Option Scalar
  | first n | offset n => some (.int n)
  | after _ => none

/-- The argument of an order. -/
def OrderBy.written (o : OrderBy) : String :=
  match o.direction with
  | .ascending => "orderasc: " ++ o.predicate
  | .descending => "orderdesc: " ++ o.predicate

theorem Page.write_template {q : Page} {n : Scalar → Nat} :
    Template.write n q.template = q.written n := by
  cases q <;> simp [template, written, Template.write, Piece.write, Value.binding, Binding.token]

theorem Page.scalars_template {q : Page} :
    Template.scalars q.template = q.scalar?.toList := by
  cases q <;> rfl

theorem OrderBy.write_template {o : OrderBy} {n : Scalar → Nat} :
    Template.write n o.template = o.written := by
  obtain ⟨direction, predicate⟩ := o
  cases direction <;>
    simp [template, written, Template.write, Piece.write, Value.binding, Binding.token]

theorem OrderBy.scalars_template {o : OrderBy} : Template.scalars o.template = [] := by
  obtain ⟨direction, predicate⟩ := o
  cases direction <;> rfl

namespace Clauses

variable {t : Target} {ms ns : List Modifier} {p p' : Parameters} {x : Text}

/-- Clauses that can be filled are written with the numbers that the scalars have in the end. -/
theorem of_fill {c : Clauses} (hdemands : ∀ piece ∈ c.demands, ∃ check, piece = .demand check)
    (h : c.fill p = (.ok x, p')) :
    c.demands.verdict = .ok () ∧ (∀ u ∈ c.args ++ c.directives, u.verdict = .ok ()) ∧
      x = ⟨c.head?, c.args.map (Template.write p'.number),
        c.directives.map (Template.write p'.number)⟩ ∧
      p' = p.internAll ((c.args ++ c.directives).flatMap Template.scalars) := by
  have hscalars : Template.scalars c.demands = [] := by
    refine List.filterMap_eq_nil_iff.mpr fun piece hpiece => ?_
    obtain ⟨check, rfl⟩ := hdemands piece hpiece
    rfl
  rw [fill] at h
  rcases hfirst : Template.fill p c.demands with ⟨_ | _, p₁⟩
  · rw [hfirst] at h
    cases h
  · rw [hfirst] at h
    dsimp only at h
    obtain ⟨hverdict, -⟩ := Template.of_fill hfirst
    obtain rfl : p₁ = p := by
      have hsnd := Template.fill_snd (p := p) hverdict
      rw [hfirst, hscalars] at hsnd
      exact hsnd
    rcases hargs : Template.fillAll p₁ c.args with ⟨_ | args, p₂⟩
    · rw [hargs] at h
      cases h
    · rw [hargs] at h
      dsimp only at h
      rcases hdirectives : Template.fillAll p₂ c.directives with ⟨_ | directives, p₃⟩
      · rw [hdirectives] at h
        cases h
      · rw [hdirectives] at h
        cases h
        obtain ⟨hargsVerdict, rfl, rfl⟩ := Template.of_fillAll hargs
        obtain ⟨hdirectivesVerdict, rfl, rfl⟩ := Template.of_fillAll hdirectives
        have hwrite : ∀ u ∈ c.args,
            u.write (p₁.internAll (c.args.flatMap Template.scalars)).number =
              u.write ((p₁.internAll (c.args.flatMap Template.scalars)).internAll
                (c.directives.flatMap Template.scalars)).number := fun u hu =>
          (Template.write_internAll fun s hs =>
            Parameters.mem_internAll.mpr (Or.inr (List.mem_flatMap.mpr ⟨u, hu, hs⟩))).symm
        refine ⟨hverdict, List.forall_mem_append.mpr ⟨hargsVerdict, hdirectivesVerdict⟩, ?_, ?_⟩
        · rw [List.map_congr_left hwrite]
        · rw [List.flatMap_append, Parameters.internAll_append]

/-- The text of clauses, when the parameters were `p` at first and are `p'` in the end. -/
structure Text.IsOf (t : Target) (ms : List Modifier) (p p' : Parameters) (x : Text) : Prop where
  /-- The last aggregate gives the head. -/
  head : x.head? = (ms.filterMap Modifier.aggregate?).getLast?.map (Aggregate.head · t)
  /-- The arguments are the windows and then the orders, as they were added. -/
  args : x.args = (ms.filterMap Modifier.page?).map (Page.written p'.number) ++
    (ms.filterMap Modifier.order?).map OrderBy.written
  /-- The directives are the filters that hold something back and then the requests for facets. -/
  directives : ∃ filters,
    List.Forall₂ (Template.Yields p')
      (((ms.filterMap Modifier.filter?).filter (!·.isEmpty)).map Filter.template) filters ∧
    x.directives = filters ++ List.replicate (ms.countP (·.group == .facets)) "@facets"
  /-- The scalars of the windows are registered first, and then those of the filters. -/
  parameters : p' = p.internAll ((ms.filterMap Modifier.page?).filterMap Page.scalar? ++
    (ms.filterMap Modifier.filter?).flatMap fun f => f.template.scalars)

theorem flatMap_scalars_pages {pages : List Page} :
    (pages.map Page.template).flatMap Template.scalars = pages.filterMap Page.scalar? := by
  rw [List.flatMap_map, List.filterMap_eq_flatMap_toList]
  exact congrArg (pages.flatMap ·) (funext fun _ => Page.scalars_template)

theorem flatMap_scalars_orders {orders : List OrderBy} :
    (orders.map OrderBy.template).flatMap Template.scalars = [] := by
  rw [List.flatMap_map]
  exact List.flatMap_eq_nil_iff.mpr fun _ _ => OrderBy.scalars_template

/-- A filter that holds nothing back has no scalars. -/
theorem flatMap_scalars_filters {filters : List Filter} :
    ((filters.filter (!·.isEmpty)).map Filter.template).flatMap Template.scalars =
      filters.flatMap fun f => f.template.scalars := by
  induction filters with
  | nil => rfl
  | cons f filters ih =>
    cases f with
    | none => exact ih
    | some c => exact congrArg ((Filter.template (some c)).scalars ++ ·) ih

theorem flatMap_scalars_requests {check : Verdict} {n : Nat} :
    (List.replicate n [Piece.demand check, .text "@facets"]).flatMap Template.scalars = [] := by
  refine List.flatMap_eq_nil_iff.mpr fun u hu => ?_
  rw [List.eq_of_mem_replicate hu]
  rfl

theorem isOf (h : (ofModifiers t ms).fill p = (.ok x, p')) : x.IsOf t ms p p' := by
  obtain ⟨-, hverdict, rfl, hparameters⟩ := of_fill (fun _ => mem_demands) h
  obtain ⟨hhead, hargs, hdirectives⟩ := ofModifiers_parts t ms
  have hscalars : ∀ u ∈ (ofModifiers t ms).args ++ (ofModifiers t ms).directives,
      ∀ s ∈ u.scalars, s ∈ p'.scalars := by
    intro u hu s hs
    rw [hparameters]
    exact Parameters.mem_internAll.mpr (Or.inr (List.mem_flatMap.mpr ⟨u, hu, hs⟩))
  exact {
    head := hhead
    args := by
      show (ofModifiers t ms).args.map _ = _
      rw [hargs, List.map_append, List.map_map, List.map_map]
      congr 1
      · exact List.map_congr_left fun _ _ => Page.write_template
      · exact List.map_congr_left fun _ _ => OrderBy.write_template
    directives := by
      refine ⟨((ms.filterMap Modifier.filter?).filter (!·.isEmpty)).map fun f =>
        Template.write p'.number f.template, ?_, ?_⟩
      · rw [List.forall₂_map_left_iff, List.forall₂_map_right_iff, List.forall₂_same]
        intro f hf
        have hmem : f.template ∈ (ofModifiers t ms).args ++ (ofModifiers t ms).directives := by
          rw [hdirectives]
          exact List.mem_append_right _ (List.mem_append_left _ (List.mem_map_of_mem hf))
        exact Template.yields_write (hverdict _ hmem) (hscalars _ hmem)
      · show (ofModifiers t ms).directives.map _ = _
        rw [hdirectives, List.map_append, List.map_map, List.map_replicate]
        congr 1
    parameters := by
      rw [hparameters, hargs, hdirectives]
      simp only [List.flatMap_append, flatMap_scalars_pages, flatMap_scalars_orders,
        flatMap_scalars_filters, flatMap_scalars_requests, List.append_nil] }

/-- An aggregate or a request for facets cannot be written in a root block. -/
theorem exists_error_of_root (hroot : t.source = .root)
    (hm : ∃ m ∈ ms, m.group = .aggregate ∨ m.group = .facets) :
    ∃ e, ((ofModifiers t ms).fill p).1 = .error e := by
  rcases hfill : (ofModifiers t ms).fill p with ⟨e | x, p'⟩
  · exact ⟨e, rfl⟩
  · obtain ⟨hdemands, hverdict, -, -⟩ := of_fill (fun _ => mem_demands) hfill
    obtain ⟨m, hm, hgroup⟩ := hm
    have hfield : t.source = .field := by
      cases m with
      | aggregate a => exact (verdict_demands.mp hdemands a hm).1
      | facets =>
        exact (verdict_directives.mp fun u hu => hverdict u (List.mem_append_right _ hu)).2 hm
      | page q | order o | filter f => rcases hgroup with hgroup | hgroup <;> cases hgroup
    rw [hroot] at hfield
    cases hfield

/-- What the order of modifiers has to do with the clauses that they become. -/
structure Grouped (t : Target) (ms : List Modifier) (p : Parameters) : Prop where
  /-- The clauses are what the modifiers give one after the other, stably sorted by group. -/
  rendered : (ofModifiers t ms).fill p = render t ⟨none, [], []⟩ p (ms.mergeSort Modifier.le)
  /-- To sort them before makes no difference. -/
  sorted : (ofModifiers t (ms.mergeSort Modifier.le)).fill p = (ofModifiers t ms).fill p
  /-- Only the order within each group matters. -/
  congr : ∀ ns, (∀ g, ns.filter (·.group == g) = ms.filter (·.group == g)) →
    (ofModifiers t ns).fill p = (ofModifiers t ms).fill p
  text : ∀ x p', (ofModifiers t ms).fill p = (.ok x, p') → x.IsOf t ms p p'
  root : t.source = .root → (∃ m ∈ ms, m.group = .aggregate ∨ m.group = .facets) →
    ∃ e, ((ofModifiers t ms).fill p).1 = .error e

end Clauses

/-- The directive of a filter is no request for facets. -/
theorem Filter.write_ne_facets {f : Filter} {n : Scalar → Nat} :
    Template.write n f.template ≠ "@facets" := by
  cases f with
  | none => exact of_decide_eq_true rfl
  | some c =>
    intro h
    have hletters := congrArg String.toList h
    simp [template, Template.write, Piece.write] at hletters

/-- A field asks for its facets once, if it or its path does, and else not at all. -/
theorem Field.count_facets {ms : Modifiers} {path : Path} {f : Field} {below : Selection}
    {n : Scalar → Nat} : (f.written n ms path below).directives.count "@facets" =
      if f.wantsFacets || ms.hasFacets path then 1 else 0 := by
  have hfilters : ∀ filters : List Filter,
      ((filters.map Filter.template).map (Template.write n)).count "@facets" = 0 := by
    intro filters
    rw [List.count_eq_zero, List.map_map, List.mem_map]
    rintro ⟨g, -, hg⟩
    exact Filter.write_ne_facets hg
  show ((f.clauses ms path).directives.map (Template.write n)).count "@facets" = _
  rw [directives_eq, List.map_append, List.count_append, hfilters, requests]
  split_ifs <;> simp [Template.write, Piece.write]

/-- Clauses depend on the order of the modifiers within each group only, and a field asks for its
facets at most once. -/
theorem Clauses.grouped : (∀ t ms p, Grouped t ms p) ∧
    ∀ (ms : Modifiers) (path : Path) (f : Field) (below : Selection) (p p' : Parameters)
      (text : String), (f.rendering ms path below).fill p = (.ok text, p') →
        text = (f.written p'.number ms path below).text ∧
          (f.written p'.number ms path below).directives.count "@facets" =
            if f.wantsFacets || ms.hasFacets path then 1 else 0 := by
  constructor
  · intro t ms p
    exact {
      rendered := fill_ofModifiers
      sorted := by
        rw [fill_ofModifiers, fill_ofModifiers, List.mergeSort_of_pairwise
          (List.pairwise_mergeSort Modifier.le_trans Modifier.le_total ms)]
      congr := by
        intro ns h
        rw [fill_ofModifiers, fill_ofModifiers, Modifier.mergeSort_eq_arrange,
          Modifier.mergeSort_eq_arrange, Modifier.arrange_congr h]
      text := fun _ _ => isOf
      root := exists_error_of_root }
  · intro ms path f below p p' text h
    obtain ⟨-, rfl, -⟩ := Template.of_fill h
    exact ⟨Field.write_rendering, Field.count_facets⟩

/-- Modifiers of four groups, none of them in its place. -/
def Modifier.mixed : List Modifier :=
  [.facets, .filter (.ofCall (.eq "name" (.string "bob"))), .order ⟨.descending, "age"⟩,
    .page (.first 10), .order ⟨.ascending, "name"⟩]

/-- The clauses of mixed modifiers, and a field whose facets are asked for twice. -/
theorem Clauses.grouped_friends :
    (∃ x p', (ofModifiers ⟨"friend", none, .field⟩ Modifier.mixed).fill .empty = (.ok x, p') ∧
      x.args = ["first: $p0", "orderdesc: age", "orderasc: name"] ∧
      x.directives = ["@filter(eq(<name>, $p1))", "@facets"] ∧
      x.IsOf ⟨"friend", none, .field⟩ Modifier.mixed .empty p') ∧
    ∃ text p', (Field.rendering { Modifiers.empty with facets := ["friend"] } "friend"
        { name := "friend", wantsFacets := true } .nil).fill .empty = (.ok text, p') ∧
      text = "friend @facets" ∧
      (Field.written p'.number { Modifiers.empty with facets := ["friend"] } "friend"
        { name := "friend", wantsFacets := true } .nil).directives.count "@facets" = 1 := by
  have hfill : (ofModifiers ⟨"friend", none, .field⟩ Modifier.mixed).fill .empty =
      (.ok ⟨none, ["first: $p0", "orderdesc: age", "orderasc: name"],
        ["@filter(eq(<name>, $p1))", "@facets"]⟩,
        ⟨[.int 10, .string "bob"], by decide⟩) := by
    cbv
  have htext : Template.fill .empty (Field.rendering
      { Modifiers.empty with facets := ["friend"] } "friend"
      { name := "friend", wantsFacets := true } .nil) = (.ok "friend @facets", .empty) := by
    cbv
  exact ⟨⟨_, _, hfill, rfl, rfl, (grouped.1 _ _ _).text _ _ hfill⟩, _, _, htext, rfl,
    (grouped.2 _ _ _ _ _ _ _ htext).2⟩

end GraphQuery
