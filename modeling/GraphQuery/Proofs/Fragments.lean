import GraphQuery.Proofs.Acceptance

/-!
# Where modifiers are written

A modifier is registered under the path of a field, and the field is somewhere
in the tree of a selection.  `Query.modifiers_written` says that the two meet:
in the text of a query that compiles stands the text of the field, and in it
the fragment of each of its modifiers, in the place and the order of its group.

* `Selection.Reaches` says where in the tree a field is.  `Reaches.rendering_part`
  finds its template among those of the selection.
* `Field.Shows` says how the text of a field is made up of the fragments of its
  modifiers, and `Field.shows` that it is.

Two kinds of fields have no text, and neither have their modifiers.  One is a
field below an aggregate, which selects a value and no nodes.  The other is the
selector that closes every selection, and whatever is below it: an aggregate
that is registered for it is lost (`Query.counted_selector_is_lost`).
-/

namespace GraphQuery

/-! ## Templates with their parameters -/

namespace Template

variable {t u : Template} {p : Parameters} {n : Scalar → Nat}

/-- The template is filled with the text, and all its scalars are among the parameters. -/
def Yields (p : Parameters) (t : Template) (text : String) : Prop := t.fill p = (.ok text, p)

theorem yields_write (hverdict : t.verdict = .ok ()) (hscalars : ∀ x ∈ t.scalars, x ∈ p.scalars) :
    Yields p t (t.write p.number) := by
  have hsame : p.internAll t.scalars = p := by
    revert hscalars
    induction t.scalars with
    | nil => exact fun _ => rfl
    | cons x xs ih =>
      intro hscalars
      obtain ⟨hx, hxs⟩ := List.forall_mem_cons.mp hscalars
      rw [Parameters.internAll_cons, Parameters.intern_of_mem hx]
      exact ih hxs
  rw [Yields, fill_eq hverdict, hsame]

/-- What is part of a template that can be written can be written with its parameters. -/
theorem yields_of_subset (h : u ⊆ t) (hverdict : t.verdict = .ok ()) :
    Yields (p.internAll t.scalars) u (u.write (p.internAll t.scalars).number) := by
  refine yields_write ?_ fun x hx => ?_
  · exact verdict_eq_ok_iff.mpr fun piece hpiece => verdict_eq_ok_iff.mp hverdict piece (h hpiece)
  · obtain ⟨piece, hpiece, hx⟩ := List.mem_filterMap.mp hx
    exact Parameters.mem_internAll.mpr (Or.inr (List.mem_filterMap.mpr ⟨piece, h hpiece, hx⟩))

theorem exists_write_of_part (h : u <:+: t) :
    ∃ before after, t.write n = before ++ u.write n ++ after := by
  obtain ⟨before, after, rfl⟩ := h
  exact ⟨write n before, write n after, by simp [String.append_assoc]⟩

theorem subset_join {between : String} {ts : List Template} (h : u ∈ ts) :
    u ⊆ join between ts := by
  induction ts with
  | nil => cases h
  | cons t ts ih =>
    cases ts with
    | nil =>
      obtain rfl := List.mem_singleton.mp h
      exact List.Subset.refl _
    | cons t' ts =>
      show u ⊆ t ++ .text between :: join between (t' :: ts)
      rcases List.mem_cons.mp h with rfl | h
      · exact List.subset_append_left _ _
      · exact List.subset_append_of_subset_right _ (List.subset_cons_of_subset _ (ih h))

/-- Conditions leave no trace in the text. -/
theorem write_demands (h : ∀ piece ∈ t, ∃ check, piece = .demand check) : t.write n = "" := by
  induction t with
  | nil => rfl
  | cons piece t ih =>
    obtain ⟨⟨check, rfl⟩, hrest⟩ := List.forall_mem_cons.mp h
    rw [write, ih hrest]
    rfl

end Template

/-! ## Clauses and modifiers -/

/-- Modifiers of one group are kept or left out together. -/
theorem Modifier.filter_group {xs : List Modifier} {g : Group} (h : ∀ m ∈ xs, m.group = g)
    (g' : Group) : xs.filter (·.group == g') = if g = g' then xs else [] := by
  split_ifs with hg
  · exact List.filter_eq_self.mpr fun m hm => by simp [h m hm, hg]
  · exact List.filter_eq_nil_iff.mpr fun m hm => by simp [h m hm, hg]

namespace Clauses

variable {c : Clauses} {u : Template} {n : Scalar → Nat}

theorem args_subset (h : u ∈ c.args) : u ⊆ c.template := by
  have hne : c.args.isEmpty = false := List.isEmpty_eq_false_iff.mpr (List.ne_nil_of_mem h)
  intro piece hpiece
  simp [Clauses.template, hne, Template.parenthesized, Template.subset_join h hpiece]

theorem directives_subset (h : u ∈ c.directives) : u ⊆ c.template := by
  intro piece hpiece
  refine List.mem_append_right _ (List.mem_flatMap.mpr ⟨u, h, ?_⟩)
  exact List.mem_cons_of_mem _ hpiece

theorem write_template : c.template.write n =
    (if (c.args.map (Template.write n)).isEmpty then ""
      else " (" ++ ", ".intercalate (c.args.map (Template.write n)) ++ ")") ++
      (c.directives.map (Template.write n)).foldr (fun d rest => " " ++ d ++ rest) "" := by
  have hdirectives : ∀ ds : List Template,
      Template.write n (ds.flatMap fun d => .text " " :: d) =
        (ds.map (Template.write n)).foldr (fun d rest => " " ++ d ++ rest) "" := by
    intro ds
    induction ds with
    | nil => rfl
    | cons d ds ih =>
      rw [List.flatMap_cons, Template.write_append, ih]
      rfl
  rw [Clauses.template, Template.write_append, hdirectives]
  cases c.args with
  | nil => rfl
  | cons u us =>
    have hopening : " (" = " " ++ "(" := rfl
    simp [Template.parenthesized, Template.write, Template.write_join, Piece.write,
      String.append_assoc]
    rw [hopening, String.append_assoc]

end Clauses

/-! ## Fields in the tree of a selection -/

/-- The field, with the selection below it, is in the selection, and stands below the other fields
from the outermost to the innermost. -/
inductive Selection.Reaches : Selection → List Field → Field → Selection → Prop where
  | here {f : Field} {children rest : Selection} : Reaches (.cons f children rest) [] f children
  | behind {f g : Field} {children rest below : Selection} {above : List Field}
    (h : Reaches rest above g below) : Reaches (.cons f children rest) above g below
  | beneath {f g : Field} {children rest below : Selection} {above : List Field}
    (h : Reaches children above g below) : Reaches (.cons f children rest) (f :: above) g below

namespace Path

/-- The path that leads through the fields. -/
def through (fields : List Field) : Path := "/".intercalate (fields.map Field.name)

/-- The path of the last of several fields, each below the one before it. -/
def descend (parent : Path) (fields : List Field) : Path :=
  fields.foldl (fun path f => path.child f.name) parent

theorem descend_eq {parent : Path} {fields : List Field} (h : parent ≠ root) :
    parent.descend fields = "/".intercalate (parent :: fields.map Field.name) := by
  induction fields generalizing parent with
  | nil => simp [descend]
  | cons f fields ih =>
    have hchild : parent.child f.name = parent ++ "/" ++ f.name := if_neg h
    have hne : parent.child f.name ≠ root := by
      rw [hchild]
      simp [root]
    show (parent.child f.name).descend fields = _
    rw [ih hne, hchild]
    cases fields with
    | nil => simp
    | cons g fields => simp [String.intercalate_cons_of_ne_nil, String.append_assoc]

theorem through_eq_descend {fields : List Field} (h : ∀ f ∈ fields.head?, f.name ≠ root) :
    through fields = root.descend fields := by
  cases fields with
  | nil => rfl
  | cons f fields =>
    show _ = (root.child f.name).descend fields
    rw [show root.child f.name = f.name from if_pos rfl, descend_eq (h f rfl)]
    rfl

end Path

variable {ms : Modifiers} {path parent : Path} {f : Field} {above : List Field}
  {s children rest below : Selection}

/-- The template of the selection below a field, unless the field selects no nodes. -/
def Field.block (ms : Modifiers) (path : Path) (f : Field) (children : Selection) : Template :=
  if !ms.hasAggregate path && (f.isObject || !children.isEmpty) then
    .text " " :: Selection.braced (children.fields ms path)
  else []

/-- The template of a field with the selection below it. -/
def Field.rendering (ms : Modifiers) (path : Path) (f : Field) (children : Selection) : Template :=
  f.template ms path ++ f.block ms path children

namespace Selection

theorem fields_cons (h : f.isSelector = false) : (cons f children rest).fields ms parent =
    .text " " :: f.rendering ms (parent.child f.name) children ++ rest.fields ms parent := by
  simp [fields, h, Field.rendering, Field.block]

/-- What is below a field stands in its braces. -/
theorem fields_part_of_rendering (hagg : ms.hasAggregate path = false)
    (hchildren : children.isEmpty = false) :
    children.fields ms path <:+: f.rendering ms path children := by
  refine ⟨f.template ms path ++ [.text " ", .text "\x7b"],
    [.text (" " ++ Field.selectorName ++ " \x7d")], ?_⟩
  simp [Field.rendering, Field.block, hagg, hchildren, braced]

theorem Reaches.isEmpty (h : s.Reaches above f below) : s.isEmpty = false := by
  cases h <;> rfl

/-- The template of a field stands among those of the selection that it is in. -/
theorem Reaches.rendering_part (h : s.Reaches above f below)
    (hselector : ∀ g ∈ above ++ [f], g.isSelector = false)
    (hagg : ∀ outer g inner, above = outer ++ g :: inner →
      ms.hasAggregate (parent.descend (outer ++ [g])) = false) :
    .text " " :: f.rendering ms (parent.descend (above ++ [f])) below <:+:
      s.fields ms parent := by
  induction h generalizing parent with
  | here =>
    rw [fields_cons (hselector _ (List.mem_singleton_self _))]
    exact (List.prefix_append _ _).isInfix
  | @behind f g children rest below above h ih =>
    exact (ih hselector hagg).trans (List.suffix_append _ _).isInfix
  | @beneath f g children rest below above h ih =>
    have hfirst : ms.hasAggregate (parent.child f.name) = false := hagg [] f above rfl
    have hbelow := @ih (parent.child f.name)
      (fun k hk => hselector k (List.mem_cons_of_mem f hk))
      fun outer k inner heq => hagg (f :: outer) k inner (by rw [heq]; rfl)
    have hwhole : f.rendering ms (parent.child f.name) children <:+:
        (cons f children rest).fields ms parent := by
      rw [fields_cons (hselector f List.mem_cons_self)]
      exact ⟨[.text " "], rest.fields ms parent, by simp⟩
    exact hbelow.trans ((fields_part_of_rendering hfirst h.isEmpty).trans hwhole)

/-- The outermost of the fields that lead to a field in a selection that can be written has a
name. -/
theorem Reaches.name_ne (h : s.Reaches above f below)
    (hselector : ∀ g ∈ above ++ [f], g.isSelector = false)
    (hverdict : (s.fields ms parent).verdict = .ok ()) :
    ∀ g ∈ (above ++ [f]).head?, g.name ≠ Path.root := by
  have hfirst : ∀ {g : Field} {children rest : Selection}, g.isSelector = false →
      ((cons g children rest).fields ms parent).verdict = .ok () → g.name ≠ Path.root := by
    intro g children rest hg hall
    exact (Field.acceptable_iff.mpr ((verdict_fields_cons.mp hall).1 hg).1).name_ne
  induction h with
  | here =>
    rintro g ⟨⟩
    exact hfirst (hselector _ (List.mem_singleton_self _)) hverdict
  | behind h ih => exact ih hselector (verdict_fields_cons.mp hverdict).2
  | beneath h ih =>
    rintro g ⟨⟩
    exact hfirst (hselector _ List.mem_cons_self) hverdict

end Selection

/-! ## The clauses of a field -/

namespace Field

/-- The request for facets that a field has under its path or of its own. -/
def requests (ms : Modifiers) (path : Path) (f : Field) : List Modifier :=
  if f.wantsFacets || ms.hasFacets path then [.facets] else []

theorem modifiers_eq : f.modifiers ms path =
    (Modifiers.under path ms.aggregates).map .aggregate ++
      ((Modifiers.under path ms.pages).map .page ++
      ((Modifiers.under path ms.orders).map .order ++
      ((Modifiers.under path ms.filters).map .filter ++ f.requests ms path))) := by
  rw [modifiers, Modifiers.forPath, requests]
  cases ms.hasFacets path <;> cases f.wantsFacets <;> simp

/-- The modifiers of a field are arranged already. -/
theorem arrange_modifiers : Modifier.arrange (f.modifiers ms path) = f.modifiers ms path := by
  have haggregates : ∀ m ∈ (Modifiers.under path ms.aggregates).map Modifier.aggregate,
      m.group = .aggregate := List.forall_mem_map.mpr fun _ _ => rfl
  have hpages : ∀ m ∈ (Modifiers.under path ms.pages).map Modifier.page,
      m.group = .pagination := List.forall_mem_map.mpr fun _ _ => rfl
  have horders : ∀ m ∈ (Modifiers.under path ms.orders).map Modifier.order,
      m.group = .ordering := List.forall_mem_map.mpr fun _ _ => rfl
  have hfilters : ∀ m ∈ (Modifiers.under path ms.filters).map Modifier.filter,
      m.group = .filter := List.forall_mem_map.mpr fun _ _ => rfl
  have hrequests : ∀ m ∈ f.requests ms path, m.group = .facets := by
    unfold requests
    split_ifs <;> simp [Modifier.group]
  simp [modifiers_eq, Modifier.arrange, Group.all, Modifier.filter_group haggregates,
    Modifier.filter_group hpages, Modifier.filter_group horders, Modifier.filter_group hfilters,
    Modifier.filter_group hrequests]

theorem args_eq : (f.clauses ms path).args =
    (Modifiers.under path ms.pages).map Page.template ++
      (Modifiers.under path ms.orders).map OrderBy.template := by
  rw [clauses_eq, Clauses.ofModifiers_eq, arrange_modifiers, modifiers_eq]
  simp only [List.filterMap_append, List.filterMap_map, requests]
  split_ifs <;> simp [Function.comp_def, Modifier.argument?]

/-- The directives of a field are its filters, unless they hold nothing back, and facets. -/
theorem directives_eq : (f.clauses ms path).directives =
    ((Modifiers.under path ms.filters).filter (!·.isEmpty)).map Filter.template ++
      (f.requests ms path).map fun m => [.demand (m.checkTarget f.target), .text "@facets"] := by
  have hfilters : ∀ filters : List Filter,
      filters.filterMap (fun g => (Modifier.filter g).directive? f.target) =
        (filters.filter (!·.isEmpty)).map Filter.template := by
    intro filters
    induction filters with
    | nil => rfl
    | cons g filters ih =>
      cases g with
      | none => exact ih
      | some c => exact congrArg (Filter.template (some c) :: ·) ih
  rw [clauses_eq, Clauses.ofModifiers_eq, arrange_modifiers, modifiers_eq]
  simp only [List.filterMap_append, List.filterMap_map, requests, Function.comp_def, hfilters]
  split_ifs <;> simp [Modifier.directive?]

/-- Under a path with one aggregate a field is written under the name that the aggregate gives
it. -/
theorem head?_of_aggregate {a : Aggregate} (h : (path, a) ∈ ms.aggregates)
    (hunique : (ms.aggregates.map Prod.fst).Nodup) :
    (f.clauses ms path).head? = some (a.head f.target) := by
  have hmem : Modifier.aggregate a ∈ f.modifiers ms path :=
    (mem_modifiers Modifier.noConfusion).mpr (Modifiers.aggregate_mem_forPath.mpr h)
  cases hhead : (f.clauses ms path).head? with
  | none => exact absurd hmem (Clauses.head?_eq_none_iff.mp hhead a)
  | some head =>
    obtain ⟨a', ha', rfl⟩ := Clauses.head?_eq_some hhead
    have h' : (path, a') ∈ ms.aggregates :=
      Modifiers.aggregate_mem_forPath.mp ((mem_modifiers Modifier.noConfusion).mp ha')
    obtain ⟨-, rfl⟩ := Prod.mk.inj (List.inj_on_of_nodup_map hunique h h' rfl)
    rfl

end Field

/-- In a query there is at most one aggregate for each path. -/
theorem Query.Built.nodup_aggregates {q : Query} (h : q.Built) :
    (q.modifiers.aggregates.map Prod.fst).Nodup := by
  induction h with
  | empty | emptyMutation => exact List.nodup_nil
  | @apply q s _ ih =>
    cases s with
    | mutate kind payload => cases payload <;> exact ih
    | name name | root c | select fields | direct d | standalone isStandalone => exact ih
    | modify path m =>
      cases m with
      | page p | order o | filter g | facets => exact ih
      | aggregate a =>
        show ((Modifiers.put path a q.modifiers.aggregates).map Prod.fst).Nodup
        have hrest : ((q.modifiers.aggregates.filter (·.1 != path)).map Prod.fst).Nodup :=
          ih.sublist (List.filter_sublist.map _)
        rw [Modifiers.put, List.map_append]
        refine List.nodup_append.mpr ⟨hrest, List.nodup_singleton _, ?_⟩
        rintro other hother _ hpath rfl
        obtain ⟨e, he, rfl⟩ := List.mem_map.mp hother
        have hne : e.1 ≠ path := by simpa using (List.mem_filter.mp he).2
        exact hne (List.mem_singleton.mp hpath)

/-! ## The text of a field -/

/-- The text of a field with the selection below it, in parts. -/
structure FieldText where
  head : String
  args : List String
  directives : List String
  block : String

/-- The parts one after the other. -/
def FieldText.text (x : FieldText) : String :=
  x.head ++ (if x.args.isEmpty then "" else " (" ++ ", ".intercalate x.args ++ ")") ++
    x.directives.foldr (fun d rest => " " ++ d ++ rest) "" ++ x.block

namespace Field

variable {n : Scalar → Nat}

/-- The text of a field when the scalars have the given numbers. -/
def written (n : Scalar → Nat) (ms : Modifiers) (path : Path) (f : Field) (children : Selection) :
    FieldText where
  head := (f.clauses ms path).head?.getD f.label
  args := (f.clauses ms path).args.map (Template.write n)
  directives := (f.clauses ms path).directives.map (Template.write n)
  block := (f.block ms path children).write n

theorem write_rendering :
    (f.rendering ms path children).write n = (f.written n ms path children).text := by
  have hdemands : Template.write n (f.clauses ms path).demands = "" :=
    Template.write_demands fun _ => Clauses.mem_demands
  rw [rendering, Template.write_append, FieldText.text, written]
  congr 1
  cases h : (f.clauses ms path).head? with
  | none =>
    rw [template_of_no_head h]
    simp [Template.write, Piece.write, hdemands, Clauses.write_template, String.append_assoc]
  | some head =>
    rw [template_of_head h]
    simp [Template.write, Piece.write, hdemands, Clauses.write_template, String.append_assoc]

/-- How the text of a field with the given path is made up of the fragments of its modifiers. -/
structure Shows (ms : Modifiers) (path : Path) (f : Field) (below : Selection) (p : Parameters)
    (x : FieldText) : Prop where
  /-- The parts are all that is written of the field. -/
  text : Template.Yields p (f.rendering ms path below) x.text
  /-- The aggregate under the path is the head. -/
  aggregate : ∀ a, (path, a) ∈ ms.aggregates → x.head = a.head f.target
  label : ms.hasAggregate path = false → x.head = f.label
  /-- The windows and then the orders under the path are the arguments, as they were added. -/
  args : List.Forall₂ (Template.Yields p)
    ((Modifiers.under path ms.pages).map Page.template ++
      (Modifiers.under path ms.orders).map OrderBy.template) x.args
  /-- The filters under the path that hold something back are the directives, and facets come
  behind them if they are asked for. -/
  directives : ∃ filters,
    List.Forall₂ (Template.Yields p)
      (((Modifiers.under path ms.filters).filter (!·.isEmpty)).map Filter.template) filters ∧
    x.directives = filters ++ if f.wantsFacets || ms.hasFacets path then ["@facets"] else []

theorem clauses_subset : (f.clauses ms path).template ⊆ f.template ms path := by
  intro piece hpiece
  cases h : (f.clauses ms path).head? with
  | none => simp [template_of_no_head h, hpiece]
  | some head => simp [template_of_head h, hpiece]

/-- A field whose template is part of one that can be written shows its modifiers. -/
theorem shows {t : Template} (h : f.rendering ms path below ⊆ t) (hverdict : t.verdict = .ok ())
    (hunique : (ms.aggregates.map Prod.fst).Nodup) :
    f.Shows ms path below (.internAll .empty t.scalars)
      (f.written (Parameters.internAll .empty t.scalars).number ms path below) := by
  have hclauses : (f.clauses ms path).template ⊆ t := fun _ hpiece =>
    h (List.mem_append_left _ (clauses_subset hpiece))
  have hyields : ∀ us : List Template, (∀ u ∈ us, u ⊆ t) →
      List.Forall₂ (Template.Yields (.internAll .empty t.scalars)) us
        (us.map (Template.write (Parameters.internAll .empty t.scalars).number)) := by
    intro us hus
    rw [List.forall₂_map_right_iff, List.forall₂_same]
    exact fun u hu => Template.yields_of_subset (hus u hu) hverdict
  exact {
    text := write_rendering ▸ Template.yields_of_subset h hverdict
    aggregate := by
      intro a ha
      rw [written, head?_of_aggregate ha hunique]
      rfl
    label := by
      intro hnone
      rw [written, head?_eq_none_iff.mpr hnone]
      rfl
    args := by
      rw [← args_eq (f := f)]
      exact hyields _ fun u hu => List.Subset.trans (Clauses.args_subset hu) hclauses
    directives := by
      refine ⟨_, hyields _ fun u hu => ?_, ?_⟩
      · refine List.Subset.trans (Clauses.directives_subset (c := f.clauses ms path) ?_) hclauses
        rw [directives_eq]
        exact List.mem_append_left _ hu
      · rw [written, directives_eq, List.map_append, requests]
        split_ifs <;> simp [Template.write, Piece.write] }

end Field

/-! ## The text of a query -/

namespace Query

variable {q : Query}

/-- The selection of a query is part of its block. -/
theorem fields_part_of_block : q.selection.fields q.modifiers .root <:+: q.block := by
  have hselection : q.selection.fields q.modifiers .root <:+:
      q.selection.template q.modifiers .root :=
    ⟨[.text "\x7b"], [.text (" " ++ Field.selectorName ++ " \x7d")], by
      simp [Selection.template, Selection.braced]⟩
  have hblock : q.selection.template q.modifiers .root <:+: q.block :=
    (List.suffix_cons (.text " ") _).isInfix.trans (List.suffix_append _ _).isInfix
  exact hselection.trans hblock

/-- The block of a query stands in its statement, whether or not there is something around it. -/
theorem exists_statement_text : ∃ before after, q.statement.text = before ++ q.text ++ after := by
  unfold statement Statement.wrap
  split_ifs
  · exact ⟨_, _, rfl⟩
  · exact ⟨_, _, rfl⟩
  · exact ⟨"", "", by simp⟩

/-- The fields of a query that compiles can be written. -/
theorem verdict_fields_of_compile {st : Statement} (hq : q.operation = .query)
    (hcompile : q.compile = .ok st) : (q.selection.fields q.modifiers .root).verdict = .ok () := by
  obtain ⟨-, hverdict, -⟩ := (compile_eq_ok_iff hq).mp hcompile
  exact (verdict_block.mp hverdict).2.2.2.2

/-- What stands behind a space in the selection of a query does so in its statement. -/
theorem exists_text_of_part {t : Template}
    (h : .text " " :: t <:+: q.selection.fields q.modifiers .root) :
    ∃ before after, q.statement.text = before ++ " " ++ t.write q.parameters.number ++ after := by
  obtain ⟨before, after, hstatement⟩ := q.exists_statement_text
  obtain ⟨first, last, hblock⟩ := Template.exists_write_of_part (n := q.parameters.number)
    (h.trans fields_part_of_block)
  refine ⟨before ++ first, last ++ after, ?_⟩
  rw [hstatement, text, hblock, Template.write]
  simp only [Piece.write, String.append_assoc]

/-- In the statement of a query stands the text of every field without an aggregate above it, and
in this the fragments of all its modifiers.  Selectors, and what is below them, are left out. -/
theorem modifiers_written {st : Statement} (hbuilt : q.Built) (hq : q.operation = .query)
    (hcompile : q.compile = .ok st) (hreaches : q.selection.Reaches above f below)
    (hselector : ∀ g ∈ above ++ [f], g.isSelector = false)
    (hagg : ∀ outer g inner, above = outer ++ g :: inner →
      q.modifiers.hasAggregate (.through (outer ++ [g])) = false) :
    ∃ (p : Parameters) (x : FieldText) (before after : String), p.bindings = st.bindings ∧
      st.text = before ++ " " ++ x.text ++ after ∧
      f.Shows q.modifiers (.through (above ++ [f])) below p x := by
  have hnamed := hreaches.name_ne hselector (verdict_fields_of_compile hq hcompile)
  obtain ⟨-, hverdict, rfl⟩ := (compile_eq_ok_iff hq).mp hcompile
  have hdescend : ∀ outer g inner, above = outer ++ g :: inner →
      q.modifiers.hasAggregate (Path.root.descend (outer ++ [g])) = false := by
    intro outer g inner heq
    have hhead : (outer ++ [g]).head? = (above ++ [f]).head? := by
      rw [heq]
      cases outer <;> rfl
    rw [← Path.through_eq_descend (hhead ▸ hnamed)]
    exact hagg outer g inner heq
  have hpart := hreaches.rendering_part hselector hdescend
  rw [← Path.through_eq_descend hnamed] at hpart
  obtain ⟨before, after, htext⟩ := exists_text_of_part hpart
  refine ⟨q.parameters, f.written q.parameters.number q.modifiers (.through (above ++ [f])) below,
    before, after, rfl, htext.trans (by rw [Field.write_rendering]), ?_⟩
  refine Field.shows ?_ hverdict hbuilt.nodup_aggregates
  exact List.Subset.trans (List.subset_cons_self _ _) (hpart.trans fields_part_of_block).subset

/-- The bosses of pals that have an address, by age. -/
def bosses : Query :=
  build .empty
    [.root (.has "name"),
      .select (.single { name := "pal" } (.single { name := "boss", isObject := true })),
      .modify "pal/boss" (.order ⟨.ascending, "age"⟩),
      .modify "pal/boss" (.filter (.ofCall (.has "email"))), .modify "pal/boss" .facets]

theorem modifiers_written_bosses :
    let text := "\x7b q(func: has(<name>)) \x7b pal \x7b boss (orderasc: age) " ++
      "@filter(has(<email>)) @facets \x7b uid \x7d uid \x7d uid \x7d \x7d"
    bosses.compile = .ok ⟨.query, text, []⟩ ∧
      ∃ (p : Parameters) (x : FieldText) (before after : String), p.bindings = [] ∧
        text = before ++ " " ++ x.text ++ after ∧
        Field.Shows bosses.modifiers "pal/boss" { name := "boss", isObject := true } .nil p x := by
  intro text
  have hcompile : bosses.compile = .ok ⟨.query, text, []⟩ := by
    cbv
  exact ⟨hcompile, modifiers_written (Built.build .empty _) rfl hcompile (.beneath .here)
    (by decide) fun _ _ _ _ => rfl⟩

/-- The nodes with a name, counted. -/
def countedSelector : Query :=
  build .empty
    [.root (.has "name"), .select (.single { name := "uid" }),
      .modify "uid" (.aggregate ⟨.count, some "total"⟩)]

/-- The aggregate that is registered for the selector is not in the text. -/
theorem counted_selector_is_lost :
    countedSelector.Built ∧ countedSelector.operation = .query ∧
      countedSelector.selection.Reaches [] { name := "uid" } .nil ∧
      (Path.through [{ name := "uid" }], ⟨.count, some "total"⟩) ∈
        countedSelector.modifiers.aggregates ∧
      ∃ st, countedSelector.compile = .ok st ∧
        ¬∃ before after, st.text = before ++
          Aggregate.head ⟨.count, some "total"⟩ (Field.target { name := "uid" }) ++ after := by
  have hcompile : countedSelector.compile =
      .ok ⟨.query, "\x7b q(func: has(<name>)) \x7b uid \x7d \x7d", []⟩ := by
    cbv
  refine ⟨Built.build .empty _, rfl, .here, List.mem_singleton_self _, _, hcompile, ?_⟩
  rintro ⟨before, after, htext⟩
  have hletters := congrArg String.toList htext
  have hmem : 't' ∈ "\x7b q(func: has(<name>)) \x7b uid \x7d \x7d".toList := by
    rw [show "\x7b q(func: has(<name>)) \x7b uid \x7d \x7d".toList = _ from hletters]
    simp [Aggregate.head, Aggregate.key]
  exact absurd hmem (by decide)

end Query

end GraphQuery
