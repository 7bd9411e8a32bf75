import GraphQuery.Proofs.Fragments
import GraphQuery.Proofs.Unambiguous

/-!
# What the paths of modifiers address

Modifiers are looked up under the path of a field, and a path is a text: the
names from the root to the field with slashes between them.  In a query that
compiles this is as good as the list of names.  `Query.paths_address` says so
in three ways.

* Two fields have their modifiers under one path only if the same names lead
  to them, and no field has the path of the root block.
* What is registered under any other path has no effect (`fields_congr`: a
  selection is written with what is found under the paths of its fields).
* Neither has what stands below an aggregated field (`Regrown.fields_eq`).

`Selection.Reached` says which fields these are, by the same recursion by which
a selection is written.  Unlike `Selection.Rendered` it keeps the fields on the
way, and it does not leave out selectors.
-/

namespace GraphQuery

/-! ## Fields and their paths -/

/-- The fields lead to the last of them, each below the one before it and none but the last
aggregated; modifiers of the last one are registered under the path. -/
inductive Selection.Reached (ms : Modifiers) : Path → Selection → List Field → Path → Prop where
  | here {parent : Path} {f : Field} {children rest : Selection} :
    Reached ms parent (.cons f children rest) [f] (parent.child f.name)
  | behind {parent path : Path} {f : Field} {children rest : Selection} {way : List Field}
    (h : Reached ms parent rest way path) : Reached ms parent (.cons f children rest) way path
  | beneath {parent path : Path} {f : Field} {children rest : Selection} {way : List Field}
    (hagg : ms.hasAggregate (parent.child f.name) = false)
    (h : Reached ms (parent.child f.name) children way path) :
    Reached ms parent (.cons f children rest) (f :: way) path

/-- The second selection is the first with another selection below one aggregated field, above
which no field is aggregated. -/
inductive Selection.Regrown (ms : Modifiers) : Path → Selection → Selection → Prop where
  | here {parent : Path} {f : Field} {children children' rest : Selection}
    (hagg : ms.hasAggregate (parent.child f.name) = true) :
    Regrown ms parent (.cons f children rest) (.cons f children' rest)
  | behind {parent : Path} {f : Field} {children rest rest' : Selection}
    (h : Regrown ms parent rest rest') :
    Regrown ms parent (.cons f children rest) (.cons f children rest')
  | beneath {parent : Path} {f : Field} {children children' rest : Selection}
    (hagg : ms.hasAggregate (parent.child f.name) = false)
    (h : Regrown ms (parent.child f.name) children children') :
    Regrown ms parent (.cons f children rest) (.cons f children' rest)

namespace Selection

variable {ms ms' : Modifiers} {parent path : Path} {s s' : Selection} {f : Field}
  {above way : List Field}

theorem Reached.ne_nil (h : Reached ms parent s way path) : way ≠ [] := by
  induction h with
  | here | beneath => exact List.cons_ne_nil _ _
  | behind _ ih => exact ih

/-- The path of a field is made of the names on the way. -/
theorem Reached.path_eq (h : Reached ms parent s way path) : path = parent.descend way := by
  induction h with
  | here => rfl
  | behind _ ih => exact ih
  | beneath _ _ ih => exact ih

/-- A field that is reached without a selector on the way is written. -/
theorem Reached.rendered (h : Reached ms parent s (above ++ [f]) path)
    (hselector : ∀ g ∈ above ++ [f], g.isSelector = false) : Rendered ms parent s path f := by
  generalize hway : above ++ [f] = way at h
  induction h generalizing above with
  | here =>
    obtain ⟨rfl, rfl⟩ : above = [] ∧ f = _ := by simpa using List.append_eq_singleton_iff.mp hway
    exact .here (hselector _ (List.mem_singleton_self _))
  | behind _ ih => exact .behind (ih hselector hway)
  | @beneath parent path g children rest way hagg h ih =>
    cases above with
    | nil =>
      obtain ⟨-, rfl⟩ := List.cons.inj hway
      exact absurd rfl h.ne_nil
    | cons g' above =>
      obtain ⟨rfl, rfl⟩ := List.cons.inj hway
      obtain ⟨hg, hrest⟩ := List.forall_mem_cons.mp hselector
      exact .beneath hg hagg (ih hrest rfl)

/-- A field that is written is reached without a selector on the way. -/
theorem Rendered.exists_reached (h : Rendered ms parent s path f) : ∃ above,
    Reached ms parent s (above ++ [f]) path ∧ ∀ g ∈ above ++ [f], g.isSelector = false := by
  induction h with
  | @here parent f children rest h => exact ⟨[], .here, by simpa using h⟩
  | @beneath parent path f g children rest h hagg _ ih =>
    obtain ⟨above, hreached, hselector⟩ := ih
    exact ⟨f :: above, .beneath hagg hreached, List.forall_mem_cons.mpr ⟨h, hselector⟩⟩
  | behind _ ih =>
    obtain ⟨above, hreached, hselector⟩ := ih
    exact ⟨above, .behind hreached, hselector⟩

/-- The template of a field that is written stands among those of the selection, behind a
space. -/
theorem Rendered.template_part (h : Rendered ms parent s path f) :
    .text " " :: f.template ms path <:+: s.fields ms parent := by
  induction h with
  | @here parent f children rest h =>
    rw [fields_cons h, Field.rendering]
    exact ⟨[], f.block ms (parent.child f.name) children ++ rest.fields ms parent, by simp⟩
  | @beneath parent path f g children rest h hagg hg ih =>
    have hchildren : children.isEmpty = false := by
      cases hg <;> rfl
    have hwhole : f.rendering ms (parent.child f.name) children <:+:
        (cons f children rest).fields ms parent := by
      rw [fields_cons h]
      exact ⟨[.text " "], rest.fields ms parent, by simp⟩
    exact ih.trans ((fields_part_of_rendering hagg hchildren).trans hwhole)
  | behind _ ih => exact ih.trans (List.suffix_append _ _).isInfix

/-- The names on the way to a field are usable if the selection can be written. -/
theorem Reached.checkName (h : Reached ms parent s way path)
    (hselector : ∀ g ∈ way, g.isSelector = false)
    (hverdict : (s.fields ms parent).verdict = .ok ()) : ∀ g ∈ way, g.checkName = .ok () := by
  induction h with
  | here =>
    rintro g hg
    obtain rfl := List.mem_singleton.mp hg
    exact (Field.verdict_template.mp ((verdict_fields_cons.mp hverdict).1
      (hselector g hg)).1).1
  | behind _ ih => exact ih hselector (verdict_fields_cons.mp hverdict).2
  | beneath hagg _ ih =>
    obtain ⟨hfirst, hrest⟩ := List.forall_mem_cons.mp hselector
    obtain ⟨hfield, hchildren⟩ := (verdict_fields_cons.mp hverdict).1 hfirst
    exact List.forall_mem_cons.mpr ⟨(Field.verdict_template.mp hfield).1, ih hrest (hchildren hagg)⟩

/-- In a selection that can be written, the path of a field tells the names on the way to it. -/
theorem Reached.path_eq_through (h : Reached ms .root s way path)
    (hname : ∀ g ∈ way, g.checkName = .ok ()) : path = .through way := by
  rw [h.path_eq, Path.through_eq_descend]
  intro g hg
  exact (Field.checkName_eq_ok_iff.mp (hname g (List.mem_of_mem_head? hg))).1

end Selection

namespace Path

variable {fields fields' : List Field}

theorem separator_not_mem {f : Field} (h : f.checkName = .ok ()) :
    separator ∉ f.name.toList :=
  Name.not_mem_of_checkPredicate (by decide) (Field.checkName_eq_ok_iff.mp h).2

/-- The path through fields with usable names is not that of the root block. -/
theorem through_ne_root (h : ∀ f ∈ fields, f.checkName = .ok ()) (hne : fields ≠ []) :
    through fields ≠ root := by
  cases fields with
  | nil => exact absurd rfl hne
  | cons f fields =>
    have hname : f.name ≠ "" := (Field.checkName_eq_ok_iff.mp (h f List.mem_cons_self)).1
    cases fields with
    | nil => simpa [through, root] using hname
    | cons g fields => simp [through, root, String.intercalate_cons_cons, hname]

/-- Only the same names make the same path. -/
theorem names_eq_of_through_eq (h : ∀ f ∈ fields, f.checkName = .ok ())
    (h' : ∀ f ∈ fields', f.checkName = .ok ()) (hne : fields ≠ []) (hne' : fields' ≠ [])
    (heq : through fields = through fields') : fields.map Field.name = fields'.map Field.name := by
  refine eq_of_intercalate_eq (c := separator) rfl ?_ ?_ (by simpa using hne) (by simpa using hne')
    heq
  · exact List.forall_mem_map.mpr fun f hf => separator_not_mem (h f hf)
  · exact List.forall_mem_map.mpr fun f hf => separator_not_mem (h' f hf)

end Path

/-! ## Registering a modifier -/

namespace Modifiers

variable {α : Type} {path other : Path} {entries : List (Path × α)} {a : α} {ms ms' : Modifiers}
  {m : Modifier}

@[simp] theorem under_append {entries' : List (Path × α)} :
    under path (entries ++ entries') = under path entries ++ under path entries' :=
  List.filterMap_append

@[simp] theorem under_singleton_self : under path [(path, a)] = [a] := by
  simp [under]

theorem under_singleton_of_ne (h : other ≠ path) : under path [(other, a)] = [] := by
  simp [under, h]

theorem under_filter_self : under path (entries.filter (·.1 != path)) = [] := by
  simp [under, List.filterMap_eq_nil_iff]

theorem under_filter_of_ne (h : other ≠ path) :
    under path (entries.filter (·.1 != other)) = under path entries := by
  simp only [under, List.filterMap_filter]
  refine List.filterMap_congr fun e _ => ?_
  by_cases he : e.1 = path
  · simp [he, h.symm]
  · simp [he]

/-- A value that is put under a path is the only one there. -/
theorem under_put_self : under path (put path a entries) = [a] := by
  simp [put, under_filter_self]

theorem under_put_of_ne (h : other ≠ path) :
    under path (put other a entries) = under path entries := by
  simp [put, under_filter_of_ne h, under_singleton_of_ne h]

theorem under_concat_of_ne (h : other ≠ path) :
    under path (entries ++ [(other, a)]) = under path entries := by
  simp [under_singleton_of_ne h]

theorem contains_concat_of_ne {paths : List Path} (h : other ≠ path) :
    (paths.filter (· != other) ++ [other]).contains path = paths.contains path := by
  simp [h.symm]

/-- The modifiers under a path are those of each kind. -/
theorem forPath_congr (haggregates : under path ms'.aggregates = under path ms.aggregates)
    (hpages : under path ms'.pages = under path ms.pages)
    (horders : under path ms'.orders = under path ms.orders)
    (hfilters : under path ms'.filters = under path ms.filters)
    (hfacets : ms'.hasFacets path = ms.hasFacets path) : ms'.forPath path = ms.forPath path := by
  rw [forPath, forPath, haggregates, hpages, horders, hfilters, hfacets]

/-- A modifier is not found under another path than its own. -/
theorem forPath_add_of_ne (h : other ≠ path) : (ms.add other m).forPath path = ms.forPath path := by
  cases m with
  | aggregate a => exact forPath_congr (under_put_of_ne h) rfl rfl rfl rfl
  | page p => exact forPath_congr rfl (under_concat_of_ne h) rfl rfl rfl
  | order o => exact forPath_congr rfl rfl (under_concat_of_ne h) rfl rfl
  | filter f => exact forPath_congr rfl rfl rfl (under_put_of_ne h) rfl
  | facets => exact forPath_congr rfl rfl rfl rfl (contains_concat_of_ne h)

/-- Filters still pass their check when one that does is registered. -/
theorem checkFilters_add (h : ms.checkFilters = .ok ())
    (hm : ∀ f, m = .filter f → f.check = .ok ()) : (ms.add path m).checkFilters = .ok () := by
  cases m with
  | aggregate | page | order | facets => exact h
  | filter f =>
    rw [checkFilters_eq_ok_iff] at h ⊢
    intro other g hg
    rcases List.mem_append.mp hg with hg | hg
    · exact h other g (List.mem_filter.mp hg).1
    · obtain ⟨-, rfl⟩ := Prod.mk.inj (List.mem_singleton.mp hg)
      exact hm g rfl

theorem hasFacets_congr (h : ms'.forPath path = ms.forPath path) :
    ms'.hasFacets path = ms.hasFacets path := by
  rw [Bool.eq_iff_iff, ← facets_mem_forPath, ← facets_mem_forPath, h]

theorem hasAggregate_congr (h : ms'.forPath path = ms.forPath path) :
    ms'.hasAggregate path = ms.hasAggregate path := by
  rw [Bool.eq_iff_iff, hasAggregate_iff, hasAggregate_iff]
  simp only [← aggregate_mem_forPath, h]

end Modifiers

/-! ## What a selection depends on -/

theorem Field.template_congr {ms ms' : Modifiers} {path : Path} {f : Field}
    (h : ms'.forPath path = ms.forPath path) : f.template ms' path = f.template ms path := by
  simp only [template, clauses, h, Modifiers.hasFacets_congr h]

namespace Selection

variable {ms ms' : Modifiers} {parent : Path} {s s' : Selection} {f : Field}
  {children rest : Selection}

theorem fields_cons_of_selector (h : f.isSelector = true) :
    (cons f children rest).fields ms parent = rest.fields ms parent := by
  simp [fields, h]

/-- A selection is written with the modifiers that are found under the paths of its fields. -/
theorem fields_congr
    (h : ∀ path f, Rendered ms parent s path f → ms'.forPath path = ms.forPath path) :
    s.fields ms' parent = s.fields ms parent := by
  induction s generalizing parent with
  | nil => rfl
  | cons f children rest ihchildren ihrest =>
    have hrest := ihrest fun path g hg => h path g (.behind hg)
    cases hselector : f.isSelector with
    | true => rw [fields_cons_of_selector hselector, fields_cons_of_selector hselector, hrest]
    | false =>
      have hfield := h _ _ (.here hselector)
      rw [fields_cons hselector, fields_cons hselector, hrest]
      simp only [Field.rendering, Field.block, Field.template_congr hfield,
        Modifiers.hasAggregate_congr hfield]
      cases hagg : ms.hasAggregate (parent.child f.name) with
      | true => rfl
      | false => rw [ihchildren fun path g hg => h path g (.beneath hselector hagg hg)]

/-- What stands below an aggregated field is not written. -/
theorem Regrown.fields_eq (h : Regrown ms parent s s') :
    s'.fields ms parent = s.fields ms parent := by
  induction h with
  | here hagg => simp [fields, hagg]
  | behind _ ih => simp [fields, ih]
  | beneath _ h ih =>
    have hempty : ∀ {parent : Path} {s s' : Selection}, Regrown ms parent s s' →
        s'.isEmpty = s.isEmpty := by
      intro parent s s' h
      cases h <;> rfl
    simp [fields, ih, hempty h]

end Selection

/-! ## Compiling queries that differ a little -/

namespace Query

variable {q r : Query}

/-- The block of a query depends on the modifiers of the root block and those of the fields that are
written. -/
theorem block_congr (hname : r.name = q.name) (hroot : r.root? = q.root?)
    (hdirectives : r.directives = q.directives)
    (hmodifiers : r.modifiers.forPath .root = q.modifiers.forPath .root)
    (hselection : r.selection.fields r.modifiers .root = q.selection.fields q.modifiers .root) :
    r.block = q.block := by
  simp only [block, rootTemplate, target, Selection.template, hname, hroot, hdirectives, hmodifiers,
    hselection]

theorem queryStatement_congr (hblock : r.block = q.block) (hname : r.name = q.name)
    (hstandalone : r.isStandalone = q.isStandalone) : r.queryStatement = q.queryStatement := by
  simp only [queryStatement, hblock, hname, hstandalone]

theorem compile_congr (hcheck : r.check = q.check) (hoperation : r.operation = q.operation)
    (hquery : r.queryStatement = q.queryStatement)
    (hmutation : r.mutationStatement = q.mutationStatement) : r.compile = q.compile := by
  simp only [compile, hcheck, hoperation, hquery, hmutation]

/-- Registering a modifier where no field is written changes nothing. -/
theorem compile_modify {path : Path} {m : Modifier} (hq : q.operation = .query)
    (hcheck : q.check = .ok ()) (hroot : path ≠ .root)
    (hpath : ∀ other f, q.selection.Rendered q.modifiers .root other f → path ≠ other)
    (hm : ∀ f, m = .filter f → f.check = .ok ()) :
    (q.apply (.modify path m)).compile = q.compile := by
  have hpassed : (q.apply (.modify path m)).check = .ok () := by
    obtain ⟨herror, hname, hfunction, hfilters⟩ := (check_eq_ok_iff hq).mp hcheck
    exact (check_eq_ok_iff (q := q.apply (.modify path m)) hq).mpr
      ⟨herror, hname, hfunction, Modifiers.checkFilters_add hfilters hm⟩
  have hblock : (q.apply (.modify path m)).block = q.block :=
    block_congr rfl rfl rfl (Modifiers.forPath_add_of_ne hroot)
      (Selection.fields_congr fun other f hf => Modifiers.forPath_add_of_ne (hpath other f hf))
  exact compile_congr (hpassed.trans hcheck.symm) rfl (queryStatement_congr hblock rfl rfl) rfl

/-- Exchanging what stands below an aggregated field changes nothing. -/
theorem compile_regrown {s : Selection}
    (h : Selection.Regrown q.modifiers .root q.selection s) :
    compile { q with selection := s } = q.compile := by
  have hblock : block { q with selection := s } = q.block :=
    block_congr rfl rfl rfl rfl h.fields_eq
  exact compile_congr rfl rfl (queryStatement_congr hblock rfl rfl) rfl

theorem template_part_of_block {path : Path} {f : Field}
    (h : q.selection.Rendered q.modifiers .root path f) :
    f.template q.modifiers path <:+: q.block :=
  (List.suffix_cons _ _).isInfix.trans (h.template_part.trans fields_part_of_block)

/-- In a query that compiles, the path of a field that is written is the names on the way to it with
slashes between them, different ones for different names and never that of the root block.  Under
any other path modifiers have no effect, and neither have the fields below an aggregated one. -/
theorem paths_address {st : Statement} (hq : q.operation = .query) (hcompile : q.compile = .ok st) :
    (∀ above f path, q.selection.Reached q.modifiers .root (above ++ [f]) path →
      (∀ g ∈ above ++ [f], g.isSelector = false) →
        f.template q.modifiers path <:+: q.block ∧ path ≠ .root ∧
        ∀ above' f', q.selection.Reached q.modifiers .root (above' ++ [f']) path →
          (∀ g ∈ above' ++ [f'], g.isSelector = false) →
            (above ++ [f]).map Field.name = (above' ++ [f']).map Field.name) ∧
      (∀ path m, path ≠ .root →
        (∀ way other, q.selection.Reached q.modifiers .root way other → path ≠ .through way) →
        (∀ g, m = .filter g → g.check = .ok ()) →
          (q.apply (.modify path m)).compile = .ok st) ∧
      ∀ s, Selection.Regrown q.modifiers .root q.selection s →
        compile { q with selection := s } = .ok st := by
  have hcheck := ((compile_eq_ok_iff hq).mp hcompile).1
  have hfields := verdict_fields_of_compile hq hcompile
  refine ⟨?_, ?_, ?_⟩
  · intro above f path hreached hselector
    have hnames := hreached.checkName hselector hfields
    have hpath := hreached.path_eq_through hnames
    refine ⟨template_part_of_block (hreached.rendered hselector), ?_, ?_⟩
    · rw [hpath]
      exact Path.through_ne_root hnames hreached.ne_nil
    · intro above' f' hreached' hselector'
      have hnames' := hreached'.checkName hselector' hfields
      refine Path.names_eq_of_through_eq hnames hnames' hreached.ne_nil hreached'.ne_nil ?_
      rw [← hpath, ← hreached'.path_eq_through hnames']
  · intro path m hroot hpath hm
    refine (compile_modify hq hcheck hroot (fun other f hf => ?_) hm).trans hcompile
    obtain ⟨above, hreached, hselector⟩ := hf.exists_reached
    rw [hreached.path_eq_through (hreached.checkName hselector hfields)]
    exact hpath _ other hreached
  · intro s hs
    exact (compile_regrown hs).trans hcompile

/-- Nodes with a name: how many friends they have, and their pals. -/
def countedFriends : Query :=
  build .empty
    [.root (.has "name"), .modify "friend" (.aggregate ⟨.count, none⟩),
      .select (.cons { name := "friend" } (.single { name := "name" }) (.single { name := "pal" }))]

/-- Facets of the names of friends, and a field without a name below the friends. -/
theorem paths_address_countedFriends :
    let st : Statement :=
      ⟨.query, "\x7b q(func: has(<name>)) \x7b friend_count : count(friend) pal uid \x7d \x7d", []⟩
    countedFriends.compile = .ok st ∧
      (countedFriends.apply (.modify "friend/name" .facets)).compile = .ok st ∧
      compile { countedFriends with
        selection := .cons { name := "friend" } (.single { name := "" })
          (.single { name := "pal" }) } = .ok st := by
  intro st
  have hcompile : countedFriends.compile = .ok st := by
    cbv
  obtain ⟨-, hmodify, hregrown⟩ := paths_address rfl hcompile
  refine ⟨hcompile, hmodify _ _ (by decide) ?_ (fun g hg => by cases hg), hregrown _ (.here rfl)⟩
  -- The names of the friends are not reached, since these are counted.
  rintro way other hreached
  cases hreached with
  | here => decide
  | beneath hagg _ => cases hagg
  | behind h =>
    cases h with
    | here => decide
    | beneath _ h => cases h
    | behind h => cases h

end Query

end GraphQuery
