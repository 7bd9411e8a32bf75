import GraphQuery.Proofs.Addressing
import Mathlib

/-!
# Building steps in another order

A query is built in steps, and each step writes one slot: the name, the root
function, the modifiers of one kind under one path, and so on.  `content_apply`
says that this is all that a step does.  The rest are laws of updates: steps
with different slots commute, and a slot that keeps only what was written last
forgets what came before.

Compiling depends on the contents of the slots alone, with one reservation.
Filters are kept in the order of their registration, and when several of them
fail their check, the first decides about the error.  `Unchanged` is therefore
equality of the statements, and of the errors where at most one filter fails.

`build_unchanged` puts both together.
-/

namespace GraphQuery

/-! ## Slots and their contents -/

namespace Query

/-- What a building step writes. -/
inductive Slot where
  | name
  | root
  | standalone
  | selection
  | directives
  | payloads
  | pages (path : Path)
  | orders (path : Path)
  | filter (path : Path)
  | aggregate (path : Path)
  | facets (path : Path)
  deriving DecidableEq

/-- A later step replaces what earlier ones wrote into the slot. -/
def Slot.keepsLast : Slot → Bool
  | name | root | standalone | filter _ | aggregate _ | facets _ => true
  | selection | directives | payloads | pages _ | orders _ => false

/-- What stands in a slot. -/
inductive Content where
  | name (name : String)
  | root (root? : Option Call)
  | standalone (isStandalone : Bool)
  | selection (fields : Selection)
  | directives (directives : List Directive)
  | payloads (operation : Operation) (payloads : List Payload) (encodingError? : Option String)
  | pages (pages : List Page)
  | orders (orders : List OrderBy)
  | filters (filters : List Filter)
  | aggregates (aggregates : List Aggregate)
  | facets (wanted : Bool)

/-- The slot of a modifier under a path. -/
def slotOf (path : Path) : Modifier → Slot
  | .aggregate _ => .aggregate path
  | .page _ => .pages path
  | .order _ => .orders path
  | .filter _ => .filter path
  | .facets => .facets path

/-- The slot that a step writes. -/
def Step.slot : Step → Slot
  | .name _ => .name
  | .root _ => .root
  | .select _ => .selection
  | .modify path m => slotOf path m
  | .direct _ => .directives
  | .mutate _ _ => .payloads
  | .standalone _ => .standalone

/-- What a step makes of the content of its slot. -/
def Step.write : Step → Content → Content
  | .name text, _ => .name text
  | .root c, _ => .root (some c)
  | .select fields, .selection s => .selection (s ++ fields)
  | .modify _ (.aggregate a), _ => .aggregates [a]
  | .modify _ (.page p), .pages ps => .pages (ps ++ [p])
  | .modify _ (.order o), .orders os => .orders (os ++ [o])
  | .modify _ (.filter f), _ => .filters [f]
  | .modify _ .facets, _ => .facets true
  | .direct d, .directives ds => .directives (ds ++ [d])
  | .mutate kind (.ok json), .payloads _ ps error? =>
    .payloads .mutation (ps ++ [⟨kind, json⟩]) error?
  | .mutate _ (.error e), .payloads _ ps error? =>
    .payloads .mutation ps (some (error?.getD e.message))
  | .standalone isStandalone, _ => .standalone isStandalone
  | _, content => content

/-- What stands in the slots of a query. -/
def content (q : Query) : Slot → Content
  | .name => .name q.name
  | .root => .root q.root?
  | .standalone => .standalone q.isStandalone
  | .selection => .selection q.selection
  | .directives => .directives q.directives
  | .payloads => .payloads q.operation q.payloads q.encodingError?
  | .pages path => .pages (Modifiers.under path q.modifiers.pages)
  | .orders path => .orders (Modifiers.under path q.modifiers.orders)
  | .filter path => .filters (Modifiers.under path q.modifiers.filters)
  | .aggregate path => .aggregates (Modifiers.under path q.modifiers.aggregates)
  | .facets path => .facets (q.modifiers.hasFacets path)

variable {q r : Query} {s t : Step} {steps : List Step} {slot : Slot}

theorem content_apply_self : (q.apply s).content s.slot = s.write (q.content s.slot) := by
  cases s with
  | name | root | select | direct | standalone => rfl
  | mutate kind result => cases result <;> rfl
  | modify path m =>
    cases m with
    | aggregate a => exact congrArg Content.aggregates Modifiers.under_put_self
    | filter f => exact congrArg Content.filters Modifiers.under_put_self
    | page p =>
      show Content.pages (Modifiers.under path (q.modifiers.pages ++ [(path, p)])) = _
      rw [Modifiers.under_append, Modifiers.under_singleton_self]
      rfl
    | order o =>
      show Content.orders (Modifiers.under path (q.modifiers.orders ++ [(path, o)])) = _
      rw [Modifiers.under_append, Modifiers.under_singleton_self]
      rfl
    | facets =>
      have hmem : path ∈ q.modifiers.facets.filter (· != path) ++ [path] := by simp
      exact congrArg Content.facets (List.contains_iff_mem.mpr hmem)

/-- A modifier leaves all slots alone but that of its kind under its path. -/
theorem content_modify_of_ne {path : Path} {m : Modifier} (h : slot ≠ slotOf path m) :
    (q.apply (.modify path m)).content slot = q.content slot := by
  cases m with
  | aggregate a =>
    cases slot with
    | aggregate other =>
      exact congrArg Content.aggregates (Modifiers.under_put_of_ne fun heq => h (heq ▸ rfl))
    | _ => rfl
  | page p =>
    cases slot with
    | pages other =>
      exact congrArg Content.pages (Modifiers.under_concat_of_ne fun heq => h (heq ▸ rfl))
    | _ => rfl
  | order o =>
    cases slot with
    | orders other =>
      exact congrArg Content.orders (Modifiers.under_concat_of_ne fun heq => h (heq ▸ rfl))
    | _ => rfl
  | filter f =>
    cases slot with
    | filter other =>
      exact congrArg Content.filters (Modifiers.under_put_of_ne fun heq => h (heq ▸ rfl))
    | _ => rfl
  | facets =>
    cases slot with
    | facets other =>
      exact congrArg Content.facets (Modifiers.contains_concat_of_ne fun heq => h (heq ▸ rfl))
    | _ => rfl

/-- A step leaves all slots alone but its own. -/
theorem content_apply_of_ne (h : slot ≠ s.slot) : (q.apply s).content slot = q.content slot := by
  cases s with
  | modify path m => exact content_modify_of_ne h
  | name name =>
    cases slot with
    | name => exact absurd rfl h
    | _ => rfl
  | root c =>
    cases slot with
    | root => exact absurd rfl h
    | _ => rfl
  | select fields =>
    cases slot with
    | selection => exact absurd rfl h
    | _ => rfl
  | direct d =>
    cases slot with
    | directives => exact absurd rfl h
    | _ => rfl
  | standalone isStandalone =>
    cases slot with
    | standalone => exact absurd rfl h
    | _ => rfl
  | mutate kind result =>
    cases slot with
    | payloads => exact absurd rfl h
    | _ => cases result <;> rfl

/-- A step is an update of its slot. -/
theorem content_apply : (q.apply s).content =
    Function.update q.content s.slot (s.write (q.content s.slot)) := by
  funext slot
  by_cases h : slot = s.slot
  · rw [h, content_apply_self, Function.update_self]
  · rw [content_apply_of_ne h, Function.update_of_ne h]

/-! ## Runs of building steps -/

theorem build_append {steps' : List Step} :
    q.build (steps ++ steps') = (q.build steps).build steps' := List.foldl_append

theorem build_cons : q.build (s :: steps) = (q.apply s).build steps := rfl

/-- What steps leave in a slot depends on what was there. -/
theorem content_build_congr (h : q.content slot = r.content slot) :
    (q.build steps).content slot = (r.build steps).content slot := by
  induction steps generalizing q r with
  | nil => exact h
  | cons s steps ih =>
    refine ih ?_
    by_cases hslot : slot = s.slot
    · rw [hslot] at h ⊢
      rw [content_apply_self, content_apply_self, h]
    · rw [content_apply_of_ne hslot, content_apply_of_ne hslot, h]

/-- Steps with different slots can be taken in either order. -/
theorem content_apply_comm (h : s.slot ≠ t.slot) :
    ((q.apply s).apply t).content = ((q.apply t).apply s).content := by
  simp only [content_apply, Function.update_of_ne h, Function.update_of_ne h.symm]
  exact Function.update_comm h _ _ _

/-- In a slot that keeps what was written last, a step leaves the same whatever was there. -/
theorem write_of_keepsLast (h : t.slot.keepsLast = true) (x y : Content) :
    t.write x = t.write y := by
  cases t with
  | name | root | standalone => rfl
  | select | direct | mutate => cases h
  | modify path m =>
    cases m with
    | aggregate | filter | facets => rfl
    | page | order => cases h

/-- A step that is followed by another one on a slot that keeps what was written last can be left
out. -/
theorem content_overwritten (hslot : s.slot = t.slot) (h : t.slot.keepsLast = true) :
    (((q.apply s).build steps).apply t).content = ((q.build steps).apply t).content := by
  funext slot
  by_cases ht : slot = t.slot
  · rw [ht, content_apply_self, content_apply_self]
    exact write_of_keepsLast h _ _
  · rw [content_apply_of_ne ht, content_apply_of_ne ht]
    exact content_build_congr (content_apply_of_ne (hslot ▸ ht))

/-- Facets that were asked for are asked for in the end. -/
theorem content_facets_build {path : Path} (h : q.content (.facets path) = .facets true) :
    (q.build steps).content (.facets path) = .facets true := by
  induction steps generalizing q with
  | nil => exact h
  | cons s steps ih =>
    refine ih ?_
    by_cases hslot : .facets path = s.slot
    · have hsame : (q.apply s).content s.slot = s.write (q.content s.slot) := content_apply_self
      rw [← hslot, h] at hsame
      rw [hsame]
      cases s with
      | modify other m =>
        cases m with
        | facets => rfl
        | aggregate | page | order | filter => cases hslot
      | name | root | select | direct | mutate | standalone => cases hslot
    · rw [content_apply_of_ne hslot, h]

/-- Facets need to be asked for only once. -/
theorem content_facets_again {path : Path} :
    (((q.apply (.modify path .facets)).build steps).apply (.modify path .facets)).content =
      ((q.apply (.modify path .facets)).build steps).content := by
  have hasked : (q.apply (.modify path .facets)).content (.facets path) = .facets true :=
    content_apply_self
  rw [content_apply, Function.update_eq_self_iff]
  exact (content_facets_build hasked).symm

end Query

/-! ## What compiling depends on -/

/-- Not more than one of the registered filters fails its check. -/
def Modifiers.FailsOnceAtMost (ms : Modifiers) : Prop :=
  ∀ e ∈ ms.filters, ∀ e' ∈ ms.filters, e.2.check ≠ .ok () → e'.2.check ≠ .ok () → e' = e

namespace Modifiers

variable {ms ms' : Modifiers}

/-- The verdict on filters of which only one fails is that on this one. -/
theorem checkFilters_of_mem {e : Path × Filter} (he : e ∈ ms.filters)
    (hfails : e.2.check ≠ .ok ())
    (honly : ∀ e' ∈ ms.filters, e'.2.check ≠ .ok () → e' = e) : ms.checkFilters = e.2.check := by
  unfold checkFilters
  generalize ms.filters = filters at he honly
  induction filters with
  | nil => cases he
  | cons e' es ih =>
    obtain ⟨hfirst, hrest⟩ := List.forall_mem_cons.mp honly
    rw [List.forM]
    cases hcheck : e'.2.check with
    | ok u =>
      have hmem : e ∈ es := by
        rcases List.mem_cons.mp he with rfl | hmem
        · exact absurd hcheck hfails
        · exact hmem
      exact ih hmem hrest
    | error err =>
      obtain rfl := hfirst (by simp [hcheck])
      exact hcheck.symm

/-- The order of filters matters only if several of them fail. -/
theorem checkFilters_congr (h : ∀ e, e ∈ ms'.filters ↔ e ∈ ms.filters)
    (honce : ms.FailsOnceAtMost) : ms'.checkFilters = ms.checkFilters := by
  by_cases hfails : ∃ e ∈ ms.filters, e.2.check ≠ .ok ()
  · obtain ⟨e, he, hcheck⟩ := hfails
    rw [checkFilters_of_mem he hcheck fun e' he' hcheck' => honce e he e' he' hcheck hcheck',
      checkFilters_of_mem ((h e).mpr he) hcheck fun e' he' hcheck' =>
        honce e he e' ((h e').mp he') hcheck hcheck']
  · have hall : ∀ path f, (path, f) ∈ ms.filters → Filter.check f = .ok () := fun path f hf =>
      not_not.mp fun hne => hfails ⟨(path, f), hf, hne⟩
    rw [checkFilters_eq_ok_iff.mpr hall,
      checkFilters_eq_ok_iff.mpr fun path f hf => hall path f ((h _).mp hf)]

end Modifiers

namespace Query

section
variable {q r : Query} (h : r.content = q.content)
include h

theorem forPath_of_content (path : Path) :
    r.modifiers.forPath path = q.modifiers.forPath path :=
  Modifiers.forPath_congr (Content.aggregates.inj (congrFun h (.aggregate path)))
    (Content.pages.inj (congrFun h (.pages path))) (Content.orders.inj (congrFun h (.orders path)))
    (Content.filters.inj (congrFun h (.filter path)))
    (Content.facets.inj (congrFun h (.facets path)))

theorem mem_filters_of_content (e : Path × Filter) :
    e ∈ r.modifiers.filters ↔ e ∈ q.modifiers.filters := by
  obtain ⟨path, f⟩ := e
  rw [← Modifiers.mem_under, ← Modifiers.mem_under,
    Content.filters.inj (congrFun h (.filter path))]

theorem block_of_content : r.block = q.block := by
  refine block_congr (Content.name.inj (congrFun h .name)) (Content.root.inj (congrFun h .root))
    (Content.directives.inj (congrFun h .directives)) (forPath_of_content h .root) ?_
  rw [Content.selection.inj (congrFun h .selection)]
  exact Selection.fields_congr fun path _ _ => forPath_of_content h path

theorem check_of_content (hfilters : r.modifiers.checkFilters = q.modifiers.checkFilters) :
    r.check = q.check := by
  obtain ⟨hoperation, hpayloads, herror⟩ := Content.payloads.inj (congrFun h .payloads)
  have hname : r.name = q.name := Content.name.inj (congrFun h .name)
  have hroot : r.root? = q.root? := Content.root.inj (congrFun h .root)
  simp only [check, checkQuery, checkMutation, hoperation, hpayloads, herror, hname, hroot,
    hfilters]

theorem check_eq_ok_iff_of_content : r.check = .ok () ↔ q.check = .ok () := by
  obtain ⟨hoperation, hpayloads, herror⟩ := Content.payloads.inj (congrFun h .payloads)
  cases hq : q.operation with
  | query =>
    have hname : r.name = q.name := Content.name.inj (congrFun h .name)
    have hroot : r.root? = q.root? := Content.root.inj (congrFun h .root)
    rw [check_eq_ok_iff hq, check_eq_ok_iff (hoperation.trans hq)]
    simp only [checkRoot, herror, hname, hroot, Modifiers.checkFilters_eq_ok_iff,
      mem_filters_of_content h]
  | mutation => simp only [check, checkMutation, hoperation, hq, hpayloads, herror]

end

/-- The two queries compile to the same statement or both fail, and with the same error if at most
one filter fails its check. -/
def Unchanged (q r : Query) : Prop :=
  (∀ st, r.compile = .ok st ↔ q.compile = .ok st) ∧
    (q.modifiers.FailsOnceAtMost → r.compile = q.compile)

variable {q r : Query}

theorem check_of_compile {st : Statement} (h : q.compile = .ok st) : q.check = .ok () := by
  unfold compile at h
  cases hcheck : q.check with
  | ok u => rfl
  | error e =>
    rw [hcheck] at h
    cases h

/-- Compiling depends on nothing but the contents of the slots. -/
theorem unchanged_of_content (h : r.content = q.content) : Unchanged q r := by
  obtain ⟨hoperation, hpayloads, herror⟩ := Content.payloads.inj (congrFun h .payloads)
  have hcompile (hcheck : r.check = q.check) : r.compile = q.compile := by
    refine compile_congr hcheck hoperation ?_ ?_
    · exact queryStatement_congr (block_of_content h) (Content.name.inj (congrFun h .name))
        (Content.standalone.inj (congrFun h .standalone))
    · simp only [mutationStatement, mutationKind?, payloadText, hpayloads]
  have hpassed (hcheck : q.check = .ok ()) : r.compile = q.compile :=
    hcompile (((check_eq_ok_iff_of_content h).mpr hcheck).trans hcheck.symm)
  refine ⟨fun st => ⟨fun hst => ?_, fun hst => ?_⟩, fun honce => ?_⟩
  · exact (hpassed ((check_eq_ok_iff_of_content h).mp (check_of_compile hst))).symm.trans hst
  · exact (hpassed (check_of_compile hst)).trans hst
  · exact hcompile (check_of_content h
      (Modifiers.checkFilters_congr (mem_filters_of_content h) honce))

/-- Adjacent steps with different slots can be taken in either order, a step can be left out if its
slot keeps what a later step writes, and facets need to be asked for once. -/
theorem build_unchanged (start : Query) :
    (∀ (before after : List Step) (s t : Step), s.slot ≠ t.slot →
      Unchanged (start.build (before ++ s :: t :: after))
        (start.build (before ++ t :: s :: after))) ∧
    (∀ (before between after : List Step) (s t : Step), s.slot = t.slot →
      t.slot.keepsLast = true →
      Unchanged (start.build (before ++ s :: (between ++ t :: after)))
        (start.build (before ++ (between ++ t :: after)))) ∧
    ∀ (before between after : List Step) (path : Path),
      let again : Step := .modify path .facets
      Unchanged (start.build (before ++ again :: (between ++ again :: after)))
        (start.build (before ++ again :: (between ++ after))) := by
  have hrest : ∀ {q r : Query} (after : List Step), r.content = q.content →
      Unchanged (q.build after) (r.build after) := fun after h =>
    unchanged_of_content (funext fun slot => content_build_congr (congrFun h slot))
  refine ⟨?_, ?_, ?_⟩
  · intro before after s t hslot
    simp only [build_append, build_cons]
    exact hrest after (content_apply_comm hslot).symm
  · intro before between after s t hslot hkeeps
    simp only [build_append, build_cons]
    exact hrest after (content_overwritten hslot hkeeps).symm
  · intro before between after path again
    simp only [build_append, build_cons]
    exact hrest after content_facets_again.symm

/-- Pals are selected before the root function is given, and a name that is none is replaced. -/
theorem build_unchanged_people :
    let pals : Step := .select (.single { name := "pal" })
    let st : Statement := ⟨.query, "\x7b people(func: has(<name>)) \x7b pal uid \x7d \x7d", []⟩
    (empty.build [.root (.has "name"), pals, .name "people"]).compile = .ok st ∧
      (empty.build [pals, .root (.has "name"), .name "people"]).compile = .ok st ∧
      (empty.build [.name "~", .root (.has "name"), pals, .name "people"]).compile = .ok st := by
  intro pals st
  have hcompile : (empty.build [.root (.has "name"), pals, .name "people"]).compile = .ok st := by
    cbv
  obtain ⟨hswap, hdrop, -⟩ := build_unchanged empty
  refine ⟨hcompile, ?_, ?_⟩
  · exact ((hswap [] [.name "people"] (.root (.has "name")) pals (by decide)).1 st).mpr hcompile
  · exact ((hdrop [] [.root (.has "name"), pals] [] (.name "~") (.name "people") rfl rfl).1 st).mp
      hcompile

end Query

end GraphQuery
