import GraphQuery.Proofs.Compiling
import GraphQuery.Proofs.Filling

/-!
# Templates that are filled again

A template that was filled leaves its scalars among the parameters, and a
scalar keeps its number when more values are registered.  So filling the
template again, at any later time, writes the same text and adds nothing.

`Parameters.registerAll` is a run of registrations, of which some may fail.
Parameters that come of such a run begin with those before it
(`prefix_registerAll`), and that is all that is used of it.
-/

namespace GraphQuery

namespace Parameters

variable {p q : Parameters} {ss : List Scalar}

/-- The parameters after a value was registered. A value that is refused leaves them as they
are. -/
def afterRegister (p : Parameters) (v : Value) : Parameters :=
  match p.register v with
  | .ok r => r.2
  | .error _ => p

/-- The parameters after several values were registered, one after the other. -/
def registerAll (p : Parameters) (vs : List Value) : Parameters :=
  vs.foldl afterRegister p

/-- A registration interns the scalar of the value, if it is one, and does nothing else. -/
theorem afterRegister_eq (p : Parameters) (v : Value) :
    p.afterRegister v = p.internAll v.scalar?.toList := by
  rw [afterRegister, register_eq]
  cases hcheck : v.check with
  | ok u => rfl
  | error e =>
    cases v with
    | scalar s => cases hcheck
    | uid text | predicate name => rfl

theorem prefix_registerAll {vs : List Value} : p.scalars <+: (p.registerAll vs).scalars := by
  induction vs generalizing p with
  | nil => exact List.prefix_refl _
  | cons v vs ih =>
    have hfirst : p.scalars <+: (p.afterRegister v).scalars := by
      rw [afterRegister_eq]
      exact prefix_internAll
    exact hfirst.trans ih

/-- Scalars that are all there are not added again. -/
theorem internAll_of_mem (h : ∀ s ∈ ss, s ∈ p.scalars) : p.internAll ss = p := by
  induction ss with
  | nil => rfl
  | cons s ss ih =>
    obtain ⟨hs, hss⟩ := List.forall_mem_cons.mp h
    rw [internAll_cons, intern_of_mem hs, ih hss]

end Parameters

/-- A template that was filled is filled again with the same numbers, whatever was registered in
between. -/
theorem Template.fill_of_prefix {t : Template} {p p₁ q : Parameters} {text : String}
    (h : t.fill p = (.ok text, p₁)) (hpre : p₁.scalars <+: q.scalars) :
    t.fill q = (.ok text, q) := by
  have hverdict : t.verdict = .ok () := by
    have hfst := fill_fst t p
    rw [h] at hfst
    cases ht : t.verdict with
    | error e =>
      rw [ht] at hfst
      cases hfst
    | ok u => rfl
  rw [fill_eq hverdict] at h
  obtain ⟨htext, rfl⟩ := Prod.mk.inj h
  have hmem : ∀ s ∈ t.scalars, s ∈ (p.internAll t.scalars).scalars := fun s hs =>
    Parameters.mem_internAll.mpr (Or.inr hs)
  have hadded : q.internAll t.scalars = q :=
    Parameters.internAll_of_mem fun s hs => hpre.subset (hmem s hs)
  have hwrite : t.write q.number = t.write (p.internAll t.scalars).number :=
    write_congr fun s hs => Parameters.number_of_extends hpre (hmem s hs)
  rw [fill_eq hverdict, hadded, hwrite, htext]

/-- A call, a filter or the block of a query that was written once is written again with the same
text, whatever was registered in between, and leaves the parameters as they are. -/
theorem fill_stable (p p₁ : Parameters) (text : String) (vs : List Value) :
    (∀ c : Call, c.template.fill p = (.ok text, p₁) →
      c.template.fill (p₁.registerAll vs) = (.ok text, p₁.registerAll vs)) ∧
    (∀ f : Filter, f.template.fill p = (.ok text, p₁) →
      f.template.fill (p₁.registerAll vs) = (.ok text, p₁.registerAll vs)) ∧
    ∀ q : Query, q.block.fill p = (.ok text, p₁) →
      q.block.fill (p₁.registerAll vs) = (.ok text, p₁.registerAll vs) :=
  ⟨fun _ h => Template.fill_of_prefix h Parameters.prefix_registerAll,
    fun _ h => Template.fill_of_prefix h Parameters.prefix_registerAll,
    fun _ h => Template.fill_of_prefix h Parameters.prefix_registerAll⟩

/-- The block of `adults` is written the same among other values, of which one is refused. -/
theorem fill_stable_adults : ∃ (text : String) (p₁ : Parameters),
    Query.adults.block.fill .empty = (.ok text, p₁) ∧
    p₁.scalars = [.string "alice", .int 10] ∧
    (p₁.registerAll [.string "bob", .uid "?", .int 10]).scalars =
      [.string "alice", .int 10, .string "bob"] ∧
    Query.adults.block.fill (p₁.registerAll [.string "bob", .uid "?", .int 10]) =
      (.ok text, p₁.registerAll [.string "bob", .uid "?", .int 10]) := by
  have hfill : Query.adults.block.fill .empty =
      (.ok Query.adults.text, Query.adults.parameters) :=
    Template.fill_eq ((Query.exists_compile_iff rfl).mp ⟨_, Query.compile_adults⟩).2
  exact ⟨_, _, hfill, by cbv, by cbv,
    (fill_stable .empty _ _ [.string "bob", .uid "?", .int 10]).2.2 .adults hfill⟩

end GraphQuery
