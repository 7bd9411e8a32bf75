import GraphQuery.Parameters
import Mathlib.Data.List.Nodup

/-!
# Parameters that grow

A statement registers its scalars one after the other, so what its parameters
are in the end is `Parameters.internAll` of the scalars in the order in which
they stand.  Three facts carry everything that is said about parameters.

* The list only grows at its end (`prefix_internAll`), so a scalar that has a
  number keeps it (`number_internAll_of_mem`).
* It holds what it held before and what was interned, and nothing else
  (`mem_internAll`).
* Scalars get their numbers in the order of their first use
  (`mem_of_number_lt`): what has a smaller number was used before.

The last section changes the content of all scalars by an injective map,
which changes no number (`number_map`, `internAll_map`).
-/

namespace GraphQuery.Parameters

variable {p q : Parameters} {s x : Scalar} {ss : List Scalar}

/-- The number of a scalar. -/
def number (p : Parameters) (s : Scalar) : Nat := p.scalars.idxOf s

/-- The parameters after several scalars have been interned. -/
def internAll (p : Parameters) (ss : List Scalar) : Parameters :=
  ss.foldl (fun p s => (p.intern s).2) p

/-! ## One scalar -/

theorem mem_intern : x ∈ (p.intern s).2.scalars ↔ x ∈ p.scalars ∨ x = s := by
  by_cases h : s ∈ p.scalars
  · rw [intern_of_mem h]
    constructor
    · exact Or.inl
    · intro hor
      rcases hor with hx | rfl
      · exact hx
      · exact h
  · rw [scalars_intern_of_not_mem h]
    simp

/-- Interning returns the number that the scalar has afterwards. -/
theorem intern_fst : (p.intern s).1 = (p.intern s).2.number s := by
  by_cases h : s ∈ p.scalars
  · rw [intern_of_mem h, number]
  · rw [number, scalars_intern_of_not_mem h, List.idxOf_append_of_notMem h]
    simp [intern, h]

/-- A scalar that is there keeps its number when the list grows at its end. -/
theorem number_of_extends (hpre : p.scalars <+: q.scalars) (hs : s ∈ p.scalars) :
    q.number s = p.number s :=
  (hpre.idxOf_eq_of_mem hs).symm

theorem number_lt (hs : s ∈ p.scalars) : p.number s < p.size :=
  List.idxOf_lt_length_of_mem hs

theorem getElem?_number (hs : s ∈ p.scalars) : p.scalars[p.number s]? = some s :=
  List.getElem?_idxOf hs

/-- The number of a scalar is its place in the list. -/
theorem number_eq {i : Nat} (h : p.scalars[i]? = some s) : p.number s = i := by
  obtain ⟨hi, hs⟩ := List.getElem?_eq_some_iff.mp h
  rw [number, ← hs]
  exact p.nodup.idxOf_getElem i hi

/-! ## Several scalars -/

@[simp] theorem internAll_nil : p.internAll [] = p := rfl

@[simp] theorem internAll_cons : p.internAll (s :: ss) = (p.intern s).2.internAll ss := rfl

theorem internAll_append {ts : List Scalar} :
    p.internAll (ss ++ ts) = (p.internAll ss).internAll ts := by
  simp [internAll]

theorem prefix_internAll : p.scalars <+: (p.internAll ss).scalars := by
  induction ss generalizing p with
  | nil => exact List.prefix_refl _
  | cons s ss ih => exact scalars_prefix_intern.trans ih

theorem mem_internAll : x ∈ (p.internAll ss).scalars ↔ x ∈ p.scalars ∨ x ∈ ss := by
  induction ss generalizing p with
  | nil => simp
  | cons s ss ih =>
    rw [internAll_cons, ih, mem_intern]
    simp [or_assoc]

/-- A scalar that has a number keeps it, whatever is interned later. -/
theorem number_internAll_of_mem (hs : s ∈ p.scalars) :
    (p.internAll ss).number s = p.number s :=
  number_of_extends prefix_internAll hs

/-- What has a smaller number than a scalar was there, or was used, before the scalar was. -/
theorem mem_of_number_lt {before after : List Scalar} (hss : ss = before ++ s :: after)
    (hx : x ∈ (p.internAll ss).scalars)
    (hlt : (p.internAll ss).number x < (p.internAll ss).number s) :
    x ∈ p.scalars ∨ x ∈ before := by
  subst hss
  rw [← mem_internAll]
  -- After `before` and `s` the list ends with `s`, or `s` was in it earlier.
  have hmid : (p.internAll (before ++ s :: after)).scalars =
      (((p.internAll before).intern s).2.internAll after).scalars := by
    rw [internAll_append, internAll_cons]
  have hpre : ((p.internAll before).intern s).2.scalars <+:
      (p.internAll (before ++ s :: after)).scalars := hmid ▸ prefix_internAll
  have hs : s ∈ ((p.internAll before).intern s).2.scalars := mem_intern.mpr (Or.inr rfl)
  rw [number_of_extends hpre hs] at hlt
  have hxmem : x ∈ ((p.internAll before).intern s).2.scalars := by
    rw [hpre.mem_iff_idxOf_lt_length]
    exact Nat.lt_trans hlt (number_lt hs)
  rcases mem_intern.mp hxmem with h | rfl
  · exact h
  · rw [number_of_extends hpre hs] at hlt
    exact absurd hlt (Nat.lt_irrefl _)

/-! ## Content under an injective map -/

/-- The parameters with the content of every scalar changed. -/
def map (f : Scalar → Scalar) (hf : Function.Injective f) (p : Parameters) : Parameters :=
  ⟨p.scalars.map f, p.nodup.map hf⟩

variable {f : Scalar → Scalar} {hf : Function.Injective f}

@[simp] theorem scalars_map : (p.map f hf).scalars = p.scalars.map f := rfl

@[simp] theorem map_empty : empty.map f hf = empty := rfl

theorem mem_map_iff : f s ∈ (p.map f hf).scalars ↔ s ∈ p.scalars := by
  rw [scalars_map, List.mem_map_of_injective hf]

/-- An injective map changes no number. -/
theorem number_map : (p.map f hf).number (f s) = p.number s := by
  rw [number, number, scalars_map]
  induction p.scalars with
  | nil => rfl
  | cons x xs ih =>
    by_cases h : x = s
    · subst h
      simp
    · rw [List.map_cons, List.idxOf_cons_ne _ h, List.idxOf_cons_ne _ (hf.ne h), ih]

theorem intern_map : ((p.map f hf).intern (f s)).2 = (p.intern s).2.map f hf := by
  by_cases h : s ∈ p.scalars
  · rw [intern_of_mem h, intern_of_mem (mem_map_iff.mpr h)]
  · ext1
    rw [scalars_intern_of_not_mem (mt mem_map_iff.mp h), scalars_map, scalars_map,
      scalars_intern_of_not_mem h]
    simp

theorem internAll_map : (p.map f hf).internAll (ss.map f) = (p.internAll ss).map f hf := by
  induction ss generalizing p with
  | nil => rfl
  | cons s ss ih => rw [List.map_cons, internAll_cons, internAll_cons, intern_map, ih]

end GraphQuery.Parameters
