import GraphQuery.Proofs.Interning
import Mathlib.Data.List.Range

/-!
# Names and values of parameters

The parameter with number `i` is called `$p` followed by `i` in decimal, so
different numbers have different names (`parameterName_injective`).  A scalar
is told by its kind and its text (`Scalar.eq_of_kind_of_text`): strings are
written as they are, and different integers have different decimal texts.

`mem_bindings` and `names_bindings` say what a statement carries beside its
text: exactly one value for each number, under its name.
-/

namespace GraphQuery

/-! ## Texts -/

theorem toList_parameterName (i : Nat) :
    (parameterName i).toList = '$' :: 'p' :: Nat.toDigits 10 i := by
  rw [parameterName, String.toList_append, Nat.toString_eq_repr, Nat.toList_repr]
  rfl

theorem toDigits_injective : Function.Injective (Nat.toDigits 10) := by
  intro i j h
  rw [← Nat.ofDigitChars_ten_toDigits (n := i), h, Nat.ofDigitChars_ten_toDigits]

theorem parameterName_injective : Function.Injective parameterName := by
  intro i j h
  have hlist := congrArg String.toList h
  rw [toList_parameterName, toList_parameterName] at hlist
  exact toDigits_injective (List.cons.inj (List.cons.inj hlist).2).2

theorem toList_toString_of_nonneg {a : Int} (h : 0 ≤ a) :
    (toString a).toList = Nat.toDigits 10 a.toNat := by
  rw [Int.toString_eq_repr, Int.repr_eq_if, if_pos h, Nat.toList_repr]

theorem toList_toString_of_neg {a : Int} (h : ¬0 ≤ a) :
    (toString a).toList = '-' :: Nat.toDigits 10 (-a).toNat := by
  rw [Int.toString_eq_repr, Int.repr_eq_if, if_neg h, String.toList_append, Nat.toList_repr]
  rfl

/-- No decimal text of a natural number begins with a minus sign. -/
theorem toDigits_ne_minus (n : Nat) (cs : List Char) : Nat.toDigits 10 n ≠ '-' :: cs := by
  intro h
  have hdigit : '-'.isDigit = true :=
    Nat.isDigit_of_mem_toDigits (by decide) (by decide) (h ▸ List.mem_cons_self)
  exact absurd hdigit (by decide)

/-- Different integers have different decimal texts. -/
theorem toString_int_injective : Function.Injective (toString : Int → String) := by
  intro a b h
  have hlist := congrArg String.toList h
  by_cases ha : 0 ≤ a
  · rw [toList_toString_of_nonneg ha] at hlist
    by_cases hb : 0 ≤ b
    · rw [toList_toString_of_nonneg hb] at hlist
      have hnat := toDigits_injective hlist
      omega
    · rw [toList_toString_of_neg hb] at hlist
      exact absurd hlist (toDigits_ne_minus _ _)
  · rw [toList_toString_of_neg ha] at hlist
    by_cases hb : 0 ≤ b
    · rw [toList_toString_of_nonneg hb] at hlist
      exact absurd hlist.symm (toDigits_ne_minus _ _)
    · rw [toList_toString_of_neg hb] at hlist
      have hnat := toDigits_injective (List.cons.inj hlist).2
      omega

theorem decimal_injective : Function.Injective decimal := by
  intro a b h
  exact Int64.toInt_inj.mp (toString_int_injective h)

/-- A scalar is told by its kind and its text. -/
theorem Scalar.eq_of_kind_of_text {a b : Scalar} (hkind : a.kind = b.kind)
    (htext : a.text = b.text) : a = b := by
  cases a with
  | string x =>
    cases b with
    | string y => exact congrArg _ htext
    | int m => cases hkind
  | int n =>
    cases b with
    | string y => cases hkind
    | int m => exact congrArg _ (decimal_injective htext)

namespace Parameters

variable {p : Parameters} {i : Nat} {s : Scalar} {f : Scalar → Scalar} {hf : Function.Injective f}

/-! ## Entries and bindings -/

/-- The entry of a scalar has its place in the list as its number. -/
theorem getElem?_entries : p.entries[i]? = p.scalars[i]?.map fun s => (i, s) := by
  rw [entries]
  by_cases hi : i < p.scalars.length
  · simp [hi]
  · simp [hi]

theorem mem_entries : (i, s) ∈ p.entries ↔ p.scalars[i]? = some s := by
  rw [List.mem_iff_getElem?]
  constructor
  · intro hall
    obtain ⟨j, hj⟩ := hall
    rw [getElem?_entries] at hj
    obtain ⟨x, hx, heq⟩ := Option.map_eq_some_iff.mp hj
    obtain ⟨rfl, rfl⟩ := Prod.mk.inj heq
    exact hx
  · intro h
    refine ⟨i, ?_⟩
    rw [getElem?_entries, h]
    rfl

theorem map_fst_entries : p.entries.map Prod.fst = List.range p.size := by
  rw [entries, List.map_fst_zip]
  · rfl
  · simp

/-- A map on the scalars keeps the numbers of the entries. -/
theorem entries_map : (p.map f hf).entries = p.entries.map fun e => (e.1, f e.2) := by
  rw [entries, entries, scalars_map, List.length_map, List.zip_map_right]
  rfl

/-- A statement binds the name of each number to the text of its scalar, and nothing else. -/
theorem mem_bindings {name value : String} : (name, value) ∈ p.bindings ↔
    ∃ i s, p.scalars[i]? = some s ∧ name = parameterName i ∧ value = s.text := by
  rw [bindings, List.mem_mergeSort, List.mem_map]
  constructor
  · intro hall
    obtain ⟨⟨i, s⟩, hmem, heq⟩ := hall
    exact ⟨i, s, mem_entries.mp hmem, (congrArg Prod.fst heq).symm, (congrArg Prod.snd heq).symm⟩
  · intro hall
    obtain ⟨i, s, hmem, rfl, rfl⟩ := hall
    exact ⟨(i, s), mem_entries.mpr hmem, rfl⟩

/-- The names that are bound, sorted as texts. -/
theorem names_bindings : p.bindings.map Prod.fst =
    ((List.range p.size).map parameterName).mergeSort (· ≤ ·) := by
  rw [bindings, List.map_mergeSort (s := fun a b => decide (a ≤ b)) (fun _ _ _ _ => rfl),
    List.map_map, ← map_fst_entries, List.map_map]
  rfl

theorem length_bindings : p.bindings.length = p.size := by
  rw [bindings, List.length_mergeSort, List.length_map, ← List.length_map (f := Prod.fst),
    map_fst_entries, List.length_range]

/-- A map on the scalars keeps the bound names. -/
theorem names_bindings_map : (p.map f hf).bindings.map Prod.fst = p.bindings.map Prod.fst := by
  rw [names_bindings, names_bindings, size, size, scalars_map, List.length_map]

/-- A map on the scalars that keeps their types keeps the declarations. -/
theorem declarations_map (h : ∀ s, (f s).typeName = s.typeName) :
    (p.map f hf).declarations = p.declarations := by
  rw [declarations, declarations, entries_map, List.map_map]
  congr 2
  funext e
  exact congrArg (parameterName e.1 ++ ": " ++ ·) (h e.2)

/-- Every name is bound once. -/
theorem nodup_names_bindings : (p.bindings.map Prod.fst).Nodup := by
  rw [names_bindings]
  exact (List.mergeSort_perm _ _).nodup_iff.mpr
    (List.nodup_range.map parameterName_injective)

theorem mem_bindings_of_getElem? {i : Nat} {s : Scalar} (h : p.scalars[i]? = some s) :
    (parameterName i, s.text) ∈ p.bindings :=
  mem_bindings.mpr ⟨i, s, h, rfl, rfl⟩

theorem mem_names_bindings {key : String} :
    key ∈ p.bindings.map Prod.fst ↔ ∃ i < p.size, key = parameterName i := by
  rw [names_bindings, List.mem_mergeSort, List.mem_map]
  simp only [List.mem_range, eq_comm]

/-- Different parameters differ in their kind or in their text. -/
theorem nodup_kind_text : (p.scalars.map fun s => (s.kind, s.text)).Nodup := by
  refine p.nodup.map fun a b hab => ?_
  obtain ⟨hkind, htext⟩ := Prod.mk.inj hab
  exact Scalar.eq_of_kind_of_text hkind htext

end Parameters

end GraphQuery
