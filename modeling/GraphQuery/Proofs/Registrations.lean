import GraphQuery.Proofs.Bindings
import GraphQuery.Proofs.Refilling

/-!
# Runs of registrations

`Parameters` hold scalars and nothing else; names and numbers come from places.
A `ParameterTable` is the same thing kept by hand: every entry has the name that
it was given, its kind and its text, a counter says which name is the next one,
and an entry is found by its kind and its text.  `Parameters.table_intern` says
that the two stay in step, which they do because a scalar is told by its kind
and its text.

`Parameters.registerAll_coherent` sums up what the parameters are like after
any run of registrations, whether they succeed or fail, and what the answers of
the run have to do with each other.
-/

namespace GraphQuery

/-! ## Tables of parameters -/

/-- A parameter with its name. -/
structure ParameterTable.Entry where
  name : String
  kind : Kind
  text : String
  deriving DecidableEq

/-- The parameters so far, and the number of the next name. -/
structure ParameterTable where
  entries : List ParameterTable.Entry
  next : Nat
  deriving DecidableEq

/-- The name of the entry with the kind and the text of the scalar. If there is none, one is added
under the next name. -/
def ParameterTable.intern (t : ParameterTable) (s : Scalar) : String × ParameterTable :=
  match t.entries.find? fun e => e.kind == s.kind && e.text == s.text with
  | some e => (e.name, t)
  | none =>
    (parameterName t.next,
      ⟨t.entries ++ [⟨parameterName t.next, s.kind, s.text⟩], t.next + 1⟩)

namespace Parameters

variable {p : Parameters} {s t : Scalar} {v : Value} {vs before after : List Value} {i j : Nat}

/-- The parameters with their names. -/
def table (p : Parameters) : ParameterTable where
  entries := p.entries.map fun e => ⟨parameterName e.1, e.2.kind, e.2.text⟩
  next := p.size

theorem getElem?_table : p.table.entries[i]? =
    p.scalars[i]?.map fun s => ⟨parameterName i, s.kind, s.text⟩ := by
  rw [table, List.getElem?_map, getElem?_entries, Option.map_map]
  rfl

/-- An entry comes from the scalar at its place. -/
theorem exists_of_getElem?_table {e : ParameterTable.Entry} (h : p.table.entries[i]? = some e) :
    ∃ s, p.scalars[i]? = some s ∧ e = ⟨parameterName i, s.kind, s.text⟩ := by
  rw [getElem?_table] at h
  obtain ⟨s, hs, he⟩ := Option.map_eq_some_iff.mp h
  exact ⟨s, hs, he.symm⟩

theorem length_table : p.table.entries.length = p.size := by
  rw [table, List.length_map, ← List.length_map (f := Prod.fst), map_fst_entries,
    List.length_range]

/-- The entry of a scalar is found by its kind and its text. -/
theorem find?_table : (p.table.entries.find? fun e => e.kind == s.kind && e.text == s.text) =
    if s ∈ p.scalars then some ⟨parameterName (p.number s), s.kind, s.text⟩ else none := by
  split_ifs with hs
  · rw [List.find?_eq_some_iff_getElem]
    refine ⟨by simp, p.number s, length_table ▸ number_lt hs, ?_, ?_⟩
    · apply Option.some.inj
      rw [← List.getElem?_eq_getElem, getElem?_table, getElem?_number hs]
      rfl
    · intro k hk
      have hlt : k < p.scalars.length := Nat.lt_trans hk (number_lt hs)
      have hget (hk : k < p.table.entries.length) : p.table.entries[k] =
          ⟨parameterName k, p.scalars[k].kind, p.scalars[k].text⟩ := by
        apply Option.some.inj
        rw [← List.getElem?_eq_getElem, getElem?_table, List.getElem?_eq_getElem hlt]
        rfl
      rw [hget]
      by_contra hfound
      simp only [Bool.not_eq_true, Bool.not_eq_false', Bool.and_eq_true, beq_iff_eq] at hfound
      have hscalar : p.scalars[k] = s := Scalar.eq_of_kind_of_text hfound.1 hfound.2
      have hnumber : p.number s = k := number_eq (List.getElem?_eq_some_iff.mpr ⟨hlt, hscalar⟩)
      omega
  · rw [List.find?_eq_none]
    intro e he hfound
    obtain ⟨k, hk⟩ := List.mem_iff_getElem?.mp he
    obtain ⟨x, hx, rfl⟩ := exists_of_getElem?_table hk
    simp only [Bool.and_eq_true, beq_iff_eq] at hfound
    obtain rfl := Scalar.eq_of_kind_of_text hfound.1 hfound.2
    exact hs (List.mem_of_getElem? hx)

/-- A table that is kept by hand stays in step with the parameters. -/
theorem table_intern : p.table.intern s = (parameterName (p.intern s).1, (p.intern s).2.table) := by
  rw [ParameterTable.intern, find?_table]
  by_cases hs : s ∈ p.scalars
  · rw [if_pos hs, intern_of_mem hs]
    rfl
  · rw [if_neg hs]
    have hscalars := scalars_intern_of_not_mem hs
    have hnext : (p.intern s).1 = p.size := by simp [intern, hs, size]
    have hentries : (p.intern s).2.table.entries =
        p.table.entries ++ [⟨parameterName p.size, s.kind, s.text⟩] := by
      rw [table, table, entries, entries, hscalars, List.length_append, List.length_singleton,
        List.range_succ, List.zip_append (by simp)]
      simp [size]
    have hsize : (p.intern s).2.table.next = p.size + 1 := by simp [table, size, hscalars]
    refine Prod.ext (by rw [hnext]; rfl) ?_
    show ParameterTable.mk (p.table.entries ++ _) (p.size + 1) = _
    rw [← hsize]
    exact congrArg (ParameterTable.mk · _) hentries.symm

/-! ## Runs -/

/-- The answers to several registrations, one after the other. -/
def answers (p : Parameters) : List Value → List (Except Error Binding)
  | [] => []
  | v :: vs => (p.register v).map Prod.fst :: (p.afterRegister v).answers vs

@[simp] theorem registerAll_nil : p.registerAll [] = p := rfl

@[simp] theorem registerAll_cons :
    p.registerAll (v :: vs) = (p.afterRegister v).registerAll vs := rfl

theorem registerAll_append :
    p.registerAll (before ++ after) = (p.registerAll before).registerAll after := by
  simp [registerAll]

/-- Each registration is answered by what the parameters are when its turn has come. -/
theorem getElem?_answers : (p.answers vs)[i]? =
    vs[i]?.map fun v => ((p.registerAll (vs.take i)).register v).map Prod.fst := by
  induction vs generalizing p i with
  | nil => rfl
  | cons v vs ih =>
    cases i with
    | zero => rfl
    | succ i => simpa [answers] using ih

/-- The answer to a scalar is the number that it has in the end. -/
theorem answer_of_scalar (h : vs[i]? = some (.scalar s)) :
    s ∈ (p.registerAll vs).scalars ∧
      (p.answers vs)[i]? = some (.ok (.parameter ((p.registerAll vs).number s))) := by
  obtain ⟨hi, hvalue⟩ := List.getElem?_eq_some_iff.mp h
  have hsplit : vs = vs.take i ++ .scalar s :: vs.drop (i + 1) := by
    rw [← hvalue, ← List.drop_eq_getElem_cons hi, List.take_append_drop]
  have hend : p.registerAll vs =
      ((p.registerAll (vs.take i)).intern s).2.registerAll (vs.drop (i + 1)) := by
    conv_lhs => rw [hsplit]
    rw [registerAll_append]
    rfl
  have hmem : s ∈ ((p.registerAll (vs.take i)).intern s).2.scalars := mem_intern.mpr (Or.inr rfl)
  have hpre : ((p.registerAll (vs.take i)).intern s).2.scalars <+: (p.registerAll vs).scalars :=
    hend ▸ prefix_registerAll
  refine ⟨hpre.subset hmem, ?_⟩
  rw [getElem?_answers, h, number_of_extends hpre hmem, ← intern_fst]
  rfl

/-- Different scalars have different numbers. -/
theorem number_inj (hs : s ∈ p.scalars) (ht : t ∈ p.scalars) (h : p.number s = p.number t) :
    s = t := by
  apply Option.some.inj
  rw [← getElem?_number hs, ← getElem?_number ht, h]

theorem table_prefix {q : Parameters} (h : p.scalars <+: q.scalars) :
    p.table.entries <+: q.table.entries := by
  rw [List.prefix_iff_getElem?]
  intro k hk
  have hlt : k < p.scalars.length := by
    rw [length_table] at hk
    exact hk
  rw [← List.getElem?_eq_getElem hk, getElem?_table, getElem?_table,
    List.prefix_iff_getElem?.mp h k hlt, List.getElem?_eq_getElem hlt]

/-- What the parameters are like after a run of registrations that began without any, and what
the run answered. -/
structure Coherent (vs : List Value) : Prop where
  /-- An entry is named after its place, and is of a kind that can be declared. -/
  named : ∀ (i : Nat) (e : ParameterTable.Entry),
    (registerAll .empty vs).table.entries[i]? = some e →
    e.name = "$p" ++ toString i ∧ (e.kind = .string ∨ e.kind = .int)
  /-- No two entries have the same kind and the same text. -/
  nodup : ((registerAll .empty vs).table.entries.map fun e => (e.kind, e.text)).Nodup
  /-- What there was earlier in the run is still there. -/
  grows : ∀ before after, vs = before ++ after →
    (registerAll .empty before).table.entries <+: (registerAll .empty vs).table.entries
  /-- A registration that fails changes nothing, nor does that of a name. -/
  unchanged : ∀ before v after, vs = before ++ v :: after →
    (v.kind.isScalar = false ∨ ∃ e, (registerAll .empty before).register v = .error e) →
      registerAll .empty (before ++ [v]) = registerAll .empty before
  /-- A scalar is looked up by its kind and its text, and is added under the next name if it is not
  there. -/
  interned : ∀ before s after, vs = before ++ .scalar s :: after →
    ∃ n, (registerAll .empty before).register (.scalar s) =
        .ok (.parameter n, registerAll .empty (before ++ [.scalar s])) ∧
      (registerAll .empty before).table.intern s =
        (parameterName n, (registerAll .empty (before ++ [.scalar s])).table)
  /-- At any two moments, scalars are answered by the same name exactly when they are the same. -/
  shared : ∀ (i j : Nat) (s t : Scalar), vs[i]? = some (.scalar s) → vs[j]? = some (.scalar t) →
    ∃ m n : Nat, (answers .empty vs)[i]? = some (.ok (.parameter m)) ∧
      (answers .empty vs)[j]? = some (.ok (.parameter n)) ∧
      (parameterName m = parameterName n ↔ s.kind = t.kind ∧ s.text = t.text)
  /-- There are as many bindings as entries, under different names. -/
  names_nodup : ((registerAll .empty vs).bindings.map Prod.fst).Nodup
  length_bindings : (registerAll .empty vs).bindings.length =
    (registerAll .empty vs).table.entries.length
  /-- The name of an entry is bound to its text. -/
  bound : ∀ e ∈ (registerAll .empty vs).table.entries,
    (e.name, e.text) ∈ (registerAll .empty vs).bindings
  /-- The declarations are those of the entries, in order, each with its type. -/
  declared : ∃ types : List String,
    (registerAll .empty vs).table.entries.map (fun e => e.kind.declaredType?) = types.map some ∧
    (registerAll .empty vs).declarations = ", ".intercalate
      (List.zipWith (fun e type => e.name ++ ": " ++ type) (registerAll .empty vs).table.entries
        types)

/-- After any run of registrations, of which some may fail, names, numbers, bindings and
declarations fit together. -/
theorem registerAll_coherent (vs : List Value) : Coherent vs where
  named i e h := by
    obtain ⟨s, -, rfl⟩ := exists_of_getElem?_table h
    refine ⟨rfl, ?_⟩
    cases s with
    | string text => exact Or.inl rfl
    | int n => exact Or.inr rfl
  nodup := by
    have hmap : (registerAll .empty vs).table.entries.map (fun e => (e.kind, e.text)) =
        (registerAll .empty vs).scalars.map fun s => (s.kind, s.text) := by
      apply List.ext_getElem?
      intro i
      rw [List.getElem?_map, getElem?_table, List.getElem?_map, Option.map_map]
      rfl
    rw [hmap]
    exact nodup_kind_text
  grows before after h := by
    rw [h, registerAll_append]
    exact table_prefix prefix_registerAll
  unchanged before v after _ h := by
    rw [registerAll_append, registerAll_cons, registerAll_nil]
    rcases h with hkind | ⟨e, herror⟩
    · rw [afterRegister_eq]
      cases v with
      | scalar s =>
        rw [Value.isScalar_kind_iff.mpr ⟨s, rfl⟩] at hkind
        cases hkind
      | uid text | predicate name => rfl
    · rw [afterRegister, herror]
  interned before s after _ := by
    rw [registerAll_append, table_intern]
    exact ⟨_, rfl, rfl⟩
  shared i j s t hs ht := by
    obtain ⟨hsmem, hsanswer⟩ := answer_of_scalar (p := .empty) hs
    obtain ⟨htmem, htanswer⟩ := answer_of_scalar (p := .empty) ht
    refine ⟨_, _, hsanswer, htanswer, ?_⟩
    constructor
    · intro hname
      obtain rfl := number_inj hsmem htmem (parameterName_injective hname)
      exact ⟨rfl, rfl⟩
    · intro hsame
      rw [Scalar.eq_of_kind_of_text hsame.1 hsame.2]
  names_nodup := nodup_names_bindings
  length_bindings := by rw [Parameters.length_bindings, length_table]
  bound e he := by
    obtain ⟨i, hi⟩ := List.mem_iff_getElem?.mp he
    obtain ⟨s, hs, rfl⟩ := exists_of_getElem?_table hi
    exact mem_bindings_of_getElem? hs
  declared := by
    refine ⟨(registerAll .empty vs).entries.map fun e => e.2.typeName, ?_, ?_⟩
    · rw [table, List.map_map, List.map_map]
      refine List.map_congr_left fun e _ => ?_
      exact Scalar.declaredType?_kind e.2
    · rw [declarations, table, List.zipWith_map]
      simp [List.zipWith_self]

end Parameters

end GraphQuery
