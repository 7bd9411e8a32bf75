import GraphQuery.Proofs.Blocks

/-!
# Header, body and bindings agree

A statement with parameters has three parts that have to fit together: the
header that declares the parameters, the body that refers to them, and the
bindings that give them their values.  `Statement.Agrees` spells out what this
means for the scalars that stand in a block, and `compile_agrees` shows it of
every statement that a standalone query or a batch is compiled to.

The part about the body is the theory of references: a block that can be
written is plain and sealed, so its references are exactly its places, and
they are numbered in the order of their first use.
-/

namespace GraphQuery

/-- The statement has the `body` of a block in its braces and stands for the `scalars` of the
block, the one with index `i` under the name with number `i`. -/
structure Statement.Agrees (st : Statement) (name : String) (block : Template)
    (scalars : List Scalar) (declarations : List String) (body : String) : Prop where
  /-- The place of each scalar is written as the name with the number of the scalar. -/
  body_eq : body = block.write scalars.idxOf
  mem_scalars : ∀ s, s ∈ scalars ↔ s ∈ block.scalars
  /-- No two parameters have the same kind and the same text. -/
  nodup : (scalars.map fun s => (s.kind, s.text)).Nodup
  /-- Without parameters there is no header. -/
  text_of_nil : scalars = [] → st.text = "\x7b " ++ body ++ " \x7d"
  text_of_ne_nil : scalars ≠ [] → st.text =
    "query " ++ name ++ "(" ++ ", ".intercalate declarations ++ ") \x7b " ++ body ++ " \x7d"
  /-- The header declares one parameter for each scalar, in order. -/
  length_declarations : declarations.length = scalars.length
  names_nodup : (st.bindings.map Prod.fst).Nodup
  mem_names : ∀ key, key ∈ st.bindings.map Prod.fst ↔ ∃ i < scalars.length, key = parameterName i
  /-- An integer is declared as one and bound to its decimal text. -/
  int : ∀ i n, scalars[i]? = some (.int n) →
    declarations[i]? = some (parameterName i ++ ": int") ∧
      (parameterName i, toString n.toInt) ∈ st.bindings
  /-- A string is declared as one and bound to itself. -/
  string : ∀ i text, scalars[i]? = some (.string text) →
    declarations[i]? = some (parameterName i ++ ": string") ∧
      (parameterName i, text) ∈ st.bindings
  /-- Every `$` of the body starts the name of a parameter, behind which no digit stands. -/
  refers_of_sigil : ∀ before after, body.toList = before ++ '$' :: after →
    ∃ i < scalars.length, RefersAt body.toList i before
  /-- Every parameter is referred to. -/
  refers : ∀ i < scalars.length, ∃ before, RefersAt body.toList i before
  /-- What has a smaller number is referred to earlier. -/
  refers_earlier : ∀ i j before, i < j → RefersAt body.toList j before →
    ∃ earlier, RefersAt body.toList i earlier ∧ earlier.length < before.length

namespace Parameters

variable {p : Parameters}

/-- The declaration of each parameter, in order. -/
def declared (p : Parameters) : List String :=
  p.entries.map fun e => parameterName e.1 ++ ": " ++ e.2.typeName

theorem getElem?_declared {i : Nat} {s : Scalar} (h : p.scalars[i]? = some s) :
    p.declared[i]? = some (parameterName i ++ (": " ++ s.typeName)) := by
  rw [declared, List.getElem?_map, getElem?_entries, h, ← String.append_assoc]
  rfl

end Parameters

/-- A plain and sealed block yields a statement whose parts agree. -/
theorem Template.agrees {t : Template} {st : Statement} {name : String} (hplain : t.Plain)
    (hsealed : t.Sealed)
    (htext : st.text = Statement.wrap name (.internAll .empty t.scalars)
      (t.write (Parameters.internAll .empty t.scalars).number))
    (hbindings : st.bindings = (Parameters.internAll .empty t.scalars).bindings) :
    st.Agrees name t (Parameters.internAll .empty t.scalars).scalars
      (Parameters.internAll .empty t.scalars).declared
      (t.write (Parameters.internAll .empty t.scalars).number) where
  body_eq := rfl
  mem_scalars s := by
    rw [Parameters.mem_internAll]
    simp
  nodup := Parameters.nodup_kind_text
  text_of_nil hnil := by
    rw [htext, Statement.wrap, Parameters.isEmpty, hnil]
    rfl
  text_of_ne_nil hne := by
    rw [htext, Statement.wrap, Parameters.isEmpty, if_neg (by simpa using hne)]
    rfl
  length_declarations := by
    rw [Parameters.declared, List.length_map, ← List.length_map (f := Prod.fst),
      Parameters.map_fst_entries, List.length_range]
    rfl
  names_nodup := hbindings ▸ Parameters.nodup_names_bindings
  mem_names key := hbindings ▸ Parameters.mem_names_bindings
  int i n hn := ⟨Parameters.getElem?_declared hn,
    hbindings ▸ Parameters.mem_bindings_of_getElem? hn⟩
  string i text htext := ⟨Parameters.getElem?_declared htext,
    hbindings ▸ Parameters.mem_bindings_of_getElem? htext⟩
  refers_of_sigil before after hsigil := by
    obtain ⟨s, hs, hrefers⟩ := refersAt_of_sigil hplain hsealed hsigil
    exact ⟨_, Parameters.number_lt (Parameters.mem_internAll.mpr (Or.inr hs)), hrefers⟩
  refers i hi := exists_refersAt hplain hsealed hi
  refers_earlier i j before hij hj := refersAt_earlier hplain hsealed hij hj

/-- The statement of a standalone query, and that of a batch, is one whose parts agree. -/
theorem compile_agrees :
    (∀ (q : Query) (st : Statement), q.operation = .query → q.isStandalone = true →
      q.compile = .ok st →
        ∃ scalars declarations body, st.Agrees q.name q.block scalars declarations body) ∧
    ∀ (b : Batch) (st : Statement), b.compile = .ok st →
      ∃ scalars declarations body, st.Agrees b.name b.body scalars declarations body := by
  constructor
  · intro q st hquery hstandalone h
    obtain ⟨hcheck, hblock, rfl⟩ := (Query.compile_eq_ok_iff hquery).mp h
    have hname := ((Query.check_eq_ok_iff hquery).mp hcheck).2.1
    have hplain := Query.plain_block hname hblock
    refine ⟨_, _, _, Template.agrees hplain Query.sealed_block ?_ rfl⟩
    unfold Query.statement
    rw [if_pos hstandalone]
    rfl
  · intro b st h
    obtain ⟨hverdict, rfl⟩ := Batch.compile_eq_ok_iff.mp h
    have hmembers := (Batch.verdict_eq_ok_iff.mp hverdict).2.2
    have hplain := Batch.plain_body (Batch.verdict_body.mpr hmembers)
    exact ⟨_, _, _, Template.agrees hplain Batch.sealed_body rfl rfl⟩

/-- The parts agree for a query with two parameters, and for a batch of two queries that share one
of them. -/
theorem adults_and_tens_agree :
    (∃ st, Query.adults.compile = .ok st ∧ ∃ scalars declarations body,
      st.Agrees Query.adults.name Query.adults.block scalars declarations body) ∧
    ∃ st, Batch.tens.compile = .ok st ∧ ∃ scalars declarations body,
      st.Agrees Batch.tens.name Batch.tens.body scalars declarations body :=
  ⟨⟨_, Query.compile_adults, compile_agrees.1 _ _ rfl rfl Query.compile_adults⟩,
    ⟨_, Batch.compile_tens, compile_agrees.2 _ _ Batch.compile_tens⟩⟩

end GraphQuery
