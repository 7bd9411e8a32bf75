import GraphQuery.Proofs.Blocks

/-!
# A batch against its queries one by one

A batch compiles its queries with one list of parameters.  So the block of a
query in a batch is not the text that the query has by itself: its parameters
are those of the batch, with other numbers.  This module shows that the
numbers are all that differs.

`renameParameters` is the operation on texts.  It reads the numbers off the
characters, so it is the blocks being plain and sealed that makes it exchange
with the numbering of a template (`renameParameters_write`).
`Parameters.renumber` is the map on numbers, from the parameters of a query to
those of the batch.
-/

namespace GraphQuery

/-! ## Renaming the parameters in a text -/

/-- The text with another number in each name of a parameter. -/
def renameParameters (r : Nat → Nat) : List Char → List Char
  | [] => []
  | '$' :: 'p' :: rest =>
    (parameterName (r (Nat.ofDigitChars 10 (rest.takeWhile Char.isDigit) 0))).toList
      ++ renameParameters r (rest.dropWhile Char.isDigit)
  | c :: rest => c :: renameParameters r rest
termination_by cs => cs.length
decreasing_by
  · have := (List.dropWhile_sublist Char.isDigit (l := rest)).length_le
    simp only [List.length_cons]
    omega
  · simp

section Renaming

variable {r : Nat → Nat}

theorem renameParameters_append {word rest : List Char} (h : sigil ∉ word) :
    renameParameters r (word ++ rest) = word ++ renameParameters r rest := by
  induction word with
  | nil => rfl
  | cons c word ih =>
    obtain ⟨hc, hword⟩ := List.ne_and_not_mem_of_not_mem_cons h
    rw [List.cons_append, renameParameters, ih hword, List.cons_append]
    intro cs hcs
    exact absurd hcs.symm hc

theorem renameParameters_name {i : Nat} {c : Char} {cs : List Char} (hc : c.isDigit = false) :
    renameParameters r ((parameterName i).toList ++ c :: cs) =
      (parameterName (r i)).toList ++ renameParameters r (c :: cs) := by
  rw [toList_parameterName, List.cons_append, List.cons_append, renameParameters,
    takeWhile_toDigits hc, dropWhile_toDigits hc, Nat.ofDigitChars_ten_toDigits]

/-- Renaming the parameters in the text of a template is numbering its scalars anew. -/
theorem Template.renameParameters_write {t : Template} {n : Scalar → Nat} (hplain : t.Plain)
    (hsealed : t.Sealed) :
    renameParameters r (t.write n).toList = (t.write fun s => r (n s)).toList := by
  induction t with
  | nil => rw [write, write, String.toList_empty, renameParameters]
  | cons piece t ih =>
    obtain ⟨hpiece, ht⟩ := plain_cons.mp hplain
    rw [write, write, String.toList_append, String.toList_append, ← ih ht hsealed.2]
    cases hs : piece.scalar? with
    | none =>
      rw [renameParameters_append (hpiece hs n),
        Piece.write_congr_of_none (m := fun s => r (n s)) hs]
    | some s =>
      -- Behind the name stands a character that is no digit.
      obtain ⟨text, rest, c, cs, rfl, htext, hc⟩ := hsealed.1 (by rw [hs]; rfl)
      rw [Piece.write_of_scalar? hs, Piece.write_of_scalar? hs, write, Piece.write,
        String.toList_append, htext, List.cons_append, renameParameters_name hc]

example : renameParameters (· + 4) "eq(<a>, $p0, $p12)".toList = "eq(<a>, $p4, $p16)".toList := by
  cbv

end Renaming

namespace Parameters

variable {p q : Parameters} {s : Scalar} {i j : Nat}

/-- Where the scalar with the number is among other parameters. -/
def renumber (p q : Parameters) (i : Nat) : Nat :=
  (p.scalars[i]?.map q.number).getD i

theorem renumber_number (hs : s ∈ p.scalars) : p.renumber q (p.number s) = q.number s := by
  rw [renumber, getElem?_number hs]
  rfl

/-- A parameter is renumbered to one that stands for the same scalar. -/
theorem getElem?_renumber (hpq : ∀ s ∈ p.scalars, s ∈ q.scalars) (hi : p.scalars[i]? = some s) :
    q.scalars[p.renumber q i]? = some s := by
  rw [renumber, hi]
  exact getElem?_number (hpq s (List.mem_of_getElem? hi))

/-- Different parameters stay different. -/
theorem renumber_inj (hpq : ∀ s ∈ p.scalars, s ∈ q.scalars) (hi : i < p.size) (hj : j < p.size)
    (h : p.renumber q i = p.renumber q j) : i = j := by
  obtain ⟨s, hs⟩ : ∃ s, p.scalars[i]? = some s := ⟨_, List.getElem?_eq_getElem hi⟩
  obtain ⟨x, hx⟩ : ∃ x, p.scalars[j]? = some x := ⟨_, List.getElem?_eq_getElem hj⟩
  have hqs := getElem?_renumber hpq hs
  have hqx := getElem?_renumber hpq hx
  rw [h, hqx] at hqs
  rw [← number_eq hs, ← number_eq hx, Option.some.inj hqs]

end Parameters

/-! ## Batches as they are built -/

/-- A query as the member of a batch with the given index. -/
def Query.asMember (i : Nat) (q : Query) : Query :=
  { q with name := "q" ++ toString i, isStandalone := false }

namespace Batch

variable {b : Batch} {qs : List Query} {name : String}

/-- The batch comes from pushing the queries in turn, to an empty batch or to one that was made
from a list. -/
inductive Built : List Query → Batch → Prop where
  | ofList (name : String) (qs : List Query) : Built qs (.ofList name qs)
  | push {qs : List Query} {b : Batch} (q : Query) (h : Built qs b) : Built (qs ++ [q]) (b.push q)

theorem push_eq {q : Query} :
    b.push q = { b with queries := b.queries ++ [q.asMember b.queries.length] } := rfl

theorem foldl_push : qs.foldl push b =
    { b with
      queries := b.queries ++ qs.mapIdx fun i => Query.asMember (b.queries.length + i) } := by
  induction qs generalizing b with
  | nil => simp
  | cons q qs ih =>
    rw [List.foldl_cons, ih, push_eq]
    simp [Nat.add_assoc, Nat.add_comm 1]

/-- However a batch is built, its members are the queries under the names of their places. -/
theorem Built.queries_eq (h : Built qs b) : b.queries = qs.mapIdx Query.asMember := by
  induction h with
  | ofList name qs =>
    rw [Batch.ofList, foldl_push]
    simp [empty]
  | push q _ ih =>
    rw [push_eq]
    simp [ih]

theorem Built.mem_queries_iff (h : Built qs b) {m : Query} :
    m ∈ b.queries ↔ ∃ i q, qs[i]? = some q ∧ m = Query.asMember i q := by
  rw [h.queries_eq, List.mem_iff_getElem?]
  simp only [List.getElem?_mapIdx]
  constructor
  · intro hall
    obtain ⟨i, hi⟩ := hall
    obtain ⟨q, hq, rfl⟩ := Option.map_eq_some_iff.mp hi
    exact ⟨i, q, hq, rfl⟩
  · intro hall
    obtain ⟨i, q, hq, rfl⟩ := hall
    exact ⟨i, by rw [hq]; rfl⟩

/-! ## The scalars and blocks of a batch -/

theorem scalars_body : b.body.scalars = b.queries.flatMap fun q => q.block.scalars := by
  rw [body, Template.scalars_join, List.flatMap_map]
  rfl

/-- A batch has the parameters of its queries and no others. -/
theorem mem_parameters {s : Scalar} :
    s ∈ b.parameters.scalars ↔ ∃ q ∈ b.queries, s ∈ q.parameters.scalars := by
  unfold parameters Query.parameters
  simp [Parameters.mem_internAll, scalars_body]

/-- The texts of the queries in the batch. -/
def blocks (b : Batch) : List String :=
  b.queries.map fun q => q.block.write b.parameters.number

theorem text_eq : b.text = " ".intercalate b.blocks := by
  rw [text, body, Template.write_join, List.map_map, blocks]
  congr 2

/-- The block of a query in a batch is the text of the query by itself, renumbered. -/
theorem block_eq {q : Query} (hplain : q.block.Plain) :
    q.block.write b.parameters.number = String.ofList
      (renameParameters (q.parameters.renumber b.parameters) q.text.toList) := by
  rw [Query.text, Template.renameParameters_write hplain Query.sealed_block, String.ofList_toList]
  apply Template.write_congr
  intro s hs
  rw [Parameters.renumber_number]
  unfold Query.parameters
  exact Parameters.mem_internAll.mpr (Or.inr hs)

end Batch

/-! ## Batching -/

/-- Compiling the query by itself yields the statement, and its parameters are those given. -/
structure Query.Alone (q : Query) (st : Statement) (p : Parameters) : Prop where
  compile : q.compile = .ok st
  fill : q.block.fill .empty = (.ok st.text, p)
  bindings : st.bindings = p.bindings

/-- The statement of a batch is put together from the texts of its queries by themselves. -/
structure Batch.Merges (b : Batch) (qs : List Query) (st : Statement) (p : Parameters)
    (blocks : List String) : Prop where
  fill : b.body.fill .empty = (.ok (" ".intercalate blocks), p)
  text : st.text = Statement.wrap b.name p (" ".intercalate blocks)
  bindings : st.bindings = p.bindings
  length_blocks : blocks.length = qs.length
  /-- Each block is the text of its query by itself with the parameters renamed, one by one and to
  parameters of the same kind and value. -/
  block : ∀ (i : Nat) (q : Query), qs[i]? = some q → ∃ single own r,
    Query.Alone (q.asMember i) single own ∧
    blocks[i]? = some (String.ofList (renameParameters r single.text.toList)) ∧
    (∀ j k, j < own.size → k < own.size → r j = r k → j = k) ∧
    ∀ j s, own.scalars[j]? = some s → p.scalars[r j]? = some s
  /-- The parameters are those of the queries by themselves and no others. -/
  mem_scalars : ∀ s, s ∈ p.scalars ↔ ∃ (i : Nat) (q : Query) (single : Statement)
    (own : Parameters), qs[i]? = some q ∧ Query.Alone (q.asMember i) single own ∧
      s ∈ own.scalars

theorem Query.alone {q : Query} (hq : q.operation = .query) (hstandalone : q.isStandalone = false)
    (hcheck : q.check = .ok ()) (hblock : q.block.verdict = .ok ()) :
    q.Alone q.statement q.parameters where
  compile := (compile_eq_ok_iff hq).mpr ⟨hcheck, hblock, rfl⟩
  fill := by
    rw [Template.fill_eq hblock, statement, hstandalone]
    rfl
  bindings := rfl

namespace Batch

variable {b : Batch} {qs : List Query}

theorem merges (h : Built qs b) (hverdict : b.verdict = .ok ()) :
    b.Merges qs b.statement b.parameters b.blocks := by
  have hmembers := (verdict_eq_ok_iff.mp hverdict).2.2
  have hmem {i : Nat} {q : Query} (hq : qs[i]? = some q) : q.asMember i ∈ b.queries :=
    h.mem_queries_iff.mpr ⟨i, q, hq, rfl⟩
  have halone {i : Nat} {q : Query} (hq : qs[i]? = some q) :
      Query.Alone (q.asMember i) (q.asMember i).statement (q.asMember i).parameters := by
    obtain ⟨hquery, hcheck, hblock⟩ := hmembers _ (hmem hq)
    exact Query.alone hquery rfl hcheck hblock
  refine ⟨?_, ?_, rfl, ?_, ?_, ?_⟩
  · rw [Template.fill_eq (verdict_body.mpr hmembers), ← text_eq]
    rfl
  · rw [← text_eq]
    rfl
  · rw [blocks, h.queries_eq, List.length_map, List.length_mapIdx]
  · intro i q hq
    obtain ⟨hquery, hcheck, hblock⟩ := hmembers _ (hmem hq)
    have hname := ((Query.check_eq_ok_iff hquery).mp hcheck).2.1
    have hplain := Query.plain_block hname hblock
    have hsub : ∀ s ∈ (q.asMember i).parameters.scalars, s ∈ b.parameters.scalars :=
      fun s hs => mem_parameters.mpr ⟨_, hmem hq, hs⟩
    refine ⟨_, _, _, halone hq, ?_, fun j k => Parameters.renumber_inj hsub,
      fun j s => Parameters.getElem?_renumber hsub⟩
    rw [blocks, List.getElem?_map, h.queries_eq, List.getElem?_mapIdx, hq]
    exact congrArg some (block_eq hplain)
  · intro s
    rw [mem_parameters]
    constructor
    · intro hall
      obtain ⟨m, hm, hs⟩ := hall
      obtain ⟨i, q, hq, rfl⟩ := h.mem_queries_iff.mp hm
      exact ⟨i, q, _, _, hq, halone hq, hs⟩
    · intro hall
      obtain ⟨i, q, single, own, hq, hown, hs⟩ := hall
      -- A block is filled in one way only, so these are the parameters of the query.
      have hfill := hown.fill.symm.trans (halone hq).fill
      rw [(Prod.mk.inj hfill).2] at hs
      exact ⟨_, hmem hq, hs⟩

/-- The members of a batch are usable exactly when the queries are and compile by themselves. -/
theorem members_iff (h : Built qs b) :
    (∀ m ∈ b.queries, m.operation = .query ∧ m.check = .ok () ∧ m.block.verdict = .ok ()) ↔
      (∀ q ∈ qs, q.operation = .query) ∧
      ∀ (i : Nat) (q : Query), qs[i]? = some q → ∃ st, (q.asMember i).compile = .ok st := by
  constructor
  · intro hmembers
    have hquery : ∀ q ∈ qs, q.operation = .query := by
      intro q hq
      obtain ⟨i, hi⟩ := List.getElem?_of_mem hq
      exact (hmembers _ (h.mem_queries_iff.mpr ⟨i, q, hi, rfl⟩)).1
    refine ⟨hquery, fun i q hq => ?_⟩
    have hm := hmembers _ (h.mem_queries_iff.mpr ⟨i, q, hq, rfl⟩)
    exact (Query.exists_compile_iff hm.1).mpr hm.2
  · intro hall m hm
    obtain ⟨hquery, hcompile⟩ := hall
    obtain ⟨i, q, hq, rfl⟩ := h.mem_queries_iff.mp hm
    have hoperation : (q.asMember i).operation = .query := hquery q (List.mem_of_getElem? hq)
    exact ⟨hoperation, (Query.exists_compile_iff hoperation).mp (hcompile i q hq)⟩

/-- A batch compiles when its queries do one by one, and to their texts side by side. -/
theorem compile_refines (h : Built qs b) :
    ((∃ st, b.compile = .ok st) ↔ qs ≠ [] ∧ Name.checkPlain b.name = .ok () ∧
      (∀ q ∈ qs, q.operation = .query) ∧
      ∀ (i : Nat) (q : Query), qs[i]? = some q → ∃ st, (q.asMember i).compile = .ok st) ∧
    ∀ st, b.compile = .ok st → ∃ p blocks, b.Merges qs st p blocks := by
  constructor
  · have hnil : b.queries ≠ [] ↔ qs ≠ [] := by
      rw [h.queries_eq, Ne, List.mapIdx_eq_nil_iff]
    rw [exists_compile_iff, verdict_eq_ok_iff, hnil, members_iff h]
  · intro st hst
    obtain ⟨hverdict, rfl⟩ := compile_eq_ok_iff.mp hst
    exact ⟨_, _, merges h hverdict⟩

/-- The batch of two queries that share the integer 10, built in two ways at once. -/
theorem compile_refines_tens : ∃ st p blocks, tens.compile = .ok st ∧ tens.Merges
    ([Query.empty.build [.root (.eq "age" (.int 10))]]
      ++ [Query.empty.build [.root (.eq "rank" (.int 10))]]) st p blocks := by
  have hbuilt := (Built.ofList "tens" [Query.empty.build [.root (.eq "age" (.int 10))]]).push
    (Query.empty.build [.root (.eq "rank" (.int 10))])
  obtain ⟨p, blocks, h⟩ := (compile_refines hbuilt).2 _ compile_tens
  exact ⟨_, p, blocks, compile_tens, h⟩

end Batch

end GraphQuery
