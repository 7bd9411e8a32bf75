import GraphQuery.Proofs.Filling
import GraphQuery.Statement
import Mathlib

/-!
# The statement of a query or batch

Compiling checks a query, fills its block from no parameters and wraps the
text.  `Query.compile_eq` and `Batch.compile_eq` say the same in two parts
that do not meet: a verdict, and the statement that there is when the verdict
is favourable.

* `Query.verdict` and `Batch.verdict` are the checks in their order, with the
  verdicts of the blocks among them.
* `Query.parameters` and `Batch.parameters` are the scalars in the order of
  their first use, `Query.text` and `Batch.text` what stands in the braces.
-/

namespace GraphQuery

namespace Query

variable {q : Query}

/-- The check of the root function, which has to be there. -/
def checkRoot (q : Query) : Verdict :=
  match q.root? with
  | none => .error .missingFunction
  | some c => c.check

theorem checkQuery_eq : q.checkQuery =
    Name.checkPlain q.name >>= fun _ => q.checkRoot >>= fun _ => q.modifiers.checkFilters := by
  rw [checkQuery, checkRoot]
  cases q.root? <;> rfl

/-- The check of a query in query mode. -/
theorem check_eq_ok_iff (hq : q.operation = .query) : q.check = .ok () ↔
    q.encodingError? = none ∧ Name.checkPlain q.name = .ok () ∧ q.checkRoot = .ok () ∧
      q.modifiers.checkFilters = .ok () := by
  unfold check
  cases herror : q.encodingError? with
  | some message => simp
  | none => simp [hq, checkQuery_eq]

/-- The parameters of the statement that a query becomes. -/
def parameters (q : Query) : Parameters :=
  .internAll .empty q.block.scalars

/-- The block of a query as it stands in its own statement. -/
def text (q : Query) : String :=
  q.block.write q.parameters.number

/-- The first error in a query. -/
def verdict (q : Query) : Verdict := do
  q.check
  q.block.verdict

/-- The statement of a query without errors. -/
def statement (q : Query) : Statement where
  kind := .query
  text := if q.isStandalone then Statement.wrap q.name q.parameters q.text else q.text
  bindings := q.parameters.bindings

/-- A query is compiled to its statement, or to its first error. -/
theorem compile_eq (hq : q.operation = .query) :
    q.compile = q.verdict.map fun _ => q.statement := by
  rw [compile, verdict, hq]
  cases hcheck : q.check with
  | error e => rfl
  | ok u =>
    show q.queryStatement = q.block.verdict.map _
    cases hblock : q.block.verdict with
    | error e =>
      have hfill : (q.block.fill .empty).1 = .error e := by
        rw [Template.fill_fst, hblock]
        rfl
      simp only [queryStatement, hfill]
      rfl
    | ok u =>
      rw [queryStatement, Template.fill_eq hblock]
      rfl

theorem compile_eq_ok_iff (hq : q.operation = .query) {st : Statement} :
    q.compile = .ok st ↔ q.check = .ok () ∧ q.block.verdict = .ok () ∧ st = q.statement := by
  rw [compile_eq hq, ← and_assoc, ← Verdict.bind_eq_ok_iff (b := fun _ => q.block.verdict)]
  show Except.map _ q.verdict = _ ↔ q.verdict = _ ∧ _
  cases q.verdict with
  | error e => simp [Except.map]
  | ok u => simp [Except.map, eq_comm]

theorem exists_compile_iff (hq : q.operation = .query) :
    (∃ st, q.compile = .ok st) ↔ q.check = .ok () ∧ q.block.verdict = .ok () := by
  simp [compile_eq_ok_iff hq]

/-- A query that uses the integer 10 twice, in a window and in a filter. -/
def adults : Query :=
  build .empty
    [.root (.eq "name" (.string "alice")), .modify .root (.page (.first 10)),
      .modify .root (.filter (.ofCall (.eq "age" (.int 10)))),
      .select (.single { name := "friend", isObject := true })]

/-- The statement of `adults`. Its integer is one parameter. -/
theorem compile_adults : adults.compile = .ok
    ⟨.query, "query q($p0: string, $p1: int) \x7b q(func: eq(<name>, $p0), first: $p1) "
      ++ "@filter(eq(<age>, $p1)) \x7b friend \x7b uid \x7d uid \x7d \x7d",
      [("$p0", "alice"), ("$p1", "10")]⟩ := by
  cbv

end Query

namespace Batch

variable {b : Batch}

/-- The parameters of the statement that a batch becomes. -/
def parameters (b : Batch) : Parameters :=
  .internAll .empty b.body.scalars

/-- The blocks of a batch as they stand in its statement. -/
def text (b : Batch) : String :=
  b.body.write b.parameters.number

/-- The first error in a batch. -/
def verdict (b : Batch) : Verdict := do
  Verdict.ofBool (!b.queries.isEmpty) (.invalidArgument "query batch is empty")
  Name.checkPlain b.name
  b.body.verdict

/-- The statement of a batch without errors. -/
def statement (b : Batch) : Statement where
  kind := .query
  text := Statement.wrap b.name b.parameters b.text
  bindings := b.parameters.bindings

/-- A batch is compiled to its statement, or to its first error. -/
theorem compile_eq : b.compile = b.verdict.map fun _ => b.statement := by
  rw [compile, verdict]
  cases Verdict.ofBool (!b.queries.isEmpty) (.invalidArgument "query batch is empty") with
  | error e => rfl
  | ok u =>
    cases Name.checkPlain b.name with
    | error e => rfl
    | ok u =>
      show _ = b.body.verdict.map _
      cases hbody : b.body.verdict with
      | error e =>
        have hfill : (b.body.fill .empty).1 = .error e := by
          rw [Template.fill_fst, hbody]
          rfl
        simp only [hfill]
        rfl
      | ok u =>
        rw [Template.fill_eq hbody]
        rfl

theorem compile_eq_ok_iff {st : Statement} :
    b.compile = .ok st ↔ b.verdict = .ok () ∧ st = b.statement := by
  rw [compile_eq]
  cases b.verdict with
  | error e => simp [Except.map]
  | ok u => simp [Except.map, eq_comm]

theorem exists_compile_iff : (∃ st, b.compile = .ok st) ↔ b.verdict = .ok () := by
  simp [compile_eq_ok_iff]

/-- Two queries that have the integer 10 in common. -/
def tens : Batch :=
  ofList "tens" [Query.empty.build [.root (.eq "age" (.int 10))],
    Query.empty.build [.root (.eq "rank" (.int 10))]]

/-- The statement of `tens`. The integer is one parameter for both queries. -/
theorem compile_tens : tens.compile = .ok
    ⟨.query, "query tens($p0: int) \x7b q0(func: eq(<age>, $p0)) \x7b uid \x7d "
      ++ "q1(func: eq(<rank>, $p0)) \x7b uid \x7d \x7d", [("$p0", "10")]⟩ := by
  cbv

end Batch

end GraphQuery
