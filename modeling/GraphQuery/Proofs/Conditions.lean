import GraphQuery.Filter
import GraphQuery.Proofs.Filling

/-!
# Conditions

A condition has a list of conditions below it, so the recursion of `check` and
`template` runs through that list.  This module states both with the list
functions of the library, and packs the recursion into one induction principle
(`Condition.induction`) whose cases are the four constructors.

The last section says which conditions can be written.  Such a condition is
`WellFormed`: every combination in it has an operand, and every call passes
its check and has names of the right class as arguments.  Writing a filter
asks for this (`Filter.verdict_template`), while the check of a filter looks
at no name.
-/

namespace GraphQuery

namespace Condition

/-- What holds of every call, and of a combination when it holds of all its operands, holds of
every condition. -/
@[elab_as_elim]
theorem induction {motive : Condition → Prop} (call : ∀ c, motive (.call c))
    (and : ∀ cs, (∀ c ∈ cs, motive c) → motive (.and cs))
    (or : ∀ cs, (∀ c ∈ cs, motive c) → motive (.or cs))
    (not : ∀ c, motive c → motive (.not c)) (c : Condition) : motive c := by
  refine @Condition.rec motive (fun cs => ∀ c ∈ cs, motive c) call and or not ?_ ?_ c
  · intro c hc
    exact absurd hc List.not_mem_nil
  · intro c cs hhead htail c' hc'
    rcases List.mem_cons.mp hc' with rfl | hmem
    · exact hhead
    · exact htail c' hmem

/-- The check of the operands of a combination, which has to have some. -/
def checkOperands (cs : List Condition) : Verdict :=
  match cs with
  | [] => .error noOperand
  | cs => check.checkAll cs

theorem check_and (cs : List Condition) : check (.and cs) = checkOperands cs := by
  cases cs with
  | nil => rfl
  | cons c cs => rfl

theorem check_or (cs : List Condition) : check (.or cs) = checkOperands cs := by
  cases cs with
  | nil => rfl
  | cons c cs => rfl

theorem checkAll_eq_ok_iff {cs : List Condition} :
    check.checkAll cs = .ok () ↔ ∀ c ∈ cs, c.check = .ok () := by
  induction cs with
  | nil => simp [check.checkAll]
  | cons c cs ih =>
    cases hc : c.check with
    | error e => simp [check.checkAll, hc, bind, Except.bind]
    | ok u => simp [check.checkAll, hc, bind, Except.bind, ih]

theorem checkOperands_eq_ok_iff {cs : List Condition} :
    checkOperands cs = .ok () ↔ cs ≠ [] ∧ ∀ c ∈ cs, c.check = .ok () := by
  cases cs with
  | nil => simp [checkOperands]
  | cons c cs => simp [checkOperands, checkAll_eq_ok_iff]

/-- Operands that pass the same checks one by one pass the same check together. -/
theorem checkOperands_map {cs : List Condition} {f : Condition → Condition}
    (h : ∀ c ∈ cs, (f c).check = c.check) : checkOperands (cs.map f) = checkOperands cs := by
  have hall : check.checkAll (cs.map f) = check.checkAll cs := by
    induction cs with
    | nil => rfl
    | cons c cs ih =>
      rw [List.map_cons, check.checkAll, check.checkAll, h c List.mem_cons_self,
        ih fun c' hc' => h c' (List.mem_cons_of_mem c hc')]
  cases cs with
  | nil => rfl
  | cons c cs => exact hall

/-- The template of a condition where it is an operand. -/
def asOperand (c : Condition) : Template := operandTemplate c c.template

theorem operandTemplates_eq (cs : List Condition) :
    template.operandTemplates cs = cs.map asOperand := by
  induction cs with
  | nil => rfl
  | cons c cs ih => rw [template.operandTemplates, ih, List.map_cons, asOperand]

theorem template_and (cs : List Condition) :
    template (.and cs) = Template.join " AND " (cs.map asOperand) := by
  rw [template, operandTemplates_eq]

theorem template_or (cs : List Condition) :
    template (.or cs) = Template.join " OR " (cs.map asOperand) := by
  rw [template, operandTemplates_eq]

theorem template_not (c : Condition) : template (.not c) = .text "NOT " :: c.asOperand := by
  rw [template, asOperand]

/-- Parentheses around an operand change nothing about whether it can be written. -/
theorem verdict_asOperand {c : Condition} :
    c.asOperand.verdict = .ok () ↔ c.template.verdict = .ok () := by
  unfold asOperand operandTemplate
  split
  · exact Template.verdict_parenthesized_eq_ok_iff
  · exact Iff.rfl

theorem verdict_operands {cs : List Condition} {between : String} :
    (Template.join between (cs.map asOperand)).verdict = .ok () ↔
      ∀ c ∈ cs, c.template.verdict = .ok () := by
  rw [Template.verdict_join_eq_ok_iff, List.forall_mem_map]
  simp only [verdict_asOperand]

end Condition

/-! ## Well-formed conditions -/

/-- A value is a name of its class when it is a name at all. -/
theorem Value.check_eq_ok_iff {v : Value} : v.check = .ok () ↔
    (∀ text, v = .uid text → Name.checkIdentifier text = .ok ()) ∧
      ∀ name, v = .predicate name → Name.checkPredicate name = .ok () := by
  cases v with
  | scalar s | uid text | predicate name => simp [check]

/-- The call passes its check, and every name among its arguments is of its class. -/
structure Call.WellFormed (c : Call) : Prop where
  check : c.check = .ok ()
  uids : ∀ text, Value.uid text ∈ c.args → Name.checkIdentifier text = .ok ()
  predicates : ∀ name, Value.predicate name ∈ c.args → Name.checkPredicate name = .ok ()

namespace Call

theorem verdict_argPiece {f : FunctionName} {v : Value} : (argPiece f v).verdict = v.check := by
  unfold argPiece
  split <;> rfl

theorem verdict_template {c : Call} : c.template.verdict = .ok () ↔
    c.check = .ok () ∧ ∀ v ∈ c.args, v.check = .ok () := by
  unfold template
  rw [Template.verdict_demand_cons_eq_ok_iff, Template.verdict_text_cons,
    Template.verdict_parenthesized_eq_ok_iff, Template.verdict_join_eq_ok_iff]
  simp [Template.verdict_cons, verdict_argPiece]

/-- The well-formed calls are those that can be written. -/
theorem wellFormed_iff {c : Call} : c.WellFormed ↔ c.template.verdict = .ok () := by
  rw [verdict_template]
  constructor
  · intro h
    refine ⟨h.check, fun v hv => Value.check_eq_ok_iff.mpr ⟨?_, ?_⟩⟩
    · intro text heq
      obtain rfl := heq
      exact h.uids text hv
    · intro name heq
      obtain rfl := heq
      exact h.predicates name hv
  · intro hall
    obtain ⟨hcheck, hargs⟩ := hall
    exact ⟨hcheck, fun text hv => hargs _ hv, fun name hv => hargs _ hv⟩

end Call

/-- Every combination has an operand and every call is well formed. -/
inductive Condition.WellFormed : Condition → Prop where
  | call {c : Call} (h : c.WellFormed) : WellFormed (.call c)
  | and {cs : List Condition} (hne : cs ≠ []) (h : ∀ c ∈ cs, WellFormed c) : WellFormed (.and cs)
  | or {cs : List Condition} (hne : cs ≠ []) (h : ∀ c ∈ cs, WellFormed c) : WellFormed (.or cs)
  | not {c : Condition} (h : WellFormed c) : WellFormed (.not c)

/-- The filter is empty or its condition is well formed. -/
def Filter.WellFormed (f : Filter) : Prop :=
  ∀ c, f = some c → c.WellFormed

namespace Condition

/-- A condition is well formed when it passes its check and can be written. The check alone sees
the combinations without operands, and the writing alone the names. -/
theorem wellFormed_iff {c : Condition} :
    c.WellFormed ↔ c.check = .ok () ∧ c.template.verdict = .ok () := by
  constructor
  · intro h
    induction h with
    | call h => exact ⟨h.check, Call.wellFormed_iff.mp h⟩
    | and hne _ ih =>
      rw [check_and, checkOperands_eq_ok_iff, template_and, verdict_operands]
      exact ⟨⟨hne, fun c hc => (ih c hc).1⟩, fun c hc => (ih c hc).2⟩
    | or hne _ ih =>
      rw [check_or, checkOperands_eq_ok_iff, template_or, verdict_operands]
      exact ⟨⟨hne, fun c hc => (ih c hc).1⟩, fun c hc => (ih c hc).2⟩
    | not _ ih =>
      rw [template_not, Template.verdict_text_cons, verdict_asOperand]
      exact ih
  · induction c using Condition.induction with
    | call c =>
      intro h
      exact .call (Call.wellFormed_iff.mpr h.2)
    | and cs ih =>
      rw [check_and, checkOperands_eq_ok_iff, template_and, verdict_operands]
      intro hall
      obtain ⟨⟨hne, hcheck⟩, hverdict⟩ := hall
      exact .and hne fun c hc => ih c hc ⟨hcheck c hc, hverdict c hc⟩
    | or cs ih =>
      rw [check_or, checkOperands_eq_ok_iff, template_or, verdict_operands]
      intro hall
      obtain ⟨⟨hne, hcheck⟩, hverdict⟩ := hall
      exact .or hne fun c hc => ih c hc ⟨hcheck c hc, hverdict c hc⟩
    | not c ih =>
      rw [template_not, Template.verdict_text_cons, verdict_asOperand]
      intro h
      exact .not (ih h)

end Condition

/-- The well-formed filters are those that can be written. -/
theorem Filter.verdict_template {f : Filter} :
    Template.verdict f.template = .ok () ↔ f.WellFormed := by
  cases f with
  | none => simp [template, WellFormed]
  | some c =>
    simp only [template, Template.verdict_demand_cons_eq_ok_iff, Template.verdict_text_cons,
      Template.verdict_parenthesized_eq_ok_iff, WellFormed, Option.some.injEq, forall_eq',
      Condition.wellFormed_iff]

end GraphQuery
