import GraphQuery.Proofs.Grammar

/-!
# What the text of a filter says

`Filter.reads_as_collapsed`: whatever parameters there were before, the text of
a filter is read as its condition and as nothing else, with two differences
that the text does not show.

* A combination of one operand is written like its operand
  (`Condition.collapse`).
* A call is told by its name and its arguments, so a custom function that has
  the name of a built-in one is read as that one (`Call.canonical`).

`Condition.holds` is the truth of a condition, given that of its calls.  It
does not depend on either difference.

An operand stands in parentheses exactly when it joins two or more conditions.
So every operand is read as an operand, and the text of a condition by itself
as a chain of operands; `Condition.WellFormed.reads` proves both at once.
-/

namespace GraphQuery

/-- The call of the function that the name stands for. -/
def Call.canonical (c : Call) : Call := .named c.function.name c.args

namespace Condition

/-- The condition with another call for each, and without combinations of one operand. -/
def collapse (f : Call → Call) : Condition → Condition
  | call c => .call (f c)
  | and cs => joined .and (collapseAll f cs)
  | or cs => joined .or (collapseAll f cs)
  | not c => .not (collapse f c)
where
  /-- Several conditions, each collapsed. -/
  collapseAll (f : Call → Call) : List Condition → List Condition
    | [] => []
    | c :: cs => collapse f c :: collapseAll f cs

/-- The condition is met, where the name and the arguments of a call tell whether the call is. -/
def holds (v : String → List Value → Bool) : Condition → Bool
  | call c => v c.function.name c.args
  | and cs => allHold v cs
  | or cs => anyHolds v cs
  | not c => !holds v c
where
  /-- All conditions are met. -/
  allHold (v : String → List Value → Bool) : List Condition → Bool
    | [] => true
    | c :: cs => holds v c && allHold v cs
  /-- Some condition is met. -/
  anyHolds (v : String → List Value → Bool) : List Condition → Bool
    | [] => false
    | c :: cs => holds v c || anyHolds v cs

section
variable {f : Call → Call} {v : String → List Value → Bool} {cs : List Condition}

theorem collapseAll_eq : collapse.collapseAll f cs = cs.map (collapse f) := by
  induction cs with
  | nil => rfl
  | cons c cs ih => rw [collapse.collapseAll, ih, List.map_cons]

theorem collapse_and : collapse f (.and cs) = joined .and (cs.map (collapse f)) := by
  rw [collapse, collapseAll_eq]

theorem collapse_or : collapse f (.or cs) = joined .or (cs.map (collapse f)) := by
  rw [collapse, collapseAll_eq]

theorem holds_and : holds v (.and cs) = cs.all (holds v) := by
  rw [holds]
  induction cs with
  | nil => rfl
  | cons c cs ih => rw [holds.allHold, ih, List.all_cons]

theorem holds_or : holds v (.or cs) = cs.any (holds v) := by
  rw [holds]
  induction cs with
  | nil => rfl
  | cons c cs ih => rw [holds.anyHolds, ih, List.any_cons]

theorem holds_joined_and : holds v (joined .and cs) = cs.all (holds v) := by
  match cs with
  | [c] => simp [joined]
  | [] | _ :: _ :: _ => exact holds_and

theorem holds_joined_or : holds v (joined .or cs) = cs.any (holds v) := by
  match cs with
  | [c] => simp [joined]
  | [] | _ :: _ :: _ => exact holds_or

end

end Condition

/-- Neither the functions of the calls nor combinations of one operand matter to the truth of a
condition. -/
theorem Condition.holds_collapse (v : String → List Value → Bool) (c : Condition) :
    (c.collapse Call.canonical).holds v = c.holds v := by
  induction c using Condition.induction with
  | call c =>
    show v (FunctionName.ofName c.function.name).name c.args = _
    rw [FunctionName.name_ofName]
    rfl
  | and cs ih =>
    rw [collapse_and, holds_joined_and, holds_and, List.all_map, Bool.eq_iff_iff, List.all_eq_true,
      List.all_eq_true]
    exact forall₂_congr fun c hc => by rw [Function.comp, ih c hc]
  | or cs ih =>
    rw [collapse_or, holds_joined_or, holds_or, List.any_map, Bool.eq_iff_iff, List.any_eq_true,
      List.any_eq_true]
    exact exists_congr fun c => and_congr_right fun hc => by rw [Function.comp, ih c hc]
  | not c ih => rw [collapse, holds, holds, ih]

/-- Parentheses have no places for values. -/
@[simp]
theorem Template.scalars_parenthesized {t : Template} : t.parenthesized.scalars = t.scalars := by
  show scalars (.text "(" :: (t ++ [.text ")"])) = _
  rw [scalars_cons, scalars_append, scalars_cons]
  simp [scalars, Piece.scalar?]

/-! ## Calls as they are written -/

namespace Call

variable {p : Parameters} {f : FunctionName} {v : Value} {vs : List Value} {c : Call}

theorem scalar?_argPiece : (argPiece f v).scalar? = v.scalar? := by
  unfold argPiece
  split <;> rfl

theorem scalars_template : c.template.scalars = c.args.filterMap Value.scalar? := by
  have hargs : ∀ vs : List Value,
      (vs.map fun v => [argPiece c.function v]).flatMap Template.scalars =
        vs.filterMap Value.scalar? := by
    intro vs
    induction vs with
    | nil => rfl
    | cons v vs ih =>
      rw [List.map_cons, List.flatMap_cons, ih, Template.scalars_cons, scalar?_argPiece]
      cases h : v.scalar? <;> simp [Template.scalars, h]
  rw [template, Template.scalars_cons, Template.scalars_cons, Template.scalars_parenthesized,
    Template.scalars_join, hargs]
  simp [Piece.scalar?]

/-- An argument is read as the value that it was written for. -/
theorem argument_reads (hv : v.check = .ok ()) (hp : ∀ s, v = .scalar s → s ∈ p.scalars) :
    v.ReadsAs p ((argPiece f v).write p.number).toList := by
  cases v with
  | scalar s =>
    have hscalar : (argPiece f (.scalar s)).scalar? = some s := scalar?_argPiece
    rw [Piece.write_of_scalar? hscalar]
    exact .parameter (Parameters.getElem?_number (hp s rfl))
  | uid text =>
    have hpiece : argPiece f (.uid text) = .argument (.uid text) := by
      unfold argPiece
      split <;> simp_all
    rw [hpiece]
    simp only [Piece.write, Value.binding, Binding.argument, String.toList_append]
    exact .uid (Verdict.ofBool_eq_ok_iff.mp hv)
  | predicate name =>
    have hname : Name.isPredicate name = true := Verdict.ofBool_eq_ok_iff.mp hv
    unfold argPiece
    split
    · exact .bare hname
    · simp only [Piece.write, Value.binding, Binding.argument, String.toList_append]
      exact .predicate hname

theorem arguments_read (hne : vs ≠ []) (hvs : ∀ v ∈ vs, v.check = .ok ())
    (hp : ∀ s, .scalar s ∈ vs → s ∈ p.scalars) :
    Value.ReadAs p (", ".intercalate (vs.map fun v => (argPiece f v).write p.number)).toList
      vs := by
  induction vs with
  | nil => exact absurd rfl hne
  | cons v vs ih =>
    have hv : v.ReadsAs p ((argPiece f v).write p.number).toList :=
      argument_reads (hvs v List.mem_cons_self) fun s hs => hp s (hs ▸ List.mem_cons_self)
    by_cases hnil : vs = []
    · subst hnil
      simpa using Value.ReadAs.last hv
    · have hrest := ih hnil (fun w hw => hvs w (List.mem_cons_of_mem v hw)) fun s hs =>
        hp s (List.mem_cons_of_mem v hs)
      rw [List.map_cons, String.intercalate_cons_of_ne_nil (by simpa using hnil)]
      simpa using Value.ReadAs.cons hv hrest

/-- A call is read as the call of the function that its name stands for. -/
theorem reads (hc : c.WellFormed) (hp : ∀ s ∈ c.template.scalars, s ∈ p.scalars) :
    c.canonical.ReadsAs p (c.template.write p.number).toList := by
  obtain ⟨hcheck, hargs⟩ := verdict_template.mp (wellFormed_iff.mp hc)
  have hname : Name.isFunctionName c.function.name = true :=
    Verdict.ofBool_eq_ok_iff.mp (checkFunction_of_check hcheck)
  have hne : c.args ≠ [] := by
    unfold check at hcheck
    simp only [Verdict.bind_eq_ok_iff, Verdict.ofBool_eq_ok_iff] at hcheck
    simpa using hcheck.2.2.1
  have hread := arguments_read (f := c.function) hne hargs fun s hs =>
    hp s (scalars_template ▸ List.mem_filterMap.mpr ⟨_, hs, rfl⟩)
  have htext : (c.template.write p.number).toList = c.function.name.toList ++ '(' ::
      ((", ".intercalate (c.args.map fun v => (argPiece c.function v).write p.number)).toList ++
        [')']) := by
    simp [template, Template.parenthesized, Template.write, Piece.write, Template.write_join,
      Function.comp_def]
  rw [htext]
  exact .call hname hread

end Call

/-! ## Conditions as they are written -/

namespace Condition

variable {p : Parameters} {c : Condition} {cs : List Condition} {text : List Char}

theorem scalars_asOperand : c.asOperand.scalars = c.template.scalars := by
  unfold asOperand operandTemplate
  split
  · rw [Template.scalars_parenthesized]
  · rfl

theorem scalars_operands {between : String} (hc : c ∈ cs) {s : Scalar}
    (hs : s ∈ c.template.scalars) :
    s ∈ (Template.join between (cs.map asOperand)).scalars := by
  rw [Template.scalars_join, List.flatMap_map]
  exact List.mem_flatMap.mpr ⟨c, hc, scalars_asOperand ▸ hs⟩


/-- In parentheses every condition is an operand. -/
theorem operand_of_reads (h : c.ReadsAs p text) :
    Phrase.ReadsAs p ('(' :: (text ++ [')'])) (.operand c) := by
  obtain ⟨cs, hcs, rfl⟩ := h
  exact .group hcs

/-- An operand by itself is a condition. -/
theorem reads_of_operand (h : Phrase.ReadsAs p text (.operand c)) : c.ReadsAs p text :=
  ⟨_, .disjunct (.conjunct h), rfl⟩

/-- What a written condition is read as: by itself, and where it is an operand. -/
structure Reads (p : Parameters) (c : Condition) : Prop where
  alone : (c.collapse Call.canonical).ReadsAs p (c.template.write p.number).toList
  operand : Phrase.ReadsAs p (c.asOperand.write p.number).toList
    (.operand (c.collapse Call.canonical))

theorem reads_of_joinsMany (hmany : c.joinsMany = true)
    (h : (c.collapse Call.canonical).ReadsAs p (c.template.write p.number).toList) :
    c.Reads p where
  alone := h
  operand := by
    have htext : (c.asOperand.write p.number).toList =
        '(' :: ((c.template.write p.number).toList ++ [')']) := by
      simp [asOperand, operandTemplate, hmany, Template.parenthesized, Template.write, Piece.write]
    rw [htext]
    exact operand_of_reads h

theorem reads_of_not_joinsMany (hmany : c.joinsMany = false)
    (h : Phrase.ReadsAs p (c.template.write p.number).toList
      (.operand (c.collapse Call.canonical))) : c.Reads p where
  alone := reads_of_operand h
  operand := by simpa [asOperand, operandTemplate, hmany] using h

/-- The text of several operands. -/
theorem write_operands {between : String} :
    (Template.join between (cs.map asOperand)).write p.number =
      between.intercalate (cs.map fun c => c.asOperand.write p.number) := by
  rw [Template.write_join, List.map_map]
  rfl

theorem conjuncts_read (hne : cs ≠ []) (h : ∀ c ∈ cs, c.Reads p) :
    Phrase.ReadsAs p (" AND ".intercalate (cs.map fun c => c.asOperand.write p.number)).toList
      (.conjuncts (cs.map (collapse Call.canonical))) := by
  induction cs with
  | nil => exact absurd rfl hne
  | cons c cs ih =>
    obtain ⟨hc, hcs⟩ := List.forall_mem_cons.mp h
    by_cases hnil : cs = []
    · subst hnil
      simpa using Phrase.ReadsAs.conjunct hc.operand
    · rw [List.map_cons, String.intercalate_cons_of_ne_nil (by simpa using hnil)]
      simpa using Phrase.ReadsAs.and hc.operand (ih hnil hcs)

theorem disjuncts_read (hne : cs ≠ []) (h : ∀ c ∈ cs, c.Reads p) :
    Phrase.ReadsAs p (" OR ".intercalate (cs.map fun c => c.asOperand.write p.number)).toList
      (.disjuncts (cs.map (collapse Call.canonical))) := by
  induction cs with
  | nil => exact absurd rfl hne
  | cons c cs ih =>
    obtain ⟨hc, hcs⟩ := List.forall_mem_cons.mp h
    by_cases hnil : cs = []
    · subst hnil
      simpa [joined] using Phrase.ReadsAs.disjunct (.conjunct hc.operand)
    · rw [List.map_cons, String.intercalate_cons_of_ne_nil (by simpa using hnil)]
      simpa [joined] using Phrase.ReadsAs.or (.conjunct hc.operand) (ih hnil hcs)

/-- A condition that can be written is read as what it says. -/
theorem WellFormed.reads (hc : c.WellFormed) (hp : ∀ s ∈ c.template.scalars, s ∈ p.scalars) :
    c.Reads p := by
  induction hc with
  | call h => exact reads_of_not_joinsMany rfl (.call (Call.reads h hp))
  | @and cs hne _ ih =>
    rw [template_and] at hp
    have hcs : ∀ c ∈ cs, c.Reads p := fun c hc => ih c hc fun s hs => hp s (scalars_operands hc hs)
    match cs with
    | [c] =>
      refine reads_of_not_joinsMany rfl ?_
      rw [template_and, collapse_and]
      exact (hcs c List.mem_cons_self).operand
    | c :: d :: cs =>
      refine reads_of_joinsMany rfl ?_
      rw [template_and, collapse_and, write_operands]
      exact ⟨_, .disjunct (conjuncts_read hne hcs), rfl⟩
  | @or cs hne _ ih =>
    rw [template_or] at hp
    have hcs : ∀ c ∈ cs, c.Reads p := fun c hc => ih c hc fun s hs => hp s (scalars_operands hc hs)
    match cs with
    | [c] =>
      refine reads_of_not_joinsMany rfl ?_
      rw [template_or, collapse_or]
      exact (hcs c List.mem_cons_self).operand
    | c :: d :: cs =>
      refine reads_of_joinsMany rfl ?_
      rw [template_or, collapse_or, write_operands]
      exact ⟨_, disjuncts_read hne hcs, rfl⟩
  | @not c _ ih =>
    have hscalars : (template (.not c)).scalars = c.template.scalars := by
      rw [template_not, Template.scalars_cons, scalars_asOperand]
      rfl
    have hoperand := (ih (hscalars ▸ hp)).operand
    refine reads_of_not_joinsMany rfl ?_
    rw [template_not, Template.write, String.toList_append, collapse]
    exact .not hoperand

end Condition

/-! ## The result -/

/-- A filling that yields a text writes it with the numbers that the scalars have in the end. -/
theorem Template.of_fill {t : Template} {p p' : Parameters} {text : String}
    (h : t.fill p = (.ok text, p')) :
    t.verdict = .ok () ∧ text = t.write p'.number ∧ ∀ s ∈ t.scalars, s ∈ p'.scalars := by
  cases hverdict : t.verdict with
  | error e =>
    have hfst := t.fill_fst p
    rw [h, hverdict] at hfst
    cases hfst
  | ok u =>
    rw [fill_eq hverdict] at h
    obtain ⟨htext, hp⟩ := Prod.mk.inj h
    subst hp
    exact ⟨rfl, (Except.ok.inj htext).symm, fun s hs => Parameters.mem_internAll.mpr (Or.inr hs)⟩

namespace Filter

variable {c : Condition} {p p' : Parameters} {text : String}

/-- The text of a filter that has been written, and what it is read as. -/
theorem reads_of_fill (h : (template (some c)).fill p = (.ok text, p')) :
    ∃ inner : String, text = "@filter(" ++ inner ++ ")" ∧
      (c.collapse Call.canonical).ReadsAs p' inner.toList := by
  obtain ⟨hverdict, rfl, hscalars⟩ := Template.of_fill h
  have hc : c.WellFormed := verdict_template.mp hverdict c rfl
  refine ⟨c.template.write p'.number, ?_, (hc.reads ?_).alone⟩
  · simp [template, Template.parenthesized, Template.write, Piece.write, ← String.append_assoc]
  · intro s hs
    apply hscalars
    rw [template, Template.scalars_cons, Template.scalars_cons, Template.scalars_parenthesized]
    simpa [Piece.scalar?] using hs

/-- The text of a filter is read as its condition and in no other way, so it is true when the
condition is, and tells the condition. -/
theorem reads_as_collapsed (h : (template (some c)).fill p = (.ok text, p')) :
    ∃ inner : String, text = "@filter(" ++ inner ++ ")" ∧
      (∀ d : Condition, d.ReadsAs p' inner.toList ↔ d = c.collapse Call.canonical) ∧
      (∀ (d : Condition) v, d.ReadsAs p' inner.toList → d.holds v = c.holds v) ∧
      ∀ (d : Condition) q, (template (some d)).fill q = (.ok text, p') →
        d.collapse Call.canonical = c.collapse Call.canonical := by
  obtain ⟨inner, htext, hreads⟩ := reads_of_fill h
  refine ⟨inner, htext, fun d => ⟨fun hd => hd.eq hreads, fun hd => hd ▸ hreads⟩, ?_, ?_⟩
  · intro d v hd
    rw [hd.eq hreads, Condition.holds_collapse]
  · intro d q hd
    obtain ⟨inner', htext', hreads'⟩ := reads_of_fill hd
    have hinner : "@filter(" ++ inner' ++ ")" = "@filter(" ++ inner ++ ")" :=
      htext'.symm.trans htext
    have hsame : inner' = inner := by simpa [String.append_assoc] using hinner
    exact hreads'.eq (hsame ▸ hreads)

/-- A filter in which a combination of one operand stands next to a nested one. -/
def nested : Condition :=
  .and [.or [.call (.eq "age" (.int 10))],
    .not (.or [.call (.has "~friend"),
      .and [.call (.uid ["0x1", "0x2"]), .call (.eq "name" (.string "alice"))]])]

/-- The text of `nested`, where its string has a number already. -/
theorem fill_nested :
    (template (some nested)).fill ⟨[.string "alice"], List.nodup_singleton _⟩ =
      (.ok ("@filter(eq(<age>, $p1) AND NOT (has(<~friend>) OR (uid(\x220x1\x22, \x220x2\x22) AND "
        ++ "eq(<name>, $p0))))"), ⟨[.string "alice", .int 10], by decide⟩) := by
  cbv

theorem nested_reads_as_collapsed :
    ∃ text p', (template (some nested)).fill ⟨[.string "alice"], List.nodup_singleton _⟩ =
        (.ok text, p') ∧
      ∃ inner : String, text = "@filter(" ++ inner ++ ")" ∧
        (∀ d : Condition, d.ReadsAs p' inner.toList ↔ d = nested.collapse Call.canonical) ∧
        (∀ (d : Condition) v, d.ReadsAs p' inner.toList → d.holds v = nested.holds v) ∧
        ∀ (d : Condition) q, (template (some d)).fill q = (.ok text, p') →
          d.collapse Call.canonical = nested.collapse Call.canonical :=
  ⟨_, _, fill_nested, reads_as_collapsed fill_nested⟩

/-- A custom function that has the name of a built-in one is written, and so read, as that one. -/
theorem custom_has_reads_as_has :
    (template (some (.call (.has "name")))).fill .empty = (.ok "@filter(has(<name>))", .empty) ∧
    (template (some (.call ⟨.custom "has", [.predicate "name"]⟩))).fill .empty =
      (.ok "@filter(has(<name>))", .empty) ∧
    (Condition.call (.has "name")).ReadsAs .empty "has(<name>)".toList ∧
    ¬((Condition.call ⟨.custom "has", [.predicate "name"]⟩).collapse id).ReadsAs .empty
      "has(<name>)".toList := by
  have hname : Value.ReadsAs .empty "<name>".toList (.predicate "name") :=
    .predicate (by decide : Name.isPredicate "name" = true)
  have hcall : (Call.named "has" [.predicate "name"]).ReadsAs .empty "has(<name>)".toList :=
    .call (by decide : Name.isFunctionName "has" = true) (.last hname)
  have hreads : (Condition.call (.has "name")).ReadsAs .empty "has(<name>)".toList :=
    Condition.reads_of_operand (.call hcall)
  refine ⟨by cbv, by cbv, hreads, fun h => ?_⟩
  simpa [Condition.collapse, Call.has] using h.eq hreads

end Filter

end GraphQuery
