import GraphQuery.Proofs.Clauses
import GraphQuery.Proofs.Compiling
import GraphQuery.Proofs.Conditions
import GraphQuery.Proofs.References

/-!
# The blocks of queries are plain and sealed

References in the text of a template can be read off when the template is
`Plain` and `Sealed`.  Here both are shown of every template that a query is
made of, from the arguments of a call up to the body of a batch.

* Being sealed is a matter of punctuation and holds of every block.  A list
  of arguments is not sealed by itself, since its last argument may be a
  parameter.  It is `Sealable`: whatever comes next and does not begin with a
  digit closes it.
* Being plain is what the checks of names are for: a name of any class has no
  `$` in it.  So a template is plain when it can be written.
-/

namespace GraphQuery

/-! ## Names without the sigil -/

@[simp] theorem sigil_not_mem_append {a b : String} :
    sigil ∉ (a ++ b).toList ↔ sigil ∉ a.toList ∧ sigil ∉ b.toList := by
  rw [String.toList_append, List.mem_append, not_or]

theorem sigil_not_mem_intercalate {between : String} {words : List String}
    (hbetween : sigil ∉ between.toList) (h : ∀ word ∈ words, sigil ∉ word.toList) :
    sigil ∉ (between.intercalate words).toList := by
  induction words with
  | nil => simp
  | cons word words ih =>
    obtain ⟨hword, hwords⟩ := List.forall_mem_cons.mp h
    by_cases hnil : words = []
    · simpa [hnil] using hword
    · rw [String.intercalate_cons_of_ne_nil hnil]
      simp only [sigil_not_mem_append]
      exact ⟨⟨hword, hbetween⟩, ih hwords⟩

theorem sigil_not_mem_toString (n : Nat) : sigil ∉ (toString n).toList := by
  intro h
  rw [Nat.toString_eq_repr, Nat.toList_repr] at h
  exact sigil_not_mem_digits n (List.mem_cons_of_mem 'p' h)

namespace Name

variable {text : String}

/-- Taking away a reverse mark takes away no other character. -/
theorem mem_unmarked {c : Char} {cs : List Char} (hc : c ≠ reverseMark) (h : c ∈ cs) :
    c ∈ unmarked cs := by
  cases cs with
  | nil => exact h
  | cons d cs =>
    rw [unmarked]
    by_cases hd : d = reverseMark
    · rw [if_pos hd]
      rcases List.mem_cons.mp h with hcd | hcs
      · exact absurd (hcd.trans hd) hc
      · exact hcs
    · rw [if_neg hd]
      exact h

/-- Of the characters that a name must not have, only the reverse mark may occur. -/
theorem not_mem_of_isPredicate {c : Char} (hmark : c ≠ reverseMark)
    (hc : isPredicateChar c = false) (h : isPredicate text = true) : c ∉ text.toList := by
  intro hmem
  simp only [isPredicate, Bool.and_eq_true, List.all_eq_true] at h
  have hchar := h.2 c (mem_unmarked hmark hmem)
  rw [hc] at hchar
  cases hchar

/-- No name of any class has the character. -/
def isForeign (c : Char) : Bool :=
  c != reverseMark && !isPredicateChar c && !isFunctionChar c

section
variable {c : Char} (hc : isForeign c = true)
include hc

theorem not_mem_of_checkPredicate (h : checkPredicate text = .ok ()) : c ∉ text.toList := by
  simp only [isForeign, Bool.and_eq_true, bne_iff_ne, Bool.not_eq_true'] at hc
  exact not_mem_of_isPredicate hc.1.1 hc.1.2 (Verdict.ofBool_eq_ok_iff.mp h)

theorem not_mem_of_checkPlain (h : checkPlain text = .ok ()) : c ∉ text.toList :=
  not_mem_of_checkPredicate hc
    (Verdict.ofBool_eq_ok_iff.mpr (isPredicate_of_isPlainName (Verdict.ofBool_eq_ok_iff.mp h)))

theorem not_mem_of_checkFunction (h : checkFunction text = .ok ()) : c ∉ text.toList := by
  intro hmem
  have hfunction := Verdict.ofBool_eq_ok_iff.mp h
  simp only [isFunctionName, Bool.and_eq_true, List.all_eq_true] at hfunction
  simp [isForeign, hfunction.2 c hmem] at hc

theorem not_mem_of_checkIdentifier (h : checkIdentifier text = .ok ()) : c ∉ text.toList := by
  intro hmem
  have hid := Verdict.ofBool_eq_ok_iff.mp h
  simp only [isIdentifier, Bool.and_eq_true, List.all_eq_true] at hid
  simp [isForeign, isFunctionChar, hid.2 c hmem] at hc

end

theorem sigil_not_mem_of_checkPredicate (h : checkPredicate text = .ok ()) :
    sigil ∉ text.toList :=
  not_mem_of_checkPredicate (by decide) h

theorem sigil_not_mem_of_checkPlain (h : checkPlain text = .ok ()) : sigil ∉ text.toList :=
  not_mem_of_checkPlain (by decide) h

theorem sigil_not_mem_of_checkIdentifier (h : checkIdentifier text = .ok ()) :
    sigil ∉ text.toList :=
  not_mem_of_checkIdentifier (by decide) h

theorem sigil_not_mem_of_checkFunction (h : checkFunction text = .ok ()) :
    sigil ∉ text.toList :=
  not_mem_of_checkFunction (by decide) h

theorem sigil_not_mem_withoutMarks (h : sigil ∉ text.toList) :
    sigil ∉ (withoutMarks text).toList := by
  rw [withoutMarks, String.toList_ofList]
  exact fun hmem => h ((List.dropWhile_sublist _).subset hmem)

end Name

/-! ## Plain pieces -/

namespace Piece

@[simp] theorem plain_text {s : String} : Plain (.text s) ↔ sigil ∉ s.toList := by
  simp [Plain, scalar?, write]

@[simp] theorem plain_demand {check : Verdict} : Plain (.demand check) := by
  simp [Plain, write]

theorem plain_argument {v : Value} (h : v.check = .ok ()) : Plain (.argument v) := by
  intro hv number
  cases v with
  | scalar s => cases hv
  | uid text =>
    have htext := Name.sigil_not_mem_of_checkIdentifier h
    simpa [write, Value.binding, Binding.argument, sigil] using htext
  | predicate name =>
    have hname := Name.sigil_not_mem_of_checkPredicate h
    simpa [write, Value.binding, Binding.argument, sigil] using hname

theorem plain_bare {v : Value} (h : v.check = .ok ()) : Plain (.bare v) := by
  intro hv number
  cases v with
  | scalar s => cases hv
  | uid text => exact Name.sigil_not_mem_of_checkIdentifier h
  | predicate name => exact Name.sigil_not_mem_of_checkPredicate h

end Piece

namespace Template

variable {t u : Template} {piece : Piece} {ts : List Template} {between s : String}

/-! ## Plain templates -/

@[simp] theorem plain_nil : Plain [] := fun _ h => absurd h List.not_mem_nil

@[simp] theorem plain_cons : Plain (piece :: t) ↔ piece.Plain ∧ Plain t :=
  List.forall_mem_cons

@[simp] theorem plain_append : Plain (t ++ u) ↔ Plain t ∧ Plain u :=
  List.forall_mem_append

theorem plain_join (hbetween : sigil ∉ between.toList) (h : ∀ t ∈ ts, Plain t) :
    Plain (join between ts) := by
  intro piece hpiece
  rcases mem_join hpiece with rfl | ⟨t, ht, hmem⟩
  · exact Piece.plain_text.mpr hbetween
  · exact h t ht piece hmem

theorem plain_flatMap {α : Type} {xs : List α} {f : α → Template}
    (hbetween : sigil ∉ between.toList) (h : ∀ x ∈ xs, Plain (f x)) :
    Plain (xs.flatMap fun x => .text between :: f x) := by
  intro piece hpiece
  obtain ⟨x, hx, hmem⟩ := List.mem_flatMap.mp hpiece
  rcases List.mem_cons.mp hmem with rfl | hmem
  · exact Piece.plain_text.mpr hbetween
  · exact h x hx piece hmem

@[simp] theorem plain_parenthesized : t.parenthesized.Plain ↔ Plain t := by
  simp [parenthesized, sigil]

/-! ## Sealed templates -/

/-- What does not begin with a digit closes the template. -/
def Sealable (t : Template) : Prop :=
  ∀ u : Template, u.BeginsApart → u.Sealed → Sealed (t ++ u)

@[simp] theorem sealed_nil : Sealed [] := trivial

@[simp] theorem sealed_text_cons : Sealed (.text s :: t) ↔ t.Sealed := by
  simp [Sealed, Piece.scalar?]

@[simp] theorem sealed_demand_cons {check : Verdict} :
    Sealed (.demand check :: t) ↔ t.Sealed := by
  simp [Sealed, Piece.scalar?]

theorem Sealed.sealable (h : Sealed t) : Sealable t := fun _ _ hu => h.append hu

theorem sealable_singleton : Sealable [piece] := fun _ hapart hu => ⟨fun _ => hapart, hu⟩

theorem Sealable.text_cons (h : Sealable t) : Sealable (.text s :: t) :=
  fun u hapart hu => sealed_text_cons.mpr (h u hapart hu)

theorem Sealable.append (ht : Sealable t) (hapart : BeginsApart u) (hu : Sealable u) :
    Sealable (t ++ u) := by
  intro rest hrest hsealed
  rw [List.append_assoc]
  exact ht _ hapart.append (hu rest hrest hsealed)

theorem Sealed.join (h : ∀ t ∈ ts, Sealed t) : Sealed (join between ts) := by
  induction ts with
  | nil => exact sealed_nil
  | cons t ts ih =>
    obtain ⟨ht, hts⟩ := List.forall_mem_cons.mp h
    cases ts with
    | nil => exact ht
    | cons t' ts => exact ht.append (sealed_text_cons.mpr (ih hts))

theorem Sealable.join (hapart : BeginsApart [.text between]) (h : ∀ t ∈ ts, Sealable t) :
    Sealable (join between ts) := by
  induction ts with
  | nil => exact sealed_nil.sealable
  | cons t ts ih =>
    obtain ⟨ht, hts⟩ := List.forall_mem_cons.mp h
    cases ts with
    | nil => exact ht
    | cons t' ts => exact ht.append hapart.append (ih hts).text_cons

theorem Sealed.flatMap {α : Type} {xs : List α} {f : α → Template} (h : ∀ x ∈ xs, Sealed (f x)) :
    Sealed (xs.flatMap f) := by
  induction xs with
  | nil => exact sealed_nil
  | cons x xs ih =>
    obtain ⟨hx, hxs⟩ := List.forall_mem_cons.mp h
    exact hx.append (ih hxs)

theorem Sealable.flatMap (hapart : BeginsApart [.text between]) (h : ∀ t ∈ ts, Sealable t) :
    Sealable (ts.flatMap fun t => .text between :: t) := by
  induction ts with
  | nil => exact sealed_nil.sealable
  | cons t ts ih =>
    obtain ⟨ht, hts⟩ := List.forall_mem_cons.mp h
    cases ts with
    | nil => simpa using ht.text_cons
    | cons t' ts => exact ht.text_cons.append hapart.append (ih hts)

theorem Sealable.parenthesized (h : Sealable t) : t.parenthesized.Sealed :=
  h.text_cons _ ⟨_, [], ')', [], rfl, rfl, by decide⟩ (sealed_text_cons.mpr sealed_nil)

theorem beginsApart_comma : BeginsApart [.text ", "] :=
  ⟨_, [], ',', [' '], rfl, rfl, by decide⟩

end Template

/-! ## Calls and conditions -/

namespace Call

variable {c : Call}

/-- A call that passes its check has the name of a function. -/
theorem checkFunction_of_check (h : c.check = .ok ()) :
    Name.checkFunction c.function.name = .ok () := by
  unfold check at h
  simp only [Verdict.bind_eq_ok_iff] at h
  exact h.2.1

theorem plain_argPiece {f : FunctionName} {v : Value} (h : v.check = .ok ()) :
    (argPiece f v).Plain := by
  unfold argPiece
  split
  · exact Piece.plain_bare h
  · exact Piece.plain_argument h

theorem plain_template (h : c.template.verdict = .ok ()) : Template.Plain c.template := by
  obtain ⟨hcheck, hargs⟩ := verdict_template.mp h
  have hname := Name.sigil_not_mem_of_checkFunction (checkFunction_of_check hcheck)
  unfold template
  rw [Template.plain_cons, Template.plain_cons, Template.plain_parenthesized, Piece.plain_text]
  refine ⟨Piece.plain_demand, hname, Template.plain_join (by decide) ?_⟩
  intro t ht
  obtain ⟨v, hv, rfl⟩ := List.mem_map.mp ht
  exact Template.plain_cons.mpr ⟨plain_argPiece (hargs v hv), Template.plain_nil⟩

theorem sealed_template : Template.Sealed c.template := by
  unfold template
  rw [Template.sealed_demand_cons, Template.sealed_text_cons]
  apply Template.Sealable.parenthesized
  apply Template.Sealable.join Template.beginsApart_comma
  intro t ht
  obtain ⟨v, -, rfl⟩ := List.mem_map.mp ht
  exact Template.sealable_singleton

end Call

namespace Condition

theorem plain_asOperand {c : Condition} (h : c.template.Plain) : c.asOperand.Plain := by
  unfold asOperand operandTemplate
  split
  · exact Template.plain_parenthesized.mpr h
  · exact h

theorem sealed_asOperand {c : Condition} (h : c.template.Sealed) : c.asOperand.Sealed := by
  unfold asOperand operandTemplate
  split
  · exact h.sealable.parenthesized
  · exact h

theorem plain_operands {cs : List Condition} {between : String}
    (hbetween : sigil ∉ between.toList)
    (h : (Template.join between (cs.map asOperand)).verdict = .ok ())
    (ih : ∀ c ∈ cs, c.template.verdict = .ok () → c.template.Plain) :
    Template.Plain (Template.join between (cs.map asOperand)) := by
  apply Template.plain_join hbetween
  intro t ht
  obtain ⟨c, hc, rfl⟩ := List.mem_map.mp ht
  exact plain_asOperand (ih c hc (verdict_operands.mp h c hc))

theorem sealed_operands {cs : List Condition} {between : String}
    (ih : ∀ c ∈ cs, c.template.Sealed) :
    Template.Sealed (Template.join between (cs.map asOperand)) := by
  apply Template.Sealed.join
  intro t ht
  obtain ⟨c, hc, rfl⟩ := List.mem_map.mp ht
  exact sealed_asOperand (ih c hc)

theorem plain_template {c : Condition} (h : c.template.verdict = .ok ()) : c.template.Plain := by
  induction c using Condition.induction with
  | call c => exact Call.plain_template h
  | and cs ih =>
    rw [template_and] at h ⊢
    exact plain_operands (by decide) h ih
  | or cs ih =>
    rw [template_or] at h ⊢
    exact plain_operands (by decide) h ih
  | not c ih =>
    rw [template_not, Template.verdict_text_cons] at h
    rw [template_not, Template.plain_cons]
    exact ⟨Piece.plain_text.mpr (by decide), plain_asOperand (ih (verdict_asOperand.mp h))⟩

theorem sealed_template (c : Condition) : c.template.Sealed := by
  induction c using Condition.induction with
  | call c => exact Call.sealed_template
  | and cs ih =>
    rw [template_and]
    exact sealed_operands ih
  | or cs ih =>
    rw [template_or]
    exact sealed_operands ih
  | not c ih =>
    rw [template_not, Template.sealed_text_cons]
    exact sealed_asOperand ih

end Condition

/-! ## Modifiers and clauses -/

theorem Filter.plain_template {f : Filter} (h : f.template.verdict = .ok ()) :
    Template.Plain f.template := by
  cases f with
  | none => exact Template.plain_nil
  | some c =>
    have hc : c.template.verdict = .ok () := by
      simp only [template, Template.verdict_demand_cons_eq_ok_iff, Template.verdict_text_cons,
        Template.verdict_parenthesized_eq_ok_iff] at h
      exact h.2
    unfold template
    rw [Template.plain_cons, Template.plain_cons, Template.plain_parenthesized]
    exact ⟨Piece.plain_demand, Piece.plain_text.mpr (by decide), Condition.plain_template hc⟩

theorem Filter.sealed_template (f : Filter) : Template.Sealed f.template := by
  cases f with
  | none => exact Template.sealed_nil
  | some c =>
    unfold template
    rw [Template.sealed_demand_cons, Template.sealed_text_cons]
    exact (Condition.sealed_template c).sealable.parenthesized

/-- An argument of a block or field: a label, and a value without quotes or brackets. -/
theorem Template.plain_labelled {label : String} {v : Value} (hlabel : sigil ∉ label.toList)
    (h : Template.verdict [.text label, .bare v] = .ok ()) :
    Template.Plain [.text label, .bare v] := by
  have hv : v.check = .ok () := by simpa using h
  simp [hlabel, Piece.plain_bare hv]

theorem Page.plain_template {p : Page} (h : p.template.verdict = .ok ()) :
    Template.Plain p.template := by
  cases p with
  | first n | offset n | after uid => exact Template.plain_labelled (by decide) h

theorem Page.sealable_template (p : Page) : Template.Sealable p.template := by
  cases p with
  | first n | offset n | after uid => exact Template.sealable_singleton.text_cons

theorem OrderBy.plain_template {o : OrderBy} (h : o.template.verdict = .ok ()) :
    Template.Plain o.template := by
  obtain ⟨direction, predicate⟩ := o
  cases direction with
  | ascending | descending => exact Template.plain_labelled (by decide) h

theorem OrderBy.sealable_template (o : OrderBy) : Template.Sealable o.template := by
  obtain ⟨direction, predicate⟩ := o
  cases direction with
  | ascending | descending => exact Template.sealable_singleton.text_cons

namespace Clauses

variable {t : Target} {ms : List Modifier} {u : Template}

theorem plain_of_mem_args (hu : u ∈ (ofModifiers t ms).args) (h : u.verdict = .ok ()) :
    u.Plain := by
  rcases mem_args.mp hu with ⟨p, -, rfl⟩ | ⟨o, -, rfl⟩
  · exact Page.plain_template h
  · exact OrderBy.plain_template h

theorem sealable_of_mem_args (hu : u ∈ (ofModifiers t ms).args) : u.Sealable := by
  rcases mem_args.mp hu with ⟨p, -, rfl⟩ | ⟨o, -, rfl⟩
  · exact Page.sealable_template p
  · exact OrderBy.sealable_template o

theorem plain_of_mem_directives (hu : u ∈ (ofModifiers t ms).directives)
    (h : u.verdict = .ok ()) : u.Plain := by
  rcases mem_directives.mp hu with ⟨c, -, rfl⟩ | ⟨-, rfl⟩
  · exact Filter.plain_template h
  · simp [sigil]

theorem sealed_of_mem_directives (hu : u ∈ (ofModifiers t ms).directives) : u.Sealed := by
  rcases mem_directives.mp hu with ⟨c, -, rfl⟩ | ⟨-, rfl⟩
  · exact Filter.sealed_template (some c)
  · simp

theorem plain_demands : (ofModifiers t ms).demands.Plain := by
  intro piece hpiece
  obtain ⟨check, rfl⟩ := mem_demands hpiece
  exact Piece.plain_demand

theorem sealed_demands : (ofModifiers t ms).demands.Sealed := by
  rw [ofModifiers_eq]
  apply Template.Sealed.flatMap
  intro m hm
  cases m with
  | aggregate a => simp [Modifier.demands]
  | page p | order o | filter f | facets => exact Template.sealed_nil

theorem plain_directives (h : ∀ u ∈ (ofModifiers t ms).directives, u.verdict = .ok ()) :
    Template.Plain ((ofModifiers t ms).directives.flatMap fun u => .text " " :: u) :=
  Template.plain_flatMap (by decide) fun u hu => plain_of_mem_directives hu (h u hu)

theorem sealed_directives :
    Template.Sealed ((ofModifiers t ms).directives.flatMap fun u => .text " " :: u) := by
  apply Template.Sealed.flatMap
  intro u hu
  exact Template.sealed_text_cons.mpr (sealed_of_mem_directives hu)

theorem plain_template (h : (ofModifiers t ms).template.verdict = .ok ()) :
    (ofModifiers t ms).template.Plain := by
  obtain ⟨hargs, hdirectives⟩ := verdict_template.mp h
  unfold template
  rw [Template.plain_append]
  refine ⟨?_, plain_directives hdirectives⟩
  split
  · exact Template.plain_nil
  · rw [Template.plain_cons, Template.plain_parenthesized]
    refine ⟨Piece.plain_text.mpr (by decide), Template.plain_join (by decide) ?_⟩
    intro u hu
    exact plain_of_mem_args hu (hargs u hu)

theorem sealed_template : (ofModifiers t ms).template.Sealed := by
  unfold template
  apply Template.Sealed.append _ sealed_directives
  split
  · exact Template.sealed_nil
  · rw [Template.sealed_text_cons]
    apply Template.Sealable.parenthesized
    exact Template.Sealable.join Template.beginsApart_comma fun u hu => sealable_of_mem_args hu

end Clauses

/-! ## Fields and selections -/

theorem Aggregate.sigil_not_mem_head {a : Aggregate} {t : Target}
    (hkey : sigil ∉ (a.key t).toList) (hname : sigil ∉ t.predicate.toList) :
    sigil ∉ (a.head t).toList := by
  have hkind : sigil ∉ a.kind.name.toList := by cases a.kind <;> decide
  unfold head
  simp only [sigil_not_mem_append]
  exact ⟨⟨⟨⟨⟨hkey, by decide⟩, hkind⟩, by decide⟩, hname⟩, by decide⟩

namespace Field

variable {f : Field} {ms : Modifiers} {path : Path}

theorem sigil_not_mem_name (h : f.checkName = .ok ()) : sigil ∉ f.name.toList := by
  unfold checkName at h
  exact Name.sigil_not_mem_of_checkPredicate (Verdict.bind_eq_ok_iff.mp h).2

theorem sigil_not_mem_label (hname : f.checkName = .ok ()) (halias : f.checkAlias = .ok ()) :
    sigil ∉ f.label.toList := by
  have hplain := sigil_not_mem_name hname
  unfold label
  cases ha : f.alias? with
  | none =>
    show sigil ∉ (if f.isReverse then Name.withoutMarks f.name ++ " : " ++ f.name
      else f.name).toList
    split
    · simp only [sigil_not_mem_append]
      exact ⟨⟨Name.sigil_not_mem_withoutMarks hplain, by decide⟩, hplain⟩
    · exact hplain
  | some a =>
    simp only [checkAlias, ha] at halias
    simp only [sigil_not_mem_append]
    exact ⟨⟨Name.sigil_not_mem_of_checkPlain halias, by decide⟩, hplain⟩

theorem plain_template (h : (f.template ms path).verdict = .ok ()) :
    (f.template ms path).Plain := by
  obtain ⟨hname, hdemands, hclauses, halias⟩ := verdict_template.mp h
  have hplain : (f.clauses ms path).template.Plain := Clauses.plain_template hclauses
  have hclean : (f.clauses ms path).demands.Plain := Clauses.plain_demands
  cases hhead : (f.clauses ms path).head? with
  | none =>
    have hlabel := sigil_not_mem_label hname (halias (head?_eq_none_iff.mp hhead))
    rw [template_of_no_head hhead]
    simp [hlabel, hplain, hclean]
  | some head =>
    obtain ⟨a, ha, rfl⟩ := Clauses.head?_eq_some hhead
    have hkey := Name.sigil_not_mem_of_checkPredicate (Clauses.verdict_demands.mp hdemands a ha).2
    have hsigil := Aggregate.sigil_not_mem_head hkey (sigil_not_mem_name hname)
    rw [template_of_head hhead]
    simp [hsigil, hplain, hclean]

theorem sealed_template : (f.template ms path).Sealed := by
  have hrest {s : String} : Template.Sealed (.demand f.checkName :: (f.clauses ms path).demands
      ++ .text s :: (f.clauses ms path).template) := by
    apply Template.Sealed.append
    · exact Template.sealed_demand_cons.mpr Clauses.sealed_demands
    · exact Template.sealed_text_cons.mpr Clauses.sealed_template
  cases hhead : (f.clauses ms path).head? with
  | none =>
    rw [template_of_no_head hhead]
    exact hrest.append (Template.sealed_demand_cons.mpr Template.sealed_nil)
  | some head =>
    rw [template_of_head hhead]
    exact hrest

end Field

namespace Selection

variable {ms : Modifiers} {path : Path} {t : Template}

theorem plain_braced (h : t.Plain) : (braced t).Plain := by
  simp [braced, h, sigil, Field.selectorName]

theorem sealed_braced (h : t.Sealed) : (braced t).Sealed := by
  unfold braced
  exact (Template.sealed_text_cons.mpr h).append (Template.sealed_text_cons.mpr Template.sealed_nil)

theorem plain_fields {s : Selection} (h : (s.fields ms path).verdict = .ok ()) :
    (s.fields ms path).Plain := by
  induction s generalizing path with
  | nil => exact Template.plain_nil
  | cons f children rest ihchildren ihrest =>
    obtain ⟨hfield, hrest⟩ := verdict_fields_cons.mp h
    rw [fields, Template.plain_append]
    refine ⟨?_, ihrest hrest⟩
    split
    · exact Template.plain_nil
    · next hselector =>
      obtain ⟨htemplate, hchildren⟩ := hfield (Bool.eq_false_iff.mpr hselector)
      rw [Template.plain_append, Template.plain_cons]
      refine ⟨⟨Piece.plain_text.mpr (by decide), Field.plain_template htemplate⟩, ?_⟩
      split
      · next hwritten =>
        simp only [Bool.and_eq_true, Bool.not_eq_true'] at hwritten
        exact Template.plain_cons.mpr ⟨Piece.plain_text.mpr (by decide),
          plain_braced (ihchildren (hchildren hwritten.1))⟩
      · exact Template.plain_nil

theorem sealed_fields {s : Selection} : (s.fields ms path).Sealed := by
  induction s generalizing path with
  | nil => exact Template.sealed_nil
  | cons f children rest ihchildren ihrest =>
    rw [fields]
    apply Template.Sealed.append _ ihrest
    split
    · exact Template.sealed_nil
    · apply Template.Sealed.append (Template.sealed_text_cons.mpr Field.sealed_template)
      split
      · exact Template.sealed_text_cons.mpr (sealed_braced ihchildren)
      · exact Template.sealed_nil

end Selection

/-! ## Directives and blocks -/

namespace Directive

theorem sigil_not_mem_withArgs {name : String} {args : List String} (hname : sigil ∉ name.toList)
    (hargs : ∀ arg ∈ args, sigil ∉ arg.toList) : sigil ∉ (withArgs name args).toList := by
  unfold withArgs
  split
  · exact hname
  · simp only [sigil_not_mem_append]
    exact ⟨⟨⟨hname, by decide⟩, sigil_not_mem_intercalate (by decide) hargs⟩, by decide⟩

theorem sigil_not_mem_recurseArgs {depth? : Option UInt32} {allowLoop : Bool} :
    ∀ arg ∈ recurseArgs depth? allowLoop, sigil ∉ arg.toList := by
  intro arg harg
  rcases List.mem_append.mp harg with hdepth | hloop
  · obtain ⟨depth, -, rfl⟩ := Option.map_eq_some_iff.mp (Option.mem_toList.mp hdepth)
    exact sigil_not_mem_append.mpr ⟨by decide, sigil_not_mem_toString _⟩
  · cases allowLoop with
    | false => cases hloop
    | true =>
      rw [List.mem_singleton.mp hloop]
      decide

/-- A directive can be written when the predicates of a cascade are well formed. -/
theorem verdict_template {d : Directive} : d.template.verdict = .ok () ↔
    ∀ predicates, d = .cascade predicates →
      ∀ name ∈ predicates, Name.checkPredicate name = .ok () := by
  cases d with
  | cascade predicates =>
    unfold template
    rw [Template.verdict_append_eq_ok_iff, Template.verdict_eq_ok_iff, List.forall_mem_map]
    simp [Piece.verdict]
  | normalize | ignoreReflex | recurse depth? allowLoop => simp [template]

theorem plain_template {d : Directive} (h : d.template.verdict = .ok ()) :
    d.template.Plain := by
  cases d with
  | cascade predicates =>
    have hnames := verdict_template.mp h predicates rfl
    unfold template
    rw [Template.plain_append, Template.plain_cons, Piece.plain_text]
    refine ⟨?_, sigil_not_mem_withArgs (by decide) ?_, Template.plain_nil⟩
    · intro piece hpiece
      obtain ⟨name, -, rfl⟩ := List.mem_map.mp hpiece
      exact Piece.plain_demand
    · intro name hname
      exact Name.sigil_not_mem_of_checkPredicate (hnames name hname)
  | normalize | ignoreReflex => simp [template, sigil]
  | recurse depth? allowLoop =>
    have htext : sigil ∉ (withArgs "@recurse" (recurseArgs depth? allowLoop)).toList :=
      sigil_not_mem_withArgs (by decide) sigil_not_mem_recurseArgs
    simp [template, htext]

theorem sealed_template {d : Directive} : d.template.Sealed := by
  cases d with
  | cascade predicates =>
    unfold template
    apply Template.Sealed.append
    · induction predicates with
      | nil => exact Template.sealed_nil
      | cons name names ih => exact Template.sealed_demand_cons.mpr ih
    · exact Template.sealed_text_cons.mpr Template.sealed_nil
  | normalize | ignoreReflex | recurse depth? allowLoop =>
    exact Template.sealed_text_cons.mpr Template.sealed_nil

end Directive

namespace Query

variable {q : Query}

theorem plain_rootTemplate (h : q.rootTemplate.verdict = .ok ()) : q.rootTemplate.Plain := by
  unfold rootTemplate at h ⊢
  cases hroot : q.root? with
  | none => simp
  | some c =>
    rw [hroot] at h
    exact Call.plain_template h

theorem sealed_rootTemplate : q.rootTemplate.Sealed := by
  unfold rootTemplate
  cases q.root? with
  | none => simp
  | some c => exact Call.sealed_template

/-- The clauses of the root block. -/
def clauses (q : Query) : Clauses :=
  .ofModifiers q.target (q.modifiers.forPath .root)

/-- The block of a query, grouped by what has to be closed. -/
theorem block_eq : q.block =
    (.text (q.name ++ "(func: ") :: q.rootTemplate ++ q.clauses.demands)
      ++ ((q.clauses.args.flatMap fun a => .text ", " :: a)
      ++ .text ")" :: ((q.clauses.directives.flatMap fun d => .text " " :: d)
        ++ (q.directives.flatMap fun d => .text " " :: d.template)
        ++ .text " " :: q.selection.template q.modifiers .root)) := by
  simp [block, clauses]

/-- A block can be written when all its parts can. -/
theorem verdict_block : q.block.verdict = .ok () ↔
    q.rootTemplate.verdict = .ok () ∧ q.clauses.demands.verdict = .ok () ∧
      q.clauses.template.verdict = .ok () ∧ (∀ d ∈ q.directives, d.template.verdict = .ok ()) ∧
      (q.selection.fields q.modifiers .root).verdict = .ok () := by
  rw [Clauses.verdict_template]
  simp [block_eq, Selection.template, Selection.verdict_braced, and_assoc]

/-- The block of a query that can be written is plain. -/
theorem plain_block (hname : Name.checkPlain q.name = .ok ()) (h : q.block.verdict = .ok ()) :
    q.block.Plain := by
  obtain ⟨hroot, -, hclauses, hown, hfields⟩ := verdict_block.mp h
  obtain ⟨hargs, hdirectives⟩ := Clauses.verdict_template.mp hclauses
  have hsigil := Name.sigil_not_mem_of_checkPlain hname
  have hargsPlain : Template.Plain (q.clauses.args.flatMap fun a => .text ", " :: a) :=
    Template.plain_flatMap (by decide) fun u hu => Clauses.plain_of_mem_args hu (hargs u hu)
  have hownPlain : Template.Plain (q.directives.flatMap fun d => .text " " :: d.template) :=
    Template.plain_flatMap (by decide) fun d hd => Directive.plain_template (hown d hd)
  have hselection : (q.selection.template q.modifiers .root).Plain :=
    Selection.plain_braced (Selection.plain_fields hfields)
  have hopening : sigil ∉ (q.name ++ "(func: ").toList :=
    sigil_not_mem_append.mpr ⟨hsigil, by decide⟩
  rw [block_eq]
  simp only [Template.plain_append, Template.plain_cons, Piece.plain_text]
  exact ⟨⟨⟨hopening, plain_rootTemplate hroot⟩, Clauses.plain_demands⟩, hargsPlain, by decide,
    ⟨Clauses.plain_directives hdirectives, hownPlain⟩, by decide, hselection⟩

/-- Every block is sealed. -/
theorem sealed_block : q.block.Sealed := by
  have hopening : Template.Sealed
      (.text (q.name ++ "(func: ") :: q.rootTemplate ++ q.clauses.demands) :=
    (Template.sealed_text_cons.mpr sealed_rootTemplate).append Clauses.sealed_demands
  have hargs : Template.Sealable (q.clauses.args.flatMap fun a => .text ", " :: a) :=
    Template.Sealable.flatMap Template.beginsApart_comma fun u hu => Clauses.sealable_of_mem_args hu
  have hown : Template.Sealed (q.directives.flatMap fun d => .text " " :: d.template) :=
    Template.Sealed.flatMap fun d _ => Template.sealed_text_cons.mpr Directive.sealed_template
  have hselection : Template.Sealed (.text " " :: q.selection.template q.modifiers .root) :=
    Template.sealed_text_cons.mpr (Selection.sealed_braced Selection.sealed_fields)
  rw [block_eq]
  -- The parenthesis behind the arguments closes them.
  refine hopening.append (hargs _ ⟨_, _, ')', [], rfl, rfl, by decide⟩ ?_)
  exact Template.sealed_text_cons.mpr ((Clauses.sealed_directives.append hown).append hselection)

end Query

namespace Batch

variable {b : Batch}

/-- A batch can be written when every query is one, passes its check and can be written. -/
theorem verdict_body : b.body.verdict = .ok () ↔
    ∀ q ∈ b.queries, q.operation = .query ∧ q.check = .ok () ∧ q.block.verdict = .ok () := by
  unfold body
  rw [Template.verdict_join_eq_ok_iff, List.forall_mem_map]
  simp [checkMember, and_assoc]

theorem verdict_eq_ok_iff : b.verdict = .ok () ↔
    b.queries ≠ [] ∧ Name.checkPlain b.name = .ok () ∧
      ∀ q ∈ b.queries, q.operation = .query ∧ q.check = .ok () ∧ q.block.verdict = .ok () := by
  unfold verdict
  simp [verdict_body]

theorem plain_body (h : b.body.verdict = .ok ()) : b.body.Plain := by
  have hmembers := verdict_body.mp h
  apply Template.plain_join (by decide)
  intro t ht
  obtain ⟨q, hq, rfl⟩ := List.mem_map.mp ht
  obtain ⟨hquery, hcheck, hblock⟩ := hmembers q hq
  have hname := ((Query.check_eq_ok_iff hquery).mp hcheck).2.1
  exact Template.plain_cons.mpr ⟨Piece.plain_demand, Query.plain_block hname hblock⟩

theorem sealed_body : b.body.Sealed := by
  apply Template.Sealed.join
  intro t ht
  obtain ⟨q, -, rfl⟩ := List.mem_map.mp ht
  exact Template.sealed_demand_cons.mpr Query.sealed_block

end Batch

end GraphQuery
