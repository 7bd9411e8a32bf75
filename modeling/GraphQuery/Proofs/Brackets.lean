import GraphQuery.Proofs.Acceptance

/-!
# The brackets of a statement

No name, alias or value that goes into a query can open or close a group of
its text.  `brackets_compile` says of the text of every query that
compiles:

* its braces and parentheses are properly nested (`Nested`);
* it has one block for the root, one for each written field that selects nodes
  and one for the braces of a standalone statement, and no other brace;
* every closing brace stands behind the selector, apart from that of a
  standalone statement;
* quotation marks and angle brackets stand in pairs, around node identifiers
  and predicates that are arguments of a call in the query (`Marked`).

`TidyText` has all four of a piece of text, with the number of its blocks.
Tidy pieces make up tidy texts, so there is one lemma for each part of a
query, from the arguments of a call up to the block.  They rest on the checks
of names, since no class of names admits any of the characters
(`Name.isFlat_of_checkPredicate` and its like).
-/

namespace GraphQuery

/-! ## Brackets and marks -/

/-- The characters that group a statement. -/
def brackets : List Char := ['\x7b', '\x7d', '(', ')']

/-- The characters around a node identifier or predicate. -/
def marks : List Char := ['\x22', '<', '>']

/-- The braces and parentheses of the text are properly nested. -/
inductive Nested : List Char → Prop where
  | nil : Nested []
  | other {c : Char} {text : List Char} (hc : c ∉ brackets) (h : Nested text) : Nested (c :: text)
  | parentheses {inner rest : List Char} (hinner : Nested inner) (hrest : Nested rest) :
    Nested ('(' :: (inner ++ ')' :: rest))
  | braces {inner rest : List Char} (hinner : Nested inner) (hrest : Nested rest) :
    Nested ('\x7b' :: (inner ++ '\x7d' :: rest))

/-- Marks stand in pairs around well-formed names for which `named` holds. -/
inductive Marked (named : Value → Prop) : List Char → Prop where
  | nil : Marked named []
  | other {c : Char} {text : List Char} (hc : c ∉ marks) (h : Marked named text) :
    Marked named (c :: text)
  | uid {name : String} {rest : List Char} (hnamed : named (.uid name))
    (hname : Name.checkIdentifier name = .ok ()) (h : Marked named rest) :
    Marked named ('\x22' :: (name.toList ++ '\x22' :: rest))
  | predicate {name : String} {rest : List Char} (hnamed : named (.predicate name))
    (hname : Name.checkPredicate name = .ok ()) (h : Marked named rest) :
    Marked named ('<' :: (name.toList ++ '>' :: rest))

/-- Every closing brace stands behind the selector. -/
def Closed (text : List Char) : Prop :=
  ∀ before after, text = before ++ '\x7d' :: after → " uid ".toList <:+ before

/-- The text has no brackets and no marks. -/
def isFlat (text : List Char) : Bool :=
  text.all fun c => !(brackets ++ marks).contains c

/-- The brackets and marks of the text are in order, with the given number of blocks. -/
structure TidyText (named : Value → Prop) (blocks : Nat) (text : List Char) : Prop where
  nested : Nested text
  marked : Marked named text
  opened : text.count '\x7b' = blocks
  closed : Closed text

variable {named : Value → Prop} {blocks more : Nat} {text text' before after : List Char}

theorem Nested.of_no_bracket (h : ∀ c ∈ text, c ∉ brackets) : Nested text := by
  induction text with
  | nil => exact .nil
  | cons c text ih =>
    obtain ⟨hc, htext⟩ := List.forall_mem_cons.mp h
    exact .other hc (ih htext)

theorem Nested.append (h : Nested text) (h' : Nested text') : Nested (text ++ text') := by
  induction h with
  | nil => exact h'
  | other hc _ ih => exact .other hc ih
  | parentheses hinner _ _ ih => simpa using Nested.parentheses hinner ih
  | braces hinner _ _ ih => simpa using Nested.braces hinner ih

theorem Marked.of_no_mark (h : ∀ c ∈ text, c ∉ marks) : Marked named text := by
  induction text with
  | nil => exact .nil
  | cons c text ih =>
    obtain ⟨hc, htext⟩ := List.forall_mem_cons.mp h
    exact .other hc (ih htext)

theorem Marked.append (h : Marked named text) (h' : Marked named text') :
    Marked named (text ++ text') := by
  induction h with
  | nil => exact h'
  | other hc _ ih => exact .other hc ih
  | uid hnamed hname _ ih => simpa using Marked.uid hnamed hname ih
  | predicate hnamed hname _ ih => simpa using Marked.predicate hnamed hname ih

/-- A character of a text in two parts is in the first or in the second. -/
theorem split_append {c : Char} (h : text ++ text' = before ++ c :: after) :
    (∃ rest, text = before ++ c :: rest) ∨
      ∃ start, before = text ++ start ∧ text' = start ++ c :: after := by
  rcases List.append_eq_append_iff.mp h with ⟨start, hbefore, htext'⟩ | ⟨rest, htext, hafter⟩
  · exact Or.inr ⟨start, hbefore, htext'⟩
  · cases rest with
    | nil => exact Or.inr ⟨[], by simpa using htext.symm, by simpa using hafter.symm⟩
    | cons d rest =>
      obtain ⟨rfl, -⟩ := List.cons.inj hafter
      exact Or.inl ⟨rest, htext⟩

theorem closed_of_not_mem (h : '\x7d' ∉ text) : Closed text := by
  intro before after htext
  exact absurd (htext ▸ List.mem_append_right before List.mem_cons_self) h

theorem Closed.append (h : Closed text) (h' : Closed text') : Closed (text ++ text') := by
  intro before after heq
  rcases split_append heq with ⟨rest, htext⟩ | ⟨start, rfl, htext'⟩
  · exact h before rest htext
  · exact (h' start after htext').trans (List.suffix_append text start)

/-- The selector closes a block. -/
theorem closed_selector : Closed " uid \x7d".toList := by
  intro before after h
  have hlast : " uid ".toList ++ ['\x7d'] = before ++ '\x7d' :: after := h
  rcases split_append hlast with ⟨rest, hrest⟩ | ⟨start, rfl, hend⟩
  · have hmem : '\x7d' ∈ " uid ".toList := hrest ▸ List.mem_append_right before List.mem_cons_self
    exact absurd hmem (by decide)
  · cases start with
    | nil => exact List.suffix_rfl
    | cons d start => simp at hend

/-! ## Tidy texts -/

@[simp] theorem isFlat_append : isFlat (text ++ text') = (isFlat text && isFlat text') :=
  List.all_append

theorem isFlat_iff : isFlat text = true ↔ ∀ c ∈ text, c ∉ brackets ++ marks := by
  simp [isFlat]

/-- Marks around a flat name bring no brackets. -/
theorem no_bracket_of_isFlat {mark mark' : Char} (h : isFlat text = true)
    (hmark : mark ∉ brackets) (hmark' : mark' ∉ brackets) :
    ∀ c ∈ mark :: (text ++ [mark']), c ∉ brackets := by
  intro c hc
  simp only [List.mem_cons, List.mem_append, List.not_mem_nil, or_false] at hc
  rcases hc with rfl | hc | rfl
  · exact hmark
  · exact fun hbracket => isFlat_iff.mp h c hc (List.mem_append_left _ hbracket)
  · exact hmark'

/-- A text without brackets has no block. -/
theorem Marked.tidyText (h : Marked named text) (hbrackets : ∀ c ∈ text, c ∉ brackets) :
    TidyText named 0 text where
  nested := .of_no_bracket hbrackets
  marked := h
  opened := List.count_eq_zero.mpr fun hmem => hbrackets _ hmem (by decide)
  closed := closed_of_not_mem fun hmem => hbrackets _ hmem (by decide)

theorem tidyText_of_isFlat (h : isFlat text = true) : TidyText named 0 text := by
  have hflat : ∀ c ∈ text, c ∉ brackets ++ marks := isFlat_iff.mp h
  have hmarked : Marked named text :=
    .of_no_mark fun c hmem hc => hflat c hmem (List.mem_append_right _ hc)
  exact hmarked.tidyText fun c hmem hc => hflat c hmem (List.mem_append_left _ hc)

namespace TidyText

theorem append (h : TidyText named blocks text) (h' : TidyText named more text') :
    TidyText named (blocks + more) (text ++ text') where
  nested := h.nested.append h'.nested
  marked := h.marked.append h'.marked
  opened := by rw [List.count_append, h.opened, h'.opened]
  closed := h.closed.append h'.closed

theorem parentheses (h : TidyText named blocks text) :
    TidyText named blocks ('(' :: (text ++ [')'])) where
  nested := .parentheses h.nested .nil
  marked := .other (by decide) (h.marked.append (.other (by decide) .nil))
  opened := by simp [h.opened]
  closed := by
    have hopen : Closed ['('] := closed_of_not_mem (by decide)
    exact hopen.append (h.closed.append (closed_of_not_mem (by decide)))

/-- A selection in braces is a block. -/
theorem braces (h : TidyText named blocks text) :
    TidyText named (blocks + 1) ('\x7b' :: (text ++ " uid \x7d".toList)) := by
  have hselector : TidyText named 0 " uid ".toList := tidyText_of_isFlat (by decide)
  have hend : " uid \x7d".toList = " uid ".toList ++ ['\x7d'] := rfl
  refine ⟨?_, ?_, by simp [h.opened], ?_⟩
  · simpa [hend] using Nested.braces (h.nested.append hselector.nested) .nil
  · rw [hend]
    exact .other (by decide) (h.marked.append (hselector.marked.append (.other (by decide) .nil)))
  · have hopen : Closed ['\x7b'] := closed_of_not_mem (by decide)
    exact hopen.append (h.closed.append closed_selector)

end TidyText

/-! ## Names are flat -/

namespace Name

variable {name : String}

theorem isFlat_of_foreign (h : ∀ c, isForeign c = true → c ∉ name.toList) :
    isFlat name.toList = true := by
  have hforeign : (brackets ++ marks).all isForeign = true := by decide
  exact isFlat_iff.mpr fun c hmem hc => h c (List.all_eq_true.mp hforeign c hc) hmem

theorem isFlat_of_checkPredicate (h : checkPredicate name = .ok ()) : isFlat name.toList = true :=
  isFlat_of_foreign fun _ hc => not_mem_of_checkPredicate hc h

theorem isFlat_of_checkPlain (h : checkPlain name = .ok ()) : isFlat name.toList = true :=
  isFlat_of_foreign fun _ hc => not_mem_of_checkPlain hc h

theorem isFlat_of_checkFunction (h : checkFunction name = .ok ()) : isFlat name.toList = true :=
  isFlat_of_foreign fun _ hc => not_mem_of_checkFunction hc h

theorem isFlat_of_checkIdentifier (h : checkIdentifier name = .ok ()) :
    isFlat name.toList = true :=
  isFlat_of_foreign fun _ hc => not_mem_of_checkIdentifier hc h

theorem isFlat_withoutMarks (h : isFlat name.toList = true) :
    isFlat (withoutMarks name).toList = true := by
  rw [withoutMarks, String.toList_ofList]
  exact isFlat_iff.mpr fun c hc => isFlat_iff.mp h c ((List.dropWhile_sublist _).subset hc)

end Name

theorem isFlat_toDigits (i : Nat) : isFlat (Nat.toDigits 10 i) = true := by
  have hdigits : (brackets ++ marks).all (fun c => !c.isDigit) = true := by decide
  refine isFlat_iff.mpr fun c hc hbracket => ?_
  have hno := List.all_eq_true.mp hdigits c hbracket
  simp [isDigit_of_mem_toDigits c hc] at hno

theorem isFlat_parameterName (i : Nat) : isFlat (parameterName i).toList = true := by
  rw [toList_parameterName]
  exact isFlat_toDigits i

theorem isFlat_intercalate {between : String} {words : List String}
    (hbetween : isFlat between.toList = true) (h : ∀ word ∈ words, isFlat word.toList = true) :
    isFlat (between.intercalate words).toList = true := by
  induction words with
  | nil => rfl
  | cons word words ih =>
    obtain ⟨hword, hwords⟩ := List.forall_mem_cons.mp h
    by_cases hnil : words = []
    · simpa [hnil] using hword
    · rw [String.intercalate_cons_of_ne_nil hnil, String.toList_append, String.toList_append,
        isFlat_append, isFlat_append, hword, hbetween, ih hwords]
      rfl

/-! ## Tidy templates -/

/-- Whatever the numbers of its scalars, the text of the template is tidy. -/
def Template.Tidy (named : Value → Prop) (blocks : Nat) (t : Template) : Prop :=
  ∀ number : Scalar → Nat, TidyText named blocks (t.write number).toList

namespace Template

variable {t u : Template} {ts : List Template} {s between : String} {v : Value}

theorem tidy_nil : Tidy named 0 [] := fun _ => tidyText_of_isFlat rfl

theorem tidy_text (h : TidyText named blocks s.toList) : Tidy named blocks [.text s] := by
  intro number
  simpa [write, Piece.write] using h

theorem tidy_demands (h : ∀ piece ∈ t, ∃ check, piece = .demand check) : Tidy named 0 t := by
  intro number
  have hwrite : t.write number = "" := by
    induction t with
    | nil => rfl
    | cons piece t ih =>
      obtain ⟨⟨check, rfl⟩, ht⟩ := List.forall_mem_cons.mp h
      rw [write, ih ht]
      rfl
  rw [hwrite]
  exact tidyText_of_isFlat rfl

theorem Tidy.append (ht : Tidy named blocks t) (hu : Tidy named more u) :
    Tidy named (blocks + more) (t ++ u) := by
  intro number
  rw [write_append, String.toList_append]
  exact (ht number).append (hu number)

/-- In front of a tidy template stands one without blocks. -/
theorem Tidy.behind (hu : Tidy named blocks u) (ht : Tidy named 0 t) :
    Tidy named blocks (t ++ u) := by
  simpa using ht.append hu

theorem Tidy.text_cons (ht : Tidy named blocks t) (hs : isFlat s.toList = true) :
    Tidy named blocks (.text s :: t) :=
  ht.behind (tidy_text (tidyText_of_isFlat hs))

theorem Tidy.demand_cons {check : Verdict} (ht : Tidy named blocks t) :
    Tidy named blocks (.demand check :: t) := by
  have hcheck : Tidy named 0 [.demand check] := tidy_demands (by simp)
  exact ht.behind hcheck

theorem Tidy.parenthesized (h : Tidy named blocks t) : Tidy named blocks t.parenthesized := by
  intro number
  have hwrite : (t.parenthesized.write number).toList =
      '(' :: ((t.write number).toList ++ [')']) := by
    simp [Template.parenthesized, write, Piece.write]
  rw [hwrite]
  exact (h number).parentheses

theorem Tidy.join (hbetween : isFlat between.toList = true) (h : ∀ t ∈ ts, Tidy named 0 t) :
    Tidy named 0 (Template.join between ts) := by
  induction ts with
  | nil => exact tidy_nil
  | cons t ts ih =>
    obtain ⟨ht, hts⟩ := List.forall_mem_cons.mp h
    cases ts with
    | nil => exact ht
    | cons t' ts =>
      have hrest : Tidy named 0 (.text between :: Template.join between (t' :: ts)) :=
        (ih hts).text_cons hbetween
      exact hrest.behind ht

theorem Tidy.flatMap {α : Type} {xs : List α} {f : α → Template}
    (hbetween : isFlat between.toList = true) (h : ∀ x ∈ xs, Tidy named 0 (f x)) :
    Tidy named 0 (xs.flatMap fun x => .text between :: f x) := by
  induction xs with
  | nil => exact tidy_nil
  | cons x xs ih =>
    obtain ⟨hx, hxs⟩ := List.forall_mem_cons.mp h
    exact (ih hxs).behind (hx.text_cons hbetween)

/-- A value without quotes or brackets is flat. -/
theorem tidy_bare (h : v.check = .ok ()) : Tidy named 0 [.bare v] := by
  intro number
  have hflat : isFlat (v.binding number).token.toList = true := by
    cases v with
    | scalar s => exact isFlat_parameterName _
    | uid name => exact Name.isFlat_of_checkIdentifier h
    | predicate name => exact Name.isFlat_of_checkPredicate h
  have htidy : TidyText named 0 (v.binding number).token.toList := tidyText_of_isFlat hflat
  simpa [write, Piece.write] using htidy

/-- The marks of an argument stand around its name. -/
theorem tidy_argument (h : v.check = .ok ()) (hnamed : named v) : Tidy named 0 [.argument v] := by
  intro number
  simp only [write, Piece.write, String.append_empty]
  cases v with
  | scalar s => exact tidyText_of_isFlat (isFlat_parameterName _)
  | uid name =>
    have hmarked : Marked named ('\x22' :: (name.toList ++ ['\x22'])) := .uid hnamed h .nil
    have hflat := Name.isFlat_of_checkIdentifier h
    simpa [Value.binding, Binding.argument] using hmarked.tidyText
      (no_bracket_of_isFlat hflat (by decide) (by decide))
  | predicate name =>
    have hmarked : Marked named ('<' :: (name.toList ++ ['>'])) := .predicate hnamed h .nil
    have hflat := Name.isFlat_of_checkPredicate h
    simpa [Value.binding, Binding.argument] using hmarked.tidyText
      (no_bracket_of_isFlat hflat (by decide) (by decide))

end Template

/-! ## Calls and conditions -/

/-- The value is an argument of a call in the condition. -/
inductive Condition.Mentions (v : Value) : Condition → Prop where
  | call {c : Call} (h : v ∈ c.args) : Mentions v (.call c)
  | and {c : Condition} {cs : List Condition} (hc : c ∈ cs) (h : Mentions v c) :
    Mentions v (.and cs)
  | or {c : Condition} {cs : List Condition} (hc : c ∈ cs) (h : Mentions v c) :
    Mentions v (.or cs)
  | not {c : Condition} (h : Mentions v c) : Mentions v (.not c)

theorem Call.tidy_template {c : Call} (hnamed : ∀ v ∈ c.args, named v)
    (h : c.template.verdict = .ok ()) : Template.Tidy named 0 c.template := by
  obtain ⟨hcheck, hargs⟩ := verdict_template.mp h
  have hname := Name.isFlat_of_checkFunction (checkFunction_of_check hcheck)
  have hargument : ∀ v ∈ c.args, Template.Tidy named 0 [argPiece c.function v] := by
    intro v hv
    unfold argPiece
    split
    · exact Template.tidy_bare (hargs _ hv)
    · exact Template.tidy_argument (hargs _ hv) (hnamed _ hv)
  have hlist : Template.Tidy named 0
      (Template.join ", " (c.args.map fun v => [argPiece c.function v])) :=
    .join (by decide) (List.forall_mem_map.mpr hargument)
  exact (hlist.parenthesized.text_cons hname).demand_cons

namespace Condition

theorem tidy_asOperand {c : Condition} (h : c.template.Tidy named 0) :
    c.asOperand.Tidy named 0 := by
  unfold asOperand operandTemplate
  split
  · exact h.parenthesized
  · exact h

theorem tidy_operands {cs : List Condition} {between : String}
    (hbetween : isFlat between.toList = true)
    (h : (Template.join between (cs.map asOperand)).verdict = .ok ())
    (ih : ∀ c ∈ cs, c.template.verdict = .ok () → c.template.Tidy named 0) :
    (Template.join between (cs.map asOperand)).Tidy named 0 := by
  apply Template.Tidy.join hbetween
  intro t ht
  obtain ⟨c, hc, rfl⟩ := List.mem_map.mp ht
  exact tidy_asOperand (ih c hc (verdict_operands.mp h c hc))

theorem tidy_template {c : Condition} (hnamed : ∀ v, c.Mentions v → named v)
    (h : c.template.verdict = .ok ()) : c.template.Tidy named 0 := by
  induction c using Condition.induction with
  | call c => exact Call.tidy_template (fun v hv => hnamed v (.call hv)) h
  | and cs ih =>
    rw [template_and] at h ⊢
    exact tidy_operands (by decide) h fun c hc => ih c hc fun v hv => hnamed v (.and hc hv)
  | or cs ih =>
    rw [template_or] at h ⊢
    exact tidy_operands (by decide) h fun c hc => ih c hc fun v hv => hnamed v (.or hc hv)
  | not c ih =>
    rw [template_not, Template.verdict_text_cons] at h
    rw [template_not]
    exact (tidy_asOperand (ih (fun v hv => hnamed v (.not hv))
      (verdict_asOperand.mp h))).text_cons (by decide)

end Condition

/-! ## Modifiers and clauses -/

theorem Filter.tidy_template {c : Condition} (hnamed : ∀ v, c.Mentions v → named v)
    (h : (template (some c)).verdict = .ok ()) : Template.Tidy named 0 (template (some c)) := by
  have hc : c.template.verdict = .ok () :=
    (Condition.wellFormed_iff.mp (verdict_template.mp h c rfl)).2
  exact ((Condition.tidy_template hnamed hc).parenthesized.text_cons (by decide)).demand_cons

theorem Template.tidy_labelled {label : String} {v : Value} (hlabel : isFlat label.toList = true)
    (h : Template.verdict [.text label, .bare v] = .ok ()) :
    Template.Tidy named 0 [.text label, .bare v] := by
  have hv : v.check = .ok () := by simpa using h
  exact (tidy_bare hv).text_cons hlabel

theorem Page.tidy_template {p : Page} (h : p.template.verdict = .ok ()) :
    Template.Tidy named 0 p.template := by
  cases p with
  | first n | offset n | after uid => exact Template.tidy_labelled (by decide) h

theorem OrderBy.tidy_template {o : OrderBy} (h : o.template.verdict = .ok ()) :
    Template.Tidy named 0 o.template := by
  obtain ⟨direction, predicate⟩ := o
  cases direction with
  | ascending | descending => exact Template.tidy_labelled (by decide) h

namespace Clauses

variable {t : Target} {ms : List Modifier} {u : Template}

theorem tidy_of_mem_args (hu : u ∈ (ofModifiers t ms).args) (h : u.verdict = .ok ()) :
    u.Tidy named 0 := by
  rcases mem_args.mp hu with ⟨p, -, rfl⟩ | ⟨o, -, rfl⟩
  · exact Page.tidy_template h
  · exact OrderBy.tidy_template h

theorem tidy_demands : (ofModifiers t ms).demands.Tidy named 0 :=
  Template.tidy_demands fun _ => mem_demands

theorem tidy_directives
    (hnamed : ∀ c, Modifier.filter (some c) ∈ ms → ∀ v, c.Mentions v → named v)
    (h : ∀ u ∈ (ofModifiers t ms).directives, u.verdict = .ok ()) :
    Template.Tidy named 0 ((ofModifiers t ms).directives.flatMap fun u => .text " " :: u) := by
  apply Template.Tidy.flatMap (by decide)
  intro u hu
  have hverdict := h u hu
  rcases mem_directives.mp hu with ⟨c, hc, rfl⟩ | ⟨-, rfl⟩
  · exact Filter.tidy_template (hnamed c hc) hverdict
  · exact (Template.tidy_nil.text_cons (by decide)).demand_cons

theorem tidy_template
    (hnamed : ∀ c, Modifier.filter (some c) ∈ ms → ∀ v, c.Mentions v → named v)
    (h : (ofModifiers t ms).template.verdict = .ok ()) :
    (ofModifiers t ms).template.Tidy named 0 := by
  obtain ⟨hargs, hdirectives⟩ := verdict_template.mp h
  unfold template
  apply (tidy_directives hnamed hdirectives).behind
  split
  · exact Template.tidy_nil
  · have hlist : Template.Tidy named 0 (Template.join ", " (ofModifiers t ms).args) :=
      .join (by decide) fun u hu => tidy_of_mem_args hu (hargs u hu)
    exact hlist.parenthesized.text_cons (by decide)

end Clauses

/-! ## Fields and selections -/

theorem Aggregate.tidyText_head {a : Aggregate} {t : Target}
    (hkey : isFlat (a.key t).toList = true) (hname : isFlat t.predicate.toList = true) :
    TidyText named 0 (a.head t).toList := by
  have hkind : isFlat a.kind.name.toList = true := by cases a.kind <;> decide
  have hfront : TidyText named 0 (a.key t ++ " : " ++ a.kind.name).toList := by
    apply tidyText_of_isFlat
    simp only [String.toList_append, isFlat_append, hkey, hkind]
    decide
  have hhead : (a.head t).toList =
      (a.key t ++ " : " ++ a.kind.name).toList ++ '(' :: (t.predicate.toList ++ [')']) := by
    simp [head]
  rw [hhead]
  exact hfront.append (tidyText_of_isFlat hname).parentheses

namespace Field

variable {f : Field} {ms : Modifiers} {path : Path}

theorem isFlat_name (h : f.checkName = .ok ()) : isFlat f.name.toList = true :=
  Name.isFlat_of_checkPredicate (checkName_eq_ok_iff.mp h).2

theorem isFlat_label (hname : f.checkName = .ok ()) (halias : f.checkAlias = .ok ()) :
    isFlat f.label.toList = true := by
  have hflat := isFlat_name hname
  have hmiddle : isFlat " : ".toList = true := by decide
  unfold label
  cases ha : f.alias? with
  | none =>
    show isFlat (if f.isReverse then Name.withoutMarks f.name ++ " : " ++ f.name
      else f.name).toList = true
    split
    · simp only [String.toList_append, isFlat_append, hflat, hmiddle,
        Name.isFlat_withoutMarks hflat, Bool.and_true]
    · exact hflat
  | some a =>
    have hplain := Name.isFlat_of_checkPlain (checkAlias_eq_ok_iff.mp halias a ha)
    simp only [String.toList_append, isFlat_append, hflat, hmiddle, hplain, Bool.and_true]

theorem tidy_template
    (hnamed : ∀ c, (path, some c) ∈ ms.filters → ∀ v, c.Mentions v → named v)
    (h : (f.template ms path).verdict = .ok ()) : (f.template ms path).Tidy named 0 := by
  obtain ⟨hname, hdemands, hclauses, halias⟩ := verdict_template.mp h
  have htemplate : (f.clauses ms path).template.Tidy named 0 := by
    refine Clauses.tidy_template (fun c hc => hnamed c ?_) hclauses
    exact Modifiers.filter_mem_forPath.mp ((mem_modifiers Modifier.noConfusion).mp hc)
  have hclean : Template.Tidy named 0 (.demand f.checkName :: (f.clauses ms path).demands) :=
    Clauses.tidy_demands.demand_cons
  cases hhead : (f.clauses ms path).head? with
  | none =>
    have hlabel := isFlat_label hname (halias (head?_eq_none_iff.mp hhead))
    have hcheck : Template.Tidy named 0 [.demand f.checkAlias] := Template.tidy_nil.demand_cons
    rw [template_of_no_head hhead, List.append_assoc]
    exact (hcheck.behind (htemplate.text_cons hlabel)).behind hclean
  | some head =>
    obtain ⟨a, ha, rfl⟩ := Clauses.head?_eq_some hhead
    have hkey := Name.isFlat_of_checkPredicate (Clauses.verdict_demands.mp hdemands a ha).2
    have htext : Template.Tidy named 0 [.text (a.head f.target)] :=
      Template.tidy_text (Aggregate.tidyText_head hkey (isFlat_name hname))
    rw [template_of_head hhead]
    exact (htemplate.behind htext).behind hclean

end Field

namespace Selection

variable {ms : Modifiers} {parent path : Path} {t : Template}

/-- The fields that are written below a path, each with its own path and what is below it. -/
def written (ms : Modifiers) (parent : Path) : Selection → List (Path × Field × Selection)
  | nil => []
  | cons f children rest =>
    let path := Path.child parent f.name
    (if f.isSelector then []
      else (path, f, children) :: if ms.hasAggregate path then [] else children.written ms path)
      ++ rest.written ms parent

/-- The field is written with a block. -/
def opensBlock (ms : Modifiers) (w : Path × Field × Selection) : Bool :=
  !ms.hasAggregate w.1 && (w.2.1.isObject || !w.2.2.isEmpty)

/-- The written fields are the rendered ones. -/
theorem exists_mem_written {s : Selection} {f : Field} :
    (∃ children, (path, f, children) ∈ s.written ms parent) ↔ Rendered ms parent s path f := by
  induction s generalizing parent with
  | nil =>
    constructor
    · rintro ⟨_, hmem⟩
      cases hmem
    · intro h
      cases h
  | cons g below rest ihbelow ihrest =>
    constructor
    · rintro ⟨children, hmem⟩
      rw [written, List.mem_append] at hmem
      rcases hmem with hmem | hmem
      · cases hselector : g.isSelector with
        | true => simp [hselector] at hmem
        | false =>
          simp only [hselector, Bool.false_eq_true, if_false, List.mem_cons, Prod.mk.injEq] at hmem
          rcases hmem with ⟨rfl, rfl, -⟩ | hmem
          · exact .here hselector
          · cases hagg : ms.hasAggregate (parent.child g.name) with
            | true => simp [hagg] at hmem
            | false =>
              rw [hagg] at hmem
              exact .beneath hselector hagg (ihbelow.mp ⟨children, hmem⟩)
      · exact .behind (ihrest.mp ⟨children, hmem⟩)
    · intro h
      cases h with
      | here h => exact ⟨below, by simp [written, h]⟩
      | beneath h hagg hg =>
        obtain ⟨children, hmem⟩ := ihbelow.mpr hg
        exact ⟨children, by simp [written, h, hagg, hmem]⟩
      | behind hg =>
        obtain ⟨children, hmem⟩ := ihrest.mpr hg
        exact ⟨children, by simp [written, hmem]⟩

theorem tidy_braced {blocks : Nat} (h : t.Tidy named blocks) :
    (braced t).Tidy named (blocks + 1) := by
  intro number
  have hwrite : ((braced t).write number).toList =
      '\x7b' :: ((t.write number).toList ++ " uid \x7d".toList) := by
    simp [braced, Template.write, Piece.write, Field.selectorName]
  rw [hwrite]
  exact (h number).braces

/-- A selection has one block for each written field that opens one. -/
theorem tidy_fields {s : Selection}
    (hnamed : ∀ path c, (path, some c) ∈ ms.filters → ∀ v, c.Mentions v → named v)
    (h : (s.fields ms parent).verdict = .ok ()) :
    (s.fields ms parent).Tidy named ((s.written ms parent).countP (opensBlock ms)) := by
  induction s generalizing parent with
  | nil => exact Template.tidy_nil
  | cons f children rest ihchildren ihrest =>
    obtain ⟨hfield, hrest⟩ := verdict_fields_cons.mp h
    rw [fields, written, List.countP_append]
    refine Template.Tidy.append ?_ (ihrest hrest)
    cases hselector : f.isSelector with
    | true => exact Template.tidy_nil
    | false =>
      obtain ⟨htemplate, hchildren⟩ := hfield hselector
      have hspace : isFlat " ".toList = true := by decide
      have htidy := (Field.tidy_template (hnamed _) htemplate).text_cons hspace
      cases hagg : ms.hasAggregate (parent.child f.name) with
      | true => simpa [opensBlock, hagg] using htidy
      | false =>
        cases hopen : f.isObject || !children.isEmpty with
        | true =>
          have hblock := (tidy_braced (ihchildren (hchildren hagg))).text_cons hspace
          simpa [opensBlock, hagg, hopen] using hblock.behind htidy
        | false =>
          -- Without a block there is no field below either.
          have hempty : children = nil := by
            cases children with
            | nil => rfl
            | cons g below others => simp [isEmpty] at hopen
          subst hempty
          simpa [opensBlock, hagg, hopen, written] using htidy

end Selection

/-! ## Directives and blocks -/

namespace Directive

theorem tidyText_withArgs {name : String} {args : List String}
    (hname : isFlat name.toList = true) (hargs : ∀ arg ∈ args, isFlat arg.toList = true) :
    TidyText named 0 (withArgs name args).toList := by
  unfold withArgs
  split
  · exact tidyText_of_isFlat hname
  · have hlist : isFlat (", ".intercalate args).toList = true :=
      isFlat_intercalate (by decide) hargs
    have htext : (name ++ "(" ++ ", ".intercalate args ++ ")").toList =
        name.toList ++ '(' :: ((", ".intercalate args).toList ++ [')']) := by
      simp only [String.toList_append, List.append_assoc]
      rfl
    rw [htext]
    exact (tidyText_of_isFlat hname).append (tidyText_of_isFlat hlist).parentheses

theorem isFlat_recurseArgs {depth? : Option UInt32} {allowLoop : Bool} :
    ∀ arg ∈ recurseArgs depth? allowLoop, isFlat arg.toList = true := by
  intro arg harg
  rcases List.mem_append.mp harg with hdepth | hloop
  · obtain ⟨depth, -, rfl⟩ := Option.map_eq_some_iff.mp (Option.mem_toList.mp hdepth)
    rw [String.toList_append, isFlat_append, Nat.toString_eq_repr, Nat.toList_repr,
      isFlat_toDigits]
    decide
  · cases allowLoop with
    | false => cases hloop
    | true =>
      rw [List.mem_singleton.mp hloop]
      decide

theorem tidy_template {d : Directive} (h : d.template.verdict = .ok ()) :
    d.template.Tidy named 0 := by
  cases d with
  | cascade predicates =>
    have hnames := verdict_template.mp h predicates rfl
    have htext : TidyText named 0 (withArgs "@cascade" predicates).toList :=
      tidyText_withArgs (by decide) fun name hname =>
        Name.isFlat_of_checkPredicate (hnames name hname)
    have hdemands : Template.Tidy named 0
        (predicates.map fun name => .demand (Name.checkPredicate name)) := by
      apply Template.tidy_demands
      intro piece hpiece
      obtain ⟨name, -, rfl⟩ := List.mem_map.mp hpiece
      exact ⟨_, rfl⟩
    exact (Template.tidy_text htext).behind hdemands
  | normalize | ignoreReflex => exact Template.tidy_text (tidyText_of_isFlat (by decide))
  | recurse depth? allowLoop =>
    exact Template.tidy_text (tidyText_withArgs (by decide) isFlat_recurseArgs)

end Directive

namespace Query

variable {q : Query} {st : Statement}

/-- The value is an argument of the root function or of a call in a filter. -/
def Mentions (q : Query) (v : Value) : Prop :=
  (∃ c, q.root? = some c ∧ v ∈ c.args) ∨
    ∃ path c, (path, some c) ∈ q.modifiers.filters ∧ c.Mentions v

/-- The blocks of a query: that of the root, and one for each written field that opens one. -/
def blockCount (q : Query) : Nat :=
  (q.selection.written q.modifiers .root).countP (Selection.opensBlock q.modifiers) + 1

theorem tidy_rootTemplate (h : q.rootTemplate.verdict = .ok ()) :
    q.rootTemplate.Tidy q.Mentions 0 := by
  unfold rootTemplate at h ⊢
  cases hroot : q.root? with
  | none => simp [hroot] at h
  | some c =>
    rw [hroot] at h
    exact Call.tidy_template (fun v hv => Or.inl ⟨c, hroot, hv⟩) h

/-- What stands in the parentheses of the root block. -/
def arguments (q : Query) : Template :=
  .text "func: " :: (q.rootTemplate ++ q.clauses.demands ++
    q.clauses.args.flatMap fun a => .text ", " :: a)

/-- The block is written with its parentheses around its arguments. -/
theorem write_block (number : Scalar → Nat) : q.block.write number =
    Template.write number (.text q.name :: (q.arguments.parenthesized ++
      ((q.clauses.directives.flatMap fun d => .text " " :: d) ++
        (q.directives.flatMap fun d => .text " " :: d.template) ++
        .text " " :: q.selection.template q.modifiers .root))) := by
  have hopening : q.name ++ "(func: " = q.name ++ ("(" ++ "func: ") := rfl
  rw [block_eq, hopening]
  simp only [arguments, Template.parenthesized, Template.write_append, Template.write, Piece.write,
    List.cons_append, String.append_assoc, String.append_empty]

/-- The block of a query that can be written is tidy. -/
theorem tidy_block (hname : Name.checkPlain q.name = .ok ()) (h : q.block.verdict = .ok ()) :
    q.block.Tidy q.Mentions q.blockCount := by
  obtain ⟨hroot, -, hclauses, hown, hfields⟩ := verdict_block.mp h
  obtain ⟨hargs, hdirectives⟩ := Clauses.verdict_template.mp hclauses
  have hmentions : ∀ path c, (path, some c) ∈ q.modifiers.filters → ∀ v, c.Mentions v →
      q.Mentions v := fun path c hc v hv => Or.inr ⟨path, c, hc, hv⟩
  have harguments : q.arguments.Tidy q.Mentions 0 := by
    have hlist : Template.Tidy q.Mentions 0 (q.clauses.args.flatMap fun a => .text ", " :: a) :=
      Template.Tidy.flatMap (by decide) fun u hu => Clauses.tidy_of_mem_args hu (hargs u hu)
    have hroot := tidy_rootTemplate hroot
    exact (hlist.behind (Clauses.tidy_demands.behind hroot)).text_cons (by decide)
  have hfilters : ∀ c, Modifier.filter (some c) ∈ q.modifiers.forPath .root → ∀ v, c.Mentions v →
      q.Mentions v := fun c hc => hmentions _ c (Modifiers.filter_mem_forPath.mp hc)
  have hclausesTidy := Clauses.tidy_directives hfilters hdirectives
  have hownTidy : Template.Tidy q.Mentions 0
      (q.directives.flatMap fun d => .text " " :: d.template) :=
    Template.Tidy.flatMap (by decide) fun d hd => Directive.tidy_template (hown d hd)
  have hselection : (q.selection.template q.modifiers .root).Tidy q.Mentions q.blockCount :=
    Selection.tidy_braced (Selection.tidy_fields hmentions hfields)
  have hspace : isFlat " ".toList = true := by decide
  intro number
  rw [write_block]
  exact (((hselection.text_cons hspace).behind (hownTidy.behind hclausesTidy)).behind
    harguments.parenthesized).text_cons (Name.isFlat_of_checkPlain hname) number

end Query

/-! ## Statements -/

theorem Parameters.isFlat_declarations (p : Parameters) :
    isFlat p.declarations.toList = true := by
  refine isFlat_intercalate (by decide) (List.forall_mem_map.mpr fun e _ => ?_)
  have htype : isFlat e.2.typeName.toList = true := by
    cases e.2 with
    | string _ => exact (by decide : isFlat "string".toList = true)
    | int _ => exact (by decide : isFlat "int".toList = true)
  simp only [String.toList_append, isFlat_append, isFlat_parameterName, htype]
  decide

/-- A text in braces, behind a header without blocks. -/
theorem Statement.exists_toList_wrap (named : Value → Prop) {name : String}
    (hname : isFlat name.toList = true) (p : Parameters) (body : String) :
    ∃ header, TidyText named 0 header ∧
      (wrap name p body).toList =
        header ++ '\x7b' :: ((' ' :: (body.toList ++ [' '])) ++ ['\x7d']) := by
  unfold wrap
  split
  · exact ⟨[], tidyText_of_isFlat rfl, by simp⟩
  · have hquery : isFlat ("query " ++ name).toList = true := by
      rw [String.toList_append, isFlat_append, hname]
      decide
    have hparameters : TidyText named 0 ('(' :: (p.declarations.toList ++ [')'])) :=
      (tidyText_of_isFlat p.isFlat_declarations).parentheses
    have hspace : TidyText named 0 [' '] := tidyText_of_isFlat (by decide)
    exact ⟨_, (tidyText_of_isFlat hquery).append (hparameters.append hspace), by simp⟩

/-- The braces and parentheses of a statement are nested. It has one brace for each block of the
query and one around them if it is standalone, every brace closes behind the selector apart from
the last one of a standalone statement, and marks stand around arguments only. -/
theorem brackets_compile {q : Query} {st : Statement} (hq : q.operation = .query)
    (h : q.compile = .ok st) :
    Nested st.text.toList ∧
      st.text.toList.count '\x7b' = q.blockCount + (if q.isStandalone then 1 else 0) ∧
      (∀ before after, st.text.toList = before ++ '\x7d' :: after →
        " uid ".toList <:+ before ∨ q.isStandalone = true ∧ after = []) ∧
      Marked q.Mentions st.text.toList := by
  obtain ⟨hcheck, hverdict, rfl⟩ := (Query.compile_eq_ok_iff hq).mp h
  have hname := ((Query.check_eq_ok_iff hq).mp hcheck).2.1
  have hblock : TidyText q.Mentions q.blockCount q.text.toList := Query.tidy_block hname hverdict _
  unfold Query.statement
  cases hstandalone : q.isStandalone with
  | false => exact ⟨hblock.nested, hblock.opened, fun b a heq => Or.inl (hblock.closed b a heq),
      hblock.marked⟩
  | true =>
    have hspace : TidyText q.Mentions 0 [' '] := tidyText_of_isFlat (by decide)
    obtain ⟨header, hheader, htext⟩ := Statement.exists_toList_wrap q.Mentions
      (Name.isFlat_of_checkPlain hname) q.parameters q.text
    have hinner : TidyText q.Mentions (0 + (q.blockCount + 0)) (' ' :: (q.text.toList ++ [' '])) :=
      hspace.append (hblock.append hspace)
    simp only [if_true, htext]
    refine ⟨hheader.nested.append (.braces hinner.nested .nil), ?_, fun before after heq => ?_,
      hheader.marked.append (.other (by decide) (hinner.marked.append (.other (by decide) .nil)))⟩
    · rw [List.count_append, hheader.opened, List.count_cons_self, List.count_append,
        hinner.opened]
      simp
    · have hopen : Closed ['\x7b'] := closed_of_not_mem (by decide)
      have hclosed := hheader.closed.append (hopen.append hinner.closed)
      have hlast : (header ++ '\x7b' :: ' ' :: (q.text.toList ++ [' '])) ++ ['\x7d'] =
          before ++ '\x7d' :: after := by simpa using heq
      rcases split_append hlast with ⟨rest, hrest⟩ | ⟨start, rfl, hend⟩
      · exact Or.inl (hclosed before rest hrest)
      · cases start with
        | nil => exact Or.inr ⟨trivial, (List.cons.inj hend).2.symm⟩
        | cons d start => simp at hend

/-- The brackets of the statement of `adults`. -/
theorem brackets_compile_adults :
    ∃ st, Query.adults.compile = .ok st ∧ Query.adults.blockCount = 2 ∧
      Nested st.text.toList ∧
      st.text.toList.count '\x7b' =
        Query.adults.blockCount + (if Query.adults.isStandalone then 1 else 0) ∧
      (∀ before after, st.text.toList = before ++ '\x7d' :: after →
        " uid ".toList <:+ before ∨ Query.adults.isStandalone = true ∧ after = []) ∧
      Marked Query.adults.Mentions st.text.toList :=
  ⟨_, Query.compile_adults, by cbv, brackets_compile rfl Query.compile_adults⟩

end GraphQuery
