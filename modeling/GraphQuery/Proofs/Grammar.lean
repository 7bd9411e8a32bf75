import GraphQuery.Proofs.Blocks

/-!
# Reading conditions

`Condition.ReadsAs` is the boolean grammar in which a condition is read from
its text.  `NOT` binds tightest, then `AND`, then `OR`, and parentheses group.
A word with a parenthesis directly behind it is a function call, and a
parameter stands for the scalar that has its number.

The grammar is that of any text, not only of texts that conditions are written
as: it has bare operands side by side, parentheses around anything, and bare
predicates in any call.  `Condition.ReadsAs.eq` says that it is unambiguous.
The lemmas behind it cancel one phrase at a time: operands and calls end where
they end whatever comes next, and a chain of operands ends where the word that
would continue it does not follow.
-/

namespace GraphQuery

/-! ## The grammar -/

/-- The text is an argument of a call and stands for the value. -/
inductive Value.ReadsAs (p : Parameters) : List Char → Value → Prop where
  | parameter {i : Nat} {s : Scalar} (h : p.scalars[i]? = some s) :
    ReadsAs p (parameterName i).toList (.scalar s)
  | uid {text : String} (h : Name.isIdentifier text = true) :
    ReadsAs p ('\x22' :: (text.toList ++ ['\x22'])) (.uid text)
  | predicate {name : String} (h : Name.isPredicate name = true) :
    ReadsAs p ('<' :: (name.toList ++ ['>'])) (.predicate name)
  | bare {name : String} (h : Name.isPredicate name = true) :
    ReadsAs p name.toList (.predicate name)

/-- The text is a list of arguments and stands for the values. -/
inductive Value.ReadAs (p : Parameters) : List Char → List Value → Prop where
  | last {text : List Char} {v : Value} (h : v.ReadsAs p text) : ReadAs p text [v]
  | cons {text rest : List Char} {v : Value} {vs : List Value} (h : v.ReadsAs p text)
    (hrest : ReadAs p rest vs) : ReadAs p (text ++ ',' :: ' ' :: rest) (v :: vs)

/-- The text is a word with arguments in parentheses directly behind it and stands for the call. -/
inductive Call.ReadsAs (p : Parameters) : List Char → Call → Prop where
  | call {name : String} {text : List Char} {args : List Value}
    (hname : Name.isFunctionName name = true) (hargs : Value.ReadAs p text args) :
    ReadsAs p (name.toList ++ '(' :: (text ++ [')'])) (.named name args)

namespace Condition

/-- The combination of conditions; one condition by itself needs none. -/
def joined (join : List Condition → Condition) : List Condition → Condition
  | [c] => c
  | cs => join cs

/-- A part of a condition, with what it says. -/
inductive Phrase where
  /-- A condition that may stand behind `NOT`. -/
  | operand (c : Condition)
  /-- Operands with `AND` between them. -/
  | conjuncts (cs : List Condition)
  /-- Conjunctions with `OR` between them. -/
  | disjuncts (cs : List Condition)

/-- The text is a part of a condition. -/
inductive Phrase.ReadsAs (p : Parameters) : List Char → Phrase → Prop where
  | call {text : List Char} {c : Call} (h : c.ReadsAs p text) :
    ReadsAs p text (.operand (.call c))
  | not {text : List Char} {c : Condition} (h : ReadsAs p text (.operand c)) :
    ReadsAs p ("NOT ".toList ++ text) (.operand (.not c))
  | group {text : List Char} {cs : List Condition} (h : ReadsAs p text (.disjuncts cs)) :
    ReadsAs p ('(' :: (text ++ [')'])) (.operand (joined .or cs))
  | conjunct {text : List Char} {c : Condition} (h : ReadsAs p text (.operand c)) :
    ReadsAs p text (.conjuncts [c])
  | and {text rest : List Char} {c : Condition} {cs : List Condition}
    (h : ReadsAs p text (.operand c)) (hrest : ReadsAs p rest (.conjuncts cs)) :
    ReadsAs p (text ++ (" AND ".toList ++ rest)) (.conjuncts (c :: cs))
  | disjunct {text : List Char} {cs : List Condition} (h : ReadsAs p text (.conjuncts cs)) :
    ReadsAs p text (.disjuncts [joined .and cs])
  | or {text rest : List Char} {cs ds : List Condition} (h : ReadsAs p text (.conjuncts cs))
    (hrest : ReadsAs p rest (.disjuncts ds)) :
    ReadsAs p (text ++ (" OR ".toList ++ rest)) (.disjuncts (joined .and cs :: ds))

/-- The text is read as the condition when parameters stand for the given scalars. -/
def ReadsAs (p : Parameters) (text : List Char) (c : Condition) : Prop :=
  ∃ cs, Phrase.ReadsAs p text (.disjuncts cs) ∧ c = joined .or cs

end Condition

/-! ## Words that end -/

/-- A word ends at the first character that cannot belong to it. -/
theorem word_cancel {belongs : Char → Prop} {word word' rest rest' : List Char} {c c' : Char}
    (hword : ∀ d ∈ word, belongs d) (hword' : ∀ d ∈ word', belongs d) (hc : ¬belongs c)
    (hc' : ¬belongs c') (h : word ++ c :: rest = word' ++ c' :: rest') :
    word = word' ∧ c = c' ∧ rest = rest' := by
  induction word generalizing word' with
  | nil =>
    cases word' with
    | nil => simpa using h
    | cons d word' =>
      have hcd : c = d := (List.cons.inj h).1
      exact absurd (hcd ▸ hword' d List.mem_cons_self) hc
  | cons d word ih =>
    cases word' with
    | nil =>
      have hdc : d = c' := (List.cons.inj h).1
      exact absurd (hdc ▸ hword d List.mem_cons_self) hc'
    | cons d' word' =>
      obtain ⟨rfl, hrest⟩ := List.cons.inj h
      obtain ⟨hwords, hends⟩ := ih (fun e he => hword e (List.mem_cons_of_mem _ he))
        (fun e he => hword' e (List.mem_cons_of_mem _ he)) hrest
      exact ⟨by rw [hwords], hends⟩

/-! ## Arguments -/

namespace Value.ReadsAs

variable {p : Parameters} {text text' : List Char} {v v' : Value}

/-- A character that may stand in an argument, and does not end it. -/
def Inside (c : Char) : Prop := c ≠ ',' ∧ c ≠ ')'

theorem inside_of_isPredicate {name : String} (h : Name.isPredicate name = true) :
    ∀ c ∈ name.toList, Inside c := by
  intro c hc
  constructor
  · rintro rfl
    exact Name.not_mem_of_isPredicate (by decide) (by decide) h hc
  · rintro rfl
    exact Name.not_mem_of_isPredicate (by decide) (by decide) h hc

theorem inside_of_isIdentifier {name : String} (h : Name.isIdentifier name = true) :
    ∀ c ∈ name.toList, Inside c := by
  intro c hc
  simp only [Name.isIdentifier, Bool.and_eq_true, List.all_eq_true] at h
  have halphanum := h.2 c hc
  constructor
  · rintro rfl
    exact absurd halphanum (by decide)
  · rintro rfl
    exact absurd halphanum (by decide)

/-- Nothing in an argument ends it. -/
theorem inside (h : v.ReadsAs p text) : ∀ c ∈ text, Inside c := by
  cases h with
  | @parameter i s hs =>
    intro c hc
    rw [toList_parameterName, List.mem_cons, List.mem_cons] at hc
    rcases hc with rfl | rfl | hdigit
    · exact ⟨by decide, by decide⟩
    · exact ⟨by decide, by decide⟩
    · have hdigit := isDigit_of_mem_toDigits c hdigit
      constructor
      · rintro rfl
        exact absurd hdigit (by decide)
      · rintro rfl
        exact absurd hdigit (by decide)
  | uid hname =>
    simp only [List.forall_mem_cons, List.forall_mem_append, List.not_mem_nil, false_implies,
      implies_true, and_true]
    exact ⟨⟨by decide, by decide⟩, inside_of_isIdentifier hname, by decide, by decide⟩
  | predicate hname =>
    simp only [List.forall_mem_cons, List.forall_mem_append, List.not_mem_nil, false_implies,
      implies_true, and_true]
    exact ⟨⟨by decide, by decide⟩, inside_of_isPredicate hname, by decide, by decide⟩
  | bare hname => exact inside_of_isPredicate hname

/-- A bare predicate begins like no other argument. -/
theorem bare_ne {name : String} {c : Char} {rest : List Char} (h : Name.isPredicate name = true)
    (hc : c ≠ Name.reverseMark) (hchar : Name.isPredicateChar c = false) :
    name.toList ≠ c :: rest := by
  intro heq
  exact Name.not_mem_of_isPredicate hc hchar h (heq ▸ List.mem_cons_self)

/-- An argument stands for one value. -/
theorem eq (h : v.ReadsAs p text) (h' : v'.ReadsAs p text') (htext : text = text') : v = v' := by
  cases h with
  | @parameter i s hs =>
    rw [toList_parameterName] at htext
    cases h' with
    | @parameter j s' hs' =>
      rw [toList_parameterName] at htext
      obtain rfl := toDigits_injective (List.cons.inj (List.cons.inj htext).2).2
      exact congrArg _ (Option.some.inj (hs.symm.trans hs'))
    | uid _ | predicate _ => exact absurd (List.cons.inj htext).1 (by decide)
    | bare hname => exact absurd htext.symm (bare_ne hname (by decide) (by decide))
  | uid hname =>
    cases h' with
    | @parameter j s' hs' =>
      rw [toList_parameterName] at htext
      exact absurd (List.cons.inj htext).1 (by decide)
    | uid _ => rw [String.toList_inj.mp (List.append_cancel_right (List.cons.inj htext).2)]
    | predicate _ => exact absurd (List.cons.inj htext).1 (by decide)
    | bare hname => exact absurd htext.symm (bare_ne hname (by decide) (by decide))
  | predicate hname =>
    cases h' with
    | @parameter j s' hs' =>
      rw [toList_parameterName] at htext
      exact absurd (List.cons.inj htext).1 (by decide)
    | uid _ => exact absurd (List.cons.inj htext).1 (by decide)
    | predicate _ => rw [String.toList_inj.mp (List.append_cancel_right (List.cons.inj htext).2)]
    | bare hname => exact absurd htext.symm (bare_ne hname (by decide) (by decide))
  | bare hname =>
    cases h' with
    | @parameter j s' hs' =>
      rw [toList_parameterName] at htext
      exact absurd htext (bare_ne hname (by decide) (by decide))
    | uid _ | predicate _ => exact absurd htext (bare_ne hname (by decide) (by decide))
    | bare _ => rw [String.toList_inj.mp htext]

end Value.ReadsAs

section
variable {p : Parameters} {text text' rest rest' : List Char}

/-- A list of arguments ends at its parenthesis. -/
theorem Value.ReadAs.cancel {vs vs' : List Value} (h : Value.ReadAs p text vs)
    (h' : Value.ReadAs p text' vs') (heq : text ++ ')' :: rest = text' ++ ')' :: rest') :
    vs = vs' ∧ rest = rest' := by
  have hcomma : ¬ReadsAs.Inside ',' := fun hinside => hinside.1 rfl
  have hclosing : ¬ReadsAs.Inside ')' := fun hinside => hinside.2 rfl
  induction h generalizing text' vs' with
  | last hv =>
    cases h' with
    | last hv' =>
      obtain ⟨htext, -, hrest⟩ := word_cancel hv.inside hv'.inside hclosing hclosing heq
      exact ⟨by rw [hv.eq hv' htext], hrest⟩
    | cons hv' _ =>
      rw [List.append_assoc, List.cons_append] at heq
      have hends := (word_cancel hv.inside hv'.inside hclosing hcomma heq).2.1
      exact absurd hends (by decide)
  | cons hv _ ih =>
    rw [List.append_assoc, List.cons_append] at heq
    cases h' with
    | last hv' =>
      have hends := (word_cancel hv.inside hv'.inside hcomma hclosing heq).2.1
      exact absurd hends (by decide)
    | cons hv' hvs' =>
      rw [List.append_assoc, List.cons_append] at heq
      obtain ⟨htext, -, hbehind⟩ := word_cancel hv.inside hv'.inside hcomma hcomma heq
      obtain ⟨hvs, hrest⟩ := ih hvs' (List.cons.inj hbehind).2
      exact ⟨by rw [hv.eq hv' htext, hvs], hrest⟩

theorem Name.isFunctionChar_of_mem {name : String} (h : isFunctionName name = true) :
    ∀ c ∈ name.toList, isFunctionChar c = true := by
  simp only [isFunctionName, Bool.and_eq_true, List.all_eq_true] at h
  exact h.2

theorem Name.toList_ne_nil_of_isFunctionName {name : String} (h : isFunctionName name = true) :
    name.toList ≠ [] := by
  intro hnil
  rw [String.toList_eq_nil_iff.mp hnil] at h
  exact absurd h (by decide)

namespace Condition

/-- A call ends where it ends. -/
theorem call_cancel {c c' : Call} (h : c.ReadsAs p text) (h' : c'.ReadsAs p text')
    (heq : text ++ rest = text' ++ rest') : c = c' ∧ rest = rest' := by
  cases h with
  | call hname hargs =>
    cases h' with
    | call hname' hargs' =>
      simp only [List.append_assoc, List.cons_append, List.nil_append] at heq
      obtain ⟨hnames, -, hbehind⟩ := word_cancel (Name.isFunctionChar_of_mem hname)
        (Name.isFunctionChar_of_mem hname') (by decide) (by decide) heq
      obtain ⟨rfl, hrest⟩ := hargs.cancel hargs' hbehind
      exact ⟨by rw [String.toList_inj.mp hnames], hrest⟩

/-- A call is not a word with something else than a parenthesis behind it. -/
theorem call_ne {c : Call} {word : List Char} {d : Char} (h : c.ReadsAs p text)
    (hword : ∀ e ∈ word, Name.isFunctionChar e = true) (hd : Name.isFunctionChar d = false)
    (hne : word = [] ∨ d ≠ '(') : text ++ rest ≠ word ++ d :: rest' := by
  intro heq
  cases h with
  | call hname hargs =>
    simp only [List.append_assoc, List.cons_append] at heq
    obtain ⟨hnames, hends, -⟩ := word_cancel (Name.isFunctionChar_of_mem hname) hword (by decide)
      (by simp [hd]) heq
    rcases hne with hnil | hne
    · exact Name.toList_ne_nil_of_isFunctionName hname (hnames.trans hnil)
    · exact hne hends.symm

/-! ## Chains of operands -/

/-- What follows does not go on with the word. -/
def Stops (word : String) (rest : List Char) : Prop := ∀ next, rest ≠ word.toList ++ next

theorem stops_closing {word : String} (h : word.toList.head? = some ' ') :
    Stops word (')' :: rest) := by
  intro next heq
  cases hword : word.toList with
  | nil => simp [hword] at h
  | cons c cs =>
    rw [hword] at heq h
    obtain rfl : c = ' ' := by simpa using h
    exact absurd (List.cons.inj heq).1 (by decide)

theorem stops_nil {word : String} (h : word ≠ "") : Stops word [] := by
  intro next heq
  exact h (String.toList_eq_nil_iff.mp (List.append_eq_nil_iff.mp heq.symm).1)

theorem stops_or : Stops " AND " (" OR ".toList ++ rest) := by
  intro next heq
  simp at heq

/-- What a phrase is told by: it says one thing, and ends in one place, whatever stands behind an
operand, and if the chain does not go on. -/
def Phrase.Cancels (p : Parameters) (text : List Char) : Phrase → Prop
  | operand c => ∀ {c' text' rest rest'}, ReadsAs p text' (.operand c') →
    text ++ rest = text' ++ rest' → c = c' ∧ rest = rest'
  | conjuncts cs => ∀ {cs' text' rest rest'}, ReadsAs p text' (.conjuncts cs') →
    Stops " AND " rest → Stops " AND " rest' → text ++ rest = text' ++ rest' →
    cs = cs' ∧ rest = rest'
  | disjuncts cs => ∀ {cs' text' rest rest'}, ReadsAs p text' (.disjuncts cs') →
    Stops " AND " rest → Stops " OR " rest → Stops " AND " rest' → Stops " OR " rest' →
    text ++ rest = text' ++ rest' → cs = cs' ∧ rest = rest'

theorem Phrase.ReadsAs.cancels {phrase : Phrase} (h : phrase.ReadsAs p text) :
    phrase.Cancels p text := by
  have hnot : ∀ c ∈ "NOT".toList, Name.isFunctionChar c = true := List.all_eq_true.mp (by decide)
  have hnil : ∀ c ∈ ([] : List Char), Name.isFunctionChar c = true := List.forall_mem_nil _
  induction h with
  | call hcall =>
    intro c' text' rest rest' h' heq
    cases h' with
    | call hcall' =>
      obtain ⟨rfl, hrest⟩ := call_cancel hcall hcall' heq
      exact ⟨rfl, hrest⟩
    | not h' => exact absurd heq (call_ne hcall hnot rfl (Or.inr (by decide)))
    | group h' => exact absurd heq (call_ne hcall hnil rfl (Or.inl rfl))
  | not h ih =>
    intro c' text' rest rest' h' heq
    cases h' with
    | call hcall' => exact absurd heq.symm (call_ne hcall' hnot rfl (Or.inr (by decide)))
    | not h' =>
      rw [List.append_assoc, List.append_assoc] at heq
      obtain ⟨rfl, hrest⟩ := ih h' (List.append_cancel_left heq)
      exact ⟨rfl, hrest⟩
    | group h' => exact absurd (List.cons.inj heq).1 (by decide)
  | group h ih =>
    intro c' text' rest rest' h' heq
    cases h' with
    | call hcall' => exact absurd heq.symm (call_ne hcall' hnil rfl (Or.inl rfl))
    | not h' => exact absurd (List.cons.inj heq).1 (by decide)
    | group h' =>
      simp only [List.cons_append, List.append_assoc, List.nil_append, List.cons.injEq,
        true_and] at heq
      obtain ⟨rfl, hrest⟩ := ih h' (stops_closing rfl) (stops_closing rfl) (stops_closing rfl)
        (stops_closing rfl) heq
      exact ⟨rfl, (List.cons.inj hrest).2⟩
  | conjunct h ih =>
    intro cs' text' rest rest' h' hstops hstops' heq
    cases h' with
    | conjunct h' =>
      obtain ⟨rfl, hrest⟩ := ih h' heq
      exact ⟨rfl, hrest⟩
    | and h' _ =>
      rw [List.append_assoc, List.append_assoc] at heq
      exact absurd (ih h' heq).2 (hstops _)
  | and h hrest ih ihrest =>
    intro cs' text' rest rest' h' hstops hstops' heq
    rw [List.append_assoc, List.append_assoc] at heq
    cases h' with
    | conjunct h' => exact absurd (ih h' heq).2.symm (hstops' _)
    | and h' hrest' =>
      rw [List.append_assoc, List.append_assoc] at heq
      obtain ⟨rfl, hbehind⟩ := ih h' heq
      obtain ⟨rfl, hends⟩ := ihrest hrest' hstops hstops' (List.append_cancel_left hbehind)
      exact ⟨rfl, hends⟩
  | disjunct h ih =>
    intro cs' text' rest rest' h' hand hor hand' hor' heq
    cases h' with
    | disjunct h' =>
      obtain ⟨rfl, hrest⟩ := ih h' hand hand' heq
      exact ⟨rfl, hrest⟩
    | or h' _ =>
      rw [List.append_assoc, List.append_assoc] at heq
      exact absurd (ih h' hand stops_or heq).2 (hor _)
  | or h hrest ih ihrest =>
    intro cs' text' rest rest' h' hand hor hand' hor' heq
    rw [List.append_assoc, List.append_assoc] at heq
    cases h' with
    | disjunct h' => exact absurd (ih h' stops_or hand' heq).2.symm (hor' _)
    | or h' hrest' =>
      rw [List.append_assoc, List.append_assoc] at heq
      obtain ⟨rfl, hbehind⟩ := ih h' stops_or stops_or heq
      obtain ⟨rfl, hends⟩ := ihrest hrest' hand hor hand' hor' (List.append_cancel_left hbehind)
      exact ⟨rfl, hends⟩

/-- A text is read as one condition at most. -/
theorem ReadsAs.eq {c d : Condition} (h : c.ReadsAs p text) (h' : d.ReadsAs p text) : c = d := by
  obtain ⟨cs, hcs, rfl⟩ := h
  obtain ⟨ds, hds, rfl⟩ := h'
  have hand : Stops " AND " [] := stops_nil (by decide)
  have hor : Stops " OR " [] := stops_nil (by decide)
  obtain ⟨rfl, -⟩ := hcs.cancels hds hand hor hand hor rfl
  rfl

end Condition

end

end GraphQuery
