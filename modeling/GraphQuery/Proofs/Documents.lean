import GraphQuery.Proofs.Quotation
import GraphQuery.Proofs.Scanning
import GraphQuery.Toml.Reader

/-!
# Documents are read line by line

A document that is written line by line is read line by line: `Lines` says of
a text which expressions stand on its lines, whatever is read behind it, and
`Lines.read?` that it is read as the document with these expressions.

Texts of lines are put together with `Lines.append`, `Lines.join` and
`Lines.intercalate`, and there are two kinds of lines to begin with:

* `Lines.assignment`: a key and its value.  The text of the value is read up to
  the end of the line (`Value.IsWritten`); a string that was encoded and an
  integer in decimal are such values.
* `Lines.header`: the name of a table in brackets.

Names are those that need no quotes.  They begin with none of the `openers`,
which tells them from every other beginning of a line or a value.  So do the
decimal digits of a number.
-/

namespace GraphQuery.Toml

open Quoted (isBlank)

/-! ## Integers -/

namespace Scalar

variable {n value : Nat} {c : Char} {cs rest : List Char}

theorem digit?_of_isDigit (h : c.isDigit) : digit? 10 c = some (c.toNat - '0'.toNat) := by
  have hlt : c.toNat - '0'.toNat < 10 := by
    simp only [Char.isDigit, Bool.and_eq_true, decide_eq_true_eq] at h
    have hle : c.toNat ≤ '9'.toNat := h.2
    have hnine : '9'.toNat = '0'.toNat + 9 := rfl
    omega
  rw [digit?, Json.Quoted.hexValue?, if_pos h, Option.bind_some, if_pos hlt]

theorem digitsFrom?_of_isDigit {mayEnd : Bool} (h : ∀ c ∈ cs, c.isDigit)
    (hend : cs = [] → mayEnd = true) :
    digitsFrom? 10 value mayEnd cs = some (Nat.ofDigitChars 10 cs value) := by
  induction cs generalizing value mayEnd with
  | nil =>
    rw [hend rfl]
    rfl
  | cons c cs ih =>
    have hc : c.isDigit := h c List.mem_cons_self
    have hseparator : c ≠ '_' := by
      rintro rfl
      cases hc
    rw [digitsFrom?, if_neg hseparator, digit?_of_isDigit hc, Nat.ofDigitChars_cons,
      Nat.mul_comm 10]
    exact ih (fun d hd => h d (List.mem_cons_of_mem c hd)) fun _ => rfl

theorem digits?_toDigits : digits? 10 (Nat.toDigits 10 n) = some n := by
  rw [digits?, digitsFrom?_of_isDigit isDigit_of_mem_toDigits
    (fun h => absurd h Nat.toDigits_ne_nil), Nat.ofDigitChars_ten_toDigits]

/-- Only zero is written with a zero in front. -/
theorem natural?_toDigits : natural? (Nat.toDigits 10 n) = some n := by
  rw [natural?.eq_def]
  split
  next h =>
    obtain rfl := Number.eq_zero_of_head?_toDigits (congrArg List.head? h)
    rfl
  next hzero h =>
    obtain rfl := Number.eq_zero_of_head?_toDigits (congrArg List.head? h)
    exact absurd (List.cons.inj (h : ['0'] = _)).2.symm hzero
  next => exact digits?_toDigits

/-- A character that is no digit does not stand in a decimal number. -/
theorem notMem_toDigits (hc : c.isDigit = false) : c ∉ Nat.toDigits 10 n := fun h =>
  absurd (isDigit_of_mem_toDigits c h) (by simp [hc])

theorem toDigits_ne (hc : c.isDigit = false) (h : c ∈ cs) : Nat.toDigits 10 n ≠ cs := fun heq =>
  notMem_toDigits hc (heq ▸ h)

theorem takeSign_toDigits : takeSign (Nat.toDigits 10 n) = (false, Nat.toDigits 10 n) := by
  rw [takeSign.eq_def]
  split
  next h => exact absurd h (toDigits_ne (c := '-') rfl List.mem_cons_self)
  next h => exact absurd h (toDigits_ne (c := '+') rfl List.mem_cons_self)
  next => rfl

theorem integer?_toDigits (h : (n : Int) ≤ Int64.maxValue.toInt) :
    integer? (Nat.toDigits 10 n) = some (n : Int) := by
  have hunbounded : unbounded? (Nat.toDigits 10 n) = some (n : Int) := by
    rw [unbounded?.eq_def]
    split
    next h => exact absurd h (toDigits_ne (c := 'x') rfl (by simp))
    next h => exact absurd h (toDigits_ne (c := 'o') rfl (by simp))
    next h => exact absurd h (toDigits_ne (c := 'b') rfl (by simp))
    next => simp only [takeSign_toDigits, natural?_toDigits]; rfl
  have hlow : Int64.minValue.toInt ≤ (n : Int) :=
    Int.le_trans (by decide) (Int.natCast_nonneg n)
  rw [integer?, hunbounded, Option.bind_some, if_pos ⟨hlow, h⟩]

theorem mem_of_isDay (h : isDay cs) : '-' ∈ cs := by
  rw [isDay.eq_def] at h
  split at h
  · simp
  · cases h

theorem mem_of_clock? {more : List Char} (h : clock? cs = some more) : ':' ∈ cs := by
  rw [clock?.eq_def] at h
  split at h
  · simp
  · cases h

theorem isDate_toDigits : isDate (Nat.toDigits 10 n) = false := by
  have hday : ∀ k, isDay ((Nat.toDigits 10 n).take k) = false := fun k =>
    Bool.eq_false_iff.mpr fun h =>
      notMem_toDigits (c := '-') rfl (List.mem_of_mem_take (mem_of_isDay h))
  have hclock : clock? (Nat.toDigits 10 n) ≠ some [] := fun h =>
    notMem_toDigits (c := ':') rfl (mem_of_clock? h)
  have hwhole := hday (Nat.toDigits 10 n).length
  rw [List.take_length] at hwhole
  rw [isDate, hwhole, hday, Bool.false_and, Bool.or_false, Bool.false_or]
  exact beq_eq_false_iff_ne.mpr hclock

theorem isFloat_toDigits : isFloat (Nat.toDigits 10 n) = false := by
  have hinf : Nat.toDigits 10 n ≠ "inf".toList :=
    toDigits_ne (c := 'i') rfl (by decide)
  have hnan : Nat.toDigits 10 n ≠ "nan".toList :=
    toDigits_ne (c := 'n') rfl (by decide)
  have hbehind : (Nat.toDigits 10 n).dropWhile isDigitOrMark = [] :=
    List.dropWhile_eq_nil_iff.mpr fun c hc => by
      rw [isDigitOrMark, isDigit_of_mem_toDigits c hc, Bool.true_or]
  have hdecimal : isDecimal (Nat.toDigits 10 n) = false := by
    simp only [isDecimal, takeSign_toDigits, hbehind, List.isEmpty_nil, Bool.not_true,
      Bool.false_and]
  simp only [isFloat, takeSign_toDigits, hdecimal, beq_eq_false_iff_ne.mpr hinf,
    beq_eq_false_iff_ne.mpr hnan, Bool.or_self]

theorem ofWord?_toDigits (h : (n : Int) ≤ Int64.maxValue.toInt) :
    ofWord? (Nat.toDigits 10 n) = some (.integer n) := by
  have htrue : Nat.toDigits 10 n ≠ "true".toList :=
    toDigits_ne (c := 't') rfl (by decide)
  have hfalse : Nat.toDigits 10 n ≠ "false".toList :=
    toDigits_ne (c := 'f') rfl (by decide)
  rw [ofWord?, if_neg htrue, if_neg hfalse, isDate_toDigits, isFloat_toDigits,
    integer?_toDigits h]
  rfl

/-- An integer is read from its decimal text, up to the end of the line. -/
theorem read?_toDigits (h : (n : Int) ≤ Int64.maxValue.toInt) :
    read? (Nat.toDigits 10 n ++ '\n' :: rest) = some (.integer n, '\n' :: rest) := by
  have hword : ∀ c ∈ Nat.toDigits 10 n, isWordChar c = true := fun c hc => by
    simp only [isWordChar, Char.isAlphanum, isDigit_of_mem_toDigits c hc, Bool.or_true,
      Bool.true_or]
  have hend : ∀ c ∈ ('\n' :: rest).head?, isWordChar c = false := by
    rintro c ⟨⟩
    decide
  obtain ⟨htake, hdrop⟩ := Json.Token.takeWhile_of_head hword hend
  rw [read?, takeWord, htake, hdrop]
  simp [ofWord?_toDigits h]

end Scalar

/-! ## Keys -/

/-- A name that is written without quotes. -/
def IsBareName (name : String) : Prop := name ≠ "" ∧ name.toList.all isBare

instance (name : String) : Decidable (IsBareName name) := inferInstanceAs (Decidable (_ ∧ _))

variable {name key value text : String} {c : Char} {cs rest : List Char} {v : Value}

theorem IsBareName.bare (h : IsBareName name) : ∀ c ∈ name.toList, isBare c :=
  List.all_eq_true.mp h.2

/-- The characters with which no expression begins, because they are read over or cut off. -/
def gaps : List Char := ['\n', ' ', '\t', '#', '\ufeff']

/-- The characters that mean something else than a name at the beginning of a line or a value. -/
def openers : List Char := gaps ++ ['\x22', '\x27', '[', '\x7b']

/-- A name without quotes begins with none of the openers. -/
theorem IsBareName.exists_cons (h : IsBareName name) :
    ∃ c cs, name.toList = c :: cs ∧ isBare c ∧ ∀ d ∈ openers, c ≠ d := by
  obtain ⟨c, cs, hcs⟩ := List.exists_cons_of_ne_nil (mt String.toList_eq_nil_iff.mp h.1)
  have hc : isBare c := h.bare c (hcs ▸ List.mem_cons_self)
  refine ⟨c, cs, hcs, hc, ?_⟩
  rintro d hd rfl
  have hall : ∀ d ∈ openers, ¬isBare d := by simp [openers, gaps, isBare]
  exact hall c hd hc

theorem mem_openers {d : Char} (h : d ∈ gaps) : d ∈ openers := List.mem_append_left _ h

theorem IsBareName.append_ne {d : Char} (h : IsBareName name) (hd : d ∈ openers)
    (more : List Char) : name.toList ++ rest ≠ d :: more := by
  obtain ⟨c, cs, hcs, -, hne⟩ := h.exists_cons
  rw [hcs]
  exact fun heq => hne d hd (List.cons.inj heq).1

theorem IsBareName.return_notMem (h : IsBareName name) : '\r' ∉ name.toList := fun hmem =>
  absurd (h.bare _ hmem) (by decide)

theorem isBlank_of_not_opener (h : ∀ d ∈ openers, c ≠ d) : isBlank c = false := by
  simp [isBlank, h ' ' (by decide), h '\t' (by decide)]

theorem skipBlanks_cons (h : isBlank c = false) : skipBlanks (c :: cs) = c :: cs :=
  List.dropWhile_cons_of_neg (by simp [h])

/-- A name without quotes is read up to the blanks behind it. -/
theorem key?_bare (h : IsBareName name) (hrest : ∀ c ∈ rest.head?, isBare c = false)
    (hpoint : ∀ cs, skipBlanks rest ≠ '.' :: cs) :
    key? (name.toList ++ rest) = some (⟨[], name⟩, skipBlanks rest) := by
  obtain ⟨c, cs, hcs, -, hne⟩ := h.exists_cons
  obtain ⟨htake, hdrop⟩ := Json.Token.takeWhile_of_head h.bare hrest
  have hname : name? (name.toList ++ rest) = some (name, rest) := by
    have hnonempty : name.toList.isEmpty = false := by rw [hcs]; rfl
    rw [name?.eq_def]
    split
    next heq => exact absurd heq (h.append_ne (by decide) _)
    next heq => exact absurd heq (h.append_ne (by decide) _)
    next => simp [htake, hdrop, hnonempty]
  have hfirst : skipBlanks (name.toList ++ rest) = name.toList ++ rest := by
    rw [hcs, List.cons_append, skipBlanks_cons (isBlank_of_not_opener hne)]
  have hnames : names? maxNesting (name.toList ++ rest) = some ([name], skipBlanks rest) := by
    rw [maxNesting, names?, hfirst, hname]
    split
    next heq => cases heq
    next heq =>
      cases heq
      split
      next heq => exact absurd heq (hpoint _)
      next => rfl
  rw [key?, hnames]
  rfl

/-! ## Values -/

/-- The text is read as the value, when it is all that is left of a line. -/
structure Value.IsWritten (v : Value) (text : String) : Prop where
  notBlank : ∀ c ∈ text.toList.head?, isBlank c = false
  noReturn : '\r' ∉ text.toList
  read : ∀ rest, value? maxNesting (text.toList ++ '\n' :: rest) = some (v, '\n' :: rest)

theorem Value.isWritten_string (s : String) :
    (Value.string s).IsWritten (Quoted.encode s) := by
  obtain ⟨f, more, hmore⟩ := Quoted.exists_encode (s := s)
  refine ⟨?_, Quoted.return_notMem_encode, fun rest => ?_⟩
  · rw [hmore]
    rintro c ⟨⟩
    cases f <;> decide
  · have hread : Quoted.read? ((Quoted.encode s).toList ++ '\n' :: rest) = some (s, '\n' :: rest) :=
      Quoted.read?_encode fun f h => Quoted.quote_ne_break (Option.some.inj h).symm
    rw [value?.eq_def]
    rw [hmore] at hread ⊢
    cases f <;> simp_all [Quoted.Form.quote]

theorem toList_toString (n : Nat) : (toString n).toList = Nat.toDigits 10 n := by
  rw [Nat.toString_eq_repr, Nat.toList_repr]

theorem isBareName_toString (n : Nat) : IsBareName (toString n) := by
  refine ⟨mt String.toList_eq_nil_iff.mpr (by rw [toList_toString]; exact Nat.toDigits_ne_nil), ?_⟩
  refine List.all_eq_true.mpr fun c hc => ?_
  rw [toList_toString] at hc
  simp [isBare, Char.isAlphanum, isDigit_of_mem_toDigits c hc]

theorem Value.isWritten_integer {n : Nat} (h : (n : Int) ≤ Int64.maxValue.toInt) :
    (Value.integer n).IsWritten (toString n) := by
  obtain ⟨c, cs, hcs, -, hne⟩ := (isBareName_toString n).exists_cons
  refine ⟨?_, ?_, fun rest => ?_⟩
  · rw [hcs]
    rintro c ⟨⟩
    exact isBlank_of_not_opener hne
  · rw [toList_toString]
    exact Scalar.notMem_toDigits rfl
  · have hbare := isBareName_toString n
    rw [value?.eq_def]
    dsimp only
    split
    next heq => exact absurd heq (hbare.append_ne (by decide) _)
    next heq => exact absurd heq (hbare.append_ne (by decide) _)
    next heq => exact absurd heq (hbare.append_ne (by decide) _)
    next heq => exact absurd heq (hbare.append_ne (by decide) _)
    next =>
      rw [toList_toString]
      exact Scalar.read?_toDigits h

/-! ## Lines -/

theorem Expression.read?_of_ne (h : ∀ more, cs ≠ '[' :: more) : Expression.read? cs =
    (assignment? (value? maxNesting) cs).map fun r => (.assignment r.1 r.2.1, r.2.2) := by
  rw [Expression.read?.eq_def]
  split
  next heq => exact absurd rfl (h _)
  next heq => exact absurd rfl (h _)
  next => rfl

/-- Without carriage returns, line breaks are single characters as they are. -/
theorem unifyBreaks_of_notMem (h : '\r' ∉ cs) : Document.unifyBreaks cs = cs := by
  induction cs with
  | nil => rfl
  | cons c cs ih =>
    obtain ⟨hc, hcs⟩ := List.ne_and_not_mem_of_not_mem_cons h
    rw [Document.unifyBreaks.eq_def]
    split
    next heq => exact absurd (List.cons.inj heq).1.symm hc
    next heq =>
      cases heq
      rw [ih hcs]
    next heq => cases heq

/-- The text consists of lines with the given expressions. What is read behind it has no influence
on how it is read. -/
structure Lines (text : String) (es : List Expression) : Prop where
  noMark : ∀ c ∈ text.toList.head?, c ≠ '\ufeff'
  noReturn : '\r' ∉ text.toList
  length_le : es.length ≤ text.toList.length
  list? : ∀ fuel rest us, Expression.list? fuel rest = some us →
    Expression.list? (es.length + fuel) (text.toList ++ rest) = some (es ++ us)

namespace Lines

variable {s t : String} {es fs : List Expression} {e : Expression}

theorem empty : Lines "" [] where
  noMark := by simp
  noReturn := by simp
  length_le := Nat.zero_le _
  list? fuel rest us h := by simpa using h

theorem append (hs : Lines s es) (ht : Lines t fs) : Lines (s ++ t) (es ++ fs) where
  noMark := by
    rw [String.toList_append, List.head?_append]
    cases hhead : s.toList.head? with
    | none => exact ht.noMark
    | some c =>
      rw [Option.some_or, ← hhead]
      exact hs.noMark
  noReturn := by
    rw [String.toList_append, List.mem_append, not_or]
    exact ⟨hs.noReturn, ht.noReturn⟩
  length_le := by
    rw [String.toList_append, List.length_append, List.length_append]
    exact Nat.add_le_add hs.length_le ht.length_le
  list? fuel rest us h := by
    rw [String.toList_append, List.append_assoc, List.append_assoc, List.length_append,
      Nat.add_assoc]
    exact hs.list? _ _ _ (ht.list? _ _ _ h)

theorem join {parts : List String} {ess : List (List Expression)}
    (h : List.Forall₂ Lines parts ess) : Lines (String.join parts) ess.flatten := by
  induction h with
  | nil => exact empty
  | @cons s es parts ess hs _ ih =>
    rw [String.join_cons, List.flatten_cons]
    exact hs.append ih

/-- A blank line holds no expression. -/
theorem blank : Lines "\n" [] where
  noMark := by simp
  noReturn := by simp
  length_le := Nat.zero_le _
  list? fuel rest us h := by
    have hskip : skipGaps false ('\n' :: rest) = skipGaps false rest := by
      rw [skipGaps, if_pos rfl]
    rw [List.length_nil, Nat.zero_add, List.nil_append]
    show Expression.list? fuel ('\n' :: rest) = some us
    rw [Expression.list?.eq_def] at h ⊢
    simpa only [hskip] using h

/-- Blocks of lines with a blank line between any two. -/
theorem intercalate {blocks : List String} {ess : List (List Expression)}
    (h : List.Forall₂ Lines blocks ess) : Lines ("\n".intercalate blocks) ess.flatten := by
  induction h with
  | nil => exact empty
  | @cons s es blocks ess hs htail ih =>
    cases htail with
    | nil => simpa using hs
    | cons =>
      rw [String.intercalate_cons_cons, List.flatten_cons]
      exact append (by simpa using hs.append blank) ih

/-- A line of its own holds one expression. -/
theorem single (hnext : ∃ c cs, text.toList = c :: cs ∧ ∀ d ∈ gaps, c ≠ d)
    (hreturn : '\r' ∉ text.toList)
    (hread : ∀ rest, Expression.read? (text.toList ++ '\n' :: rest) = some (e, '\n' :: rest)) :
    Lines (text ++ "\n") [e] := by
  obtain ⟨c, cs, hcs, hc⟩ := hnext
  have hskip : ∀ rest, skipGaps false (c :: rest) = c :: rest := by
    intro rest
    simp only [gaps, List.forall_mem_cons] at hc
    simp [skipGaps, isBlank, hc]
  refine ⟨?_, ?_, ?_, ?_⟩
  · rw [String.toList_append, hcs]
    rintro c ⟨⟩
    exact hc _ (by simp [gaps])
  · rw [String.toList_append, List.mem_append, not_or]
    exact ⟨hreturn, by decide⟩
  · rw [String.toList_append, hcs]
    simp
  · intro fuel rest us h
    have hexpression : Expression.read? (c :: (cs ++ '\n' :: rest)) = some (e, '\n' :: rest) := by
      have hread := hread rest
      rwa [hcs] at hread
    have hend : endLine? ('\n' :: rest) = some rest := rfl
    have htext : (text ++ "\n").toList ++ rest = c :: (cs ++ '\n' :: rest) := by
      rw [String.toList_append, hcs]
      simp
    rw [htext, List.length_singleton, Nat.add_comm, Expression.list?.eq_def]
    simp [hskip, hexpression, hend, h]

theorem toList_assignment :
    (key ++ " = " ++ value).toList = key.toList ++ ' ' :: '=' :: ' ' :: value.toList := by
  simp

/-- A line with a key and its value. -/
theorem assignment (hkey : IsBareName key) (hv : v.IsWritten value) :
    Lines (key ++ " = " ++ value ++ "\n") [.assignment ⟨[], key⟩ v] := by
  obtain ⟨c, cs, hcs, -, hc⟩ := hkey.exists_cons
  refine single ⟨c, cs ++ ' ' :: '=' :: ' ' :: value.toList, ?_, fun d hd => hc d (mem_openers hd)⟩
    ?_ fun rest => ?_
  · rw [toList_assignment, hcs, List.cons_append]
  · rw [toList_assignment]
    simp [hkey.return_notMem, hv.noReturn]
  · have hblanks : ∀ more, skipBlanks (' ' :: '=' :: more) = '=' :: more := fun _ => rfl
    have hkey? : ∀ more, key? (key.toList ++ ' ' :: '=' :: more) = some (⟨[], key⟩, '=' :: more) :=
      fun more => key?_bare hkey (by rintro c ⟨⟩; decide) (by simp [hblanks])
    have hvalue : skipBlanks (' ' :: (value.toList ++ '\n' :: rest)) =
        value.toList ++ '\n' :: rest := by
      show skipBlanks (value.toList ++ '\n' :: rest) = _
      cases hvalue : value.toList with
      | nil => rfl
      | cons d ds => exact skipBlanks_cons (hv.notBlank d (by rw [hvalue]; rfl))
    have hread : assignment? (value? maxNesting)
        (key.toList ++ ' ' :: '=' :: ' ' :: (value.toList ++ '\n' :: rest)) =
          some (⟨[], key⟩, v, '\n' :: rest) := by
      rw [assignment?, hkey?]
      simp only [hvalue, hv.read, Option.map_some]
    rw [toList_assignment, List.append_assoc]
    simp only [List.cons_append]
    rw [Expression.read?_of_ne (hkey.append_ne (by decide)), hread]
    rfl

/-- A line with the header of a table. -/
theorem header (hname : IsBareName name) :
    Lines ("[" ++ name ++ "]\n") [.header ⟨[], name⟩] := by
  have htext : "[" ++ name ++ "]\n" = "[" ++ name ++ "]" ++ "\n" := by
    simp [String.append_assoc]
  rw [htext]
  refine single ⟨'[', name.toList ++ [']'], ?_, by simp [gaps]⟩ ?_ fun rest => ?_
  · simp
  · simp [hname.return_notMem]
  · have hkey? : key? (name.toList ++ ']' :: '\n' :: rest) =
        some (⟨[], name⟩, ']' :: '\n' :: rest) :=
      key?_bare hname (by rintro c ⟨⟩; decide) (by simp [skipBlanks, isBlank])
    have hrow : ∀ more, name.toList ++ ']' :: '\n' :: rest ≠ '[' :: more :=
      hname.append_ne (by decide)
    have htext : ("[" ++ name ++ "]").toList ++ '\n' :: rest =
        '[' :: (name.toList ++ ']' :: '\n' :: rest) := by simp
    rw [htext, Expression.read?.eq_def]
    split
    next heq => exact absurd (List.cons.inj heq).2 (hrow _)
    next heq =>
      cases heq
      rw [hkey?]
      rfl
    next hother => exact absurd rfl (hother _)

/-- A text of lines is read as a document with the expressions on them. -/
theorem read? (h : Lines text es) : Document.read? text =
    (Document.ofExpressions? es).map Document.root := by
  have hmark : Document.dropOrderMark text.toList = text.toList := by
    rw [Document.dropOrderMark.eq_def]
    split
    next heq => exact absurd rfl (h.noMark '\ufeff' (by rw [heq]; rfl))
    next => rfl
  have hlist : Expression.list? text.toList.length text.toList = some es := by
    have hend : Expression.list? (text.toList.length - es.length) [] = some [] := by
      rw [Expression.list?.eq_def]
      rfl
    have hall := h.list? _ _ _ hend
    rwa [Nat.add_sub_cancel' h.length_le, List.append_nil, List.append_nil] at hall
  rw [Document.read?, hmark, unifyBreaks_of_notMem h.noReturn]
  simp only [hlist, Option.bind_eq_bind, Option.bind_some, Option.map_eq_bind, Option.pure_def]
  rfl

end Lines

end GraphQuery.Toml
