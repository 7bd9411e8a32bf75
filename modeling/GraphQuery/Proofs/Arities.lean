import GraphQuery.Proofs.Conditions
import Mathlib

/-!
# What functions take

The arity of a function is a row of a table: the places of the first arguments
and, for some functions, the place of all further ones.  `BuiltIn.language`
says for each function which sequences of kinds its arguments may have, as a
regular language, and without looking at the table.

* `Arity.admits_iff`: comparing the kinds with a row decides the language that
  the row stands for.
* `BuiltIn.language_arity`: the row of a function stands for its language.
* `Call.Examined` lists the findings about a call of a named function, in the
  order in which they take precedence, and `Call.check_named` says that the
  check comes to these and to no others.
-/

namespace GraphQuery

open scoped Computability

/-! ## Languages of kinds -/

/-- One value of the kind. -/
def Kind.one (k : Kind) : Language Kind := {[k]}

/-- One string or integer. -/
def Kind.oneScalar : Language Kind := string.one + int.one

/-- The kinds that the arguments of a function have. -/
def BuiltIn.language : BuiltIn → Language Kind
  | has | ofType => Kind.predicate.one
  | uid => Kind.uid.one * Kind.uid.one∗
  | uidIn => Kind.predicate.one * Kind.uid.one
  | eq => Kind.predicate.one * (Kind.oneScalar * Kind.oneScalar∗)
  | le | lt | ge | gt | allOfTerms | anyOfTerms | allOfText | anyOfText | regexp =>
    Kind.predicate.one * Kind.oneScalar
  | between => Kind.predicate.one * (Kind.oneScalar * Kind.oneScalar)
  | fuzzyMatch => Kind.predicate.one * (Kind.string.one * Kind.int.one)

/-- One value that the place accepts. -/
def Slot.language : Slot → Language Kind
  | predicate => Kind.predicate.one
  | scalar => Kind.oneScalar
  | uid => Kind.uid.one
  | string => Kind.string.one
  | int => Kind.int.one

/-- The further arguments of a row. -/
def Arity.furtherLanguage (a : Arity) : Language Kind :=
  match a.further with
  | none => 1
  | some slot => slot.language * slot.language∗

/-- The language that a row stands for. -/
def Arity.language (a : Arity) : Language Kind :=
  (a.fixed.map Slot.language).foldr (· * ·) a.furtherLanguage

theorem Slot.mem_language {slot : Slot} {kinds : List Kind} :
    kinds ∈ slot.language ↔ ∃ k, kinds = [k] ∧ slot.accepts k = true := by
  have hone : ∀ k : Kind, kinds ∈ k.one ↔ kinds = [k] := fun k => Iff.rfl
  cases slot with
  | scalar =>
    rw [language, Kind.oneScalar, Language.mem_add, hone, hone]
    constructor
    · rintro (rfl | rfl)
      · exact ⟨_, rfl, rfl⟩
      · exact ⟨_, rfl, rfl⟩
    · rintro ⟨k, rfl, hk⟩
      cases k with
      | string => exact Or.inl rfl
      | int => exact Or.inr rfl
      | uid | predicate => cases hk
  | predicate | uid | string | int =>
    rw [language, hone]
    constructor
    · rintro rfl
      exact ⟨_, rfl, rfl⟩
    · rintro ⟨k, rfl, hk⟩
      cases k <;> cases hk
      rfl

/-- A place takes exactly one argument. -/
theorem Slot.mem_language_mul {slot : Slot} {l : Language Kind} {kinds : List Kind} :
    kinds ∈ slot.language * l ↔ ∃ k rest, kinds = k :: rest ∧ slot.accepts k = true ∧ rest ∈ l := by
  rw [Language.mem_mul]
  constructor
  · rintro ⟨first, hfirst, rest, hrest, rfl⟩
    obtain ⟨k, rfl, hk⟩ := mem_language.mp hfirst
    exact ⟨k, rest, rfl, hk, hrest⟩
  · rintro ⟨k, rest, rfl, hk, hrest⟩
    exact ⟨[k], mem_language.mpr ⟨k, rfl, hk⟩, rest, hrest, rfl⟩

/-- A place that is repeated takes any number of arguments. -/
theorem Slot.mem_language_kstar {slot : Slot} {kinds : List Kind} :
    kinds ∈ slot.language∗ ↔ ∀ k ∈ kinds, slot.accepts k = true := by
  rw [Language.mem_kstar]
  constructor
  · rintro ⟨words, rfl, hwords⟩ k hk
    obtain ⟨word, hword, hmem⟩ := List.mem_flatten.mp hk
    obtain ⟨k', rfl, hk'⟩ := mem_language.mp (hwords word hword)
    exact List.mem_singleton.mp hmem ▸ hk'
  · intro h
    refine ⟨kinds.map fun k => [k], (List.flatMap_singleton' kinds).symm, ?_⟩
    intro word hword
    obtain ⟨k, hk, rfl⟩ := List.mem_map.mp hword
    exact mem_language.mpr ⟨k, rfl, h k hk⟩

namespace Arity

variable {a : Arity} {kinds : List Kind}

/-- When the first places are filled, the further arguments are looked at. -/
theorem admits_nil_iff : admits.go a [] kinds = true ↔ kinds ∈ a.furtherLanguage := by
  rw [admits.go, furtherLanguage]
  cases a.further with
  | none => simp
  | some slot =>
    simp only [Slot.mem_language_mul, Slot.mem_language_kstar]
    cases kinds with
    | nil => simp
    | cons k rest => simp

/-- Comparing the kinds with a row decides its language. -/
theorem admits_iff : a.admits kinds = true ↔ kinds ∈ a.language := by
  unfold admits language
  induction a.fixed generalizing kinds with
  | nil => exact admits_nil_iff
  | cons slot slots ih =>
    rw [List.map_cons, List.foldr_cons, Slot.mem_language_mul]
    cases kinds with
    | nil => simp [admits.go]
    | cons k rest => simp [admits.go, ih]

end Arity

/-- The row of a function stands for its language. -/
theorem BuiltIn.language_arity (b : BuiltIn) : b.arity.language = b.language := by
  cases b <;>
    simp [arity, Arity.language, Arity.furtherLanguage, Slot.language, language]

/-! ## Calls of named functions -/

/-- An ASCII letter, a digit or an underscore. -/
def Name.IsWordChar (c : Char) : Prop :=
  'A' ≤ c ∧ c ≤ 'Z' ∨ 'a' ≤ c ∧ c ≤ 'z' ∨ '0' ≤ c ∧ c ≤ '9' ∨ c = '_'

theorem Name.isFunctionChar_iff {c : Char} : isFunctionChar c = true ↔ IsWordChar c := by
  simp only [isFunctionChar, IsWordChar, Char.isAlphanum, Char.isAlpha, Char.isUpper, Char.isLower,
    Char.isDigit, Bool.or_eq_true, Bool.and_eq_true, decide_eq_true_eq, beq_iff_eq, Char.le_def,
    or_assoc]

theorem Name.isFunctionName_iff {name : String} :
    isFunctionName name = true ↔ name ≠ "" ∧ ∀ c ∈ name.toList, IsWordChar c := by
  simp [isFunctionName, isFunctionChar_iff]

namespace Call

/-- What is found about a call of the function with this name. What comes later is looked at when
there is nothing wrong with what comes before. -/
inductive Examined (name : String) (args : List Value) : Verdict → Prop where
  | nameless (h : name = "") : Examined name args (.error .missingFunction)
  | misnamed (hne : name ≠ "") (h : ∃ c ∈ name.toList, ¬Name.IsWordChar c) :
    Examined name args (.error (.invalidArgument ("invalid function name '" ++ name ++ "'")))
  | idle (hne : name ≠ "") (hname : ∀ c ∈ name.toList, Name.IsWordChar c) (h : args = []) :
    Examined name args (.error (.missingArguments name))
  /-- The kinds of the arguments are not those of the built-in function. -/
  | mismatched {b : BuiltIn} (hb : b.name = name) (hargs : args ≠ [])
    (h : args.map Value.kind ∉ b.language) :
    Examined name args (.error (.arityMismatch name b.arity.expected args.length))
  /-- The name of a type is not plain. -/
  | mistyped {type : String} (hname : name = "type") (hargs : args = [.predicate type])
    (h : Name.isPlainName type = false) : Examined name args (.error (.invalidPredicate type))
  | fit (hne : name ≠ "") (hname : ∀ c ∈ name.toList, Name.IsWordChar c) (hargs : args ≠ [])
    (hkinds : ∀ b : BuiltIn, b.name = name → args.map Value.kind ∈ b.language)
    (htype : ∀ type, name = "type" → args = [.predicate type] → Name.isPlainName type = true) :
    Examined name args (.ok ())

variable {name : String} {args : List Value} {verdict : Verdict} {b : BuiltIn}

/-- Something is found about every call. -/
theorem exists_examined (name : String) (args : List Value) :
    ∃ verdict, Examined name args verdict := by
  by_cases hne : name = ""
  · exact ⟨_, .nameless hne⟩
  by_cases hname : ∀ c ∈ name.toList, Name.IsWordChar c
  case neg =>
    push Not at hname
    exact ⟨_, .misnamed hne hname⟩
  by_cases hargs : args = []
  · exact ⟨_, .idle hne hname hargs⟩
  by_cases hkinds : ∀ b : BuiltIn, b.name = name → args.map Value.kind ∈ b.language
  case neg =>
    push Not at hkinds
    obtain ⟨b, hb, hkinds⟩ := hkinds
    exact ⟨_, .mismatched hb hargs hkinds⟩
  by_cases htype : ∀ type, name = "type" → args = [.predicate type] →
      Name.isPlainName type = true
  case neg =>
    push Not at htype
    obtain ⟨type, htypeName, htypeArgs, hplain⟩ := htype
    exact ⟨_, .mistyped htypeName htypeArgs (Bool.eq_false_iff.mpr hplain)⟩
  exact ⟨_, .fit hne hname hargs hkinds htype⟩

/-- The check of a call whose function has a name. -/
theorem check_of_ne (hne : name ≠ "") : (named name args).check =
    Name.checkFunction name >>= fun _ =>
      Verdict.ofBool (!args.isEmpty) (.missingArguments name) >>= fun _ =>
        (named name args).checkArity >>= fun _ => (named name args).checkTypeName := by
  have hfunction : (named name args).function.name = name := FunctionName.name_ofName name
  have hname : Verdict.ofBool (name != "") .missingFunction = .ok () := by simpa using hne
  rw [check, hfunction, hname]
  rfl

theorem checkFunction_of_word (hne : name ≠ "")
    (hname : ∀ c ∈ name.toList, Name.IsWordChar c) : Name.checkFunction name = .ok () :=
  Verdict.ofBool_eq_ok_iff.mpr (Name.isFunctionName_iff.mpr ⟨hne, hname⟩)

/-- What the check does about arguments that are there. -/
theorem check_of_args (hne : name ≠ "") (hname : ∀ c ∈ name.toList, Name.IsWordChar c)
    (hargs : args ≠ []) : (named name args).check =
      (named name args).checkArity >>= fun _ => (named name args).checkTypeName := by
  have hsome : Verdict.ofBool (!args.isEmpty) (.missingArguments name) = .ok () := by
    simpa using hargs
  rw [check_of_ne hne, checkFunction_of_word hne hname, hsome]
  rfl

/-- The name of a built-in function is a word. -/
theorem word_of_builtIn (b : BuiltIn) :
    b.name ≠ "" ∧ ∀ c ∈ b.name.toList, Name.IsWordChar c := by
  apply Name.isFunctionName_iff.mp
  cases b <;> decide

theorem checkArity_builtIn : (named b.name args).checkArity =
    Verdict.ofBool (b.arity.admits (args.map Value.kind))
      (.arityMismatch b.name b.arity.expected args.length) := by
  have hfunction : FunctionName.ofName b.name = .builtIn b := by
    rw [FunctionName.ofName, BuiltIn.ofName?_name]
  rw [named, hfunction]
  rfl

theorem checkTypeName_of_ne_type (h : name ≠ "type") : (named name args).checkTypeName = .ok () := by
  unfold checkTypeName
  split
  next type hfunction _ =>
    have hname : (FunctionName.ofName name).name = "type" := congrArg FunctionName.name hfunction
    exact absurd (FunctionName.name_ofName name ▸ hname) h
  next => rfl

/-- The check comes to what is found. -/
theorem Examined.check_eq (h : Examined name args verdict) : (named name args).check = verdict := by
  cases h with
  | nameless h =>
    subst h
    rfl
  | misnamed hne h =>
    have hword : Name.isFunctionName name = false := by
      rw [Bool.eq_false_iff]
      intro hword
      obtain ⟨c, hc, hnot⟩ := h
      exact hnot ((Name.isFunctionName_iff.mp hword).2 c hc)
    rw [check_of_ne hne, Name.checkFunction, hword]
    rfl
  | idle hne hname h =>
    subst h
    rw [check_of_ne hne, checkFunction_of_word hne hname]
    rfl
  | @mismatched b hb hargs h =>
    subst hb
    obtain ⟨hne, hname⟩ := word_of_builtIn b
    have hadmits : b.arity.admits (args.map Value.kind) = false := by
      rw [Bool.eq_false_iff]
      intro hadmits
      exact h (b.language_arity ▸ Arity.admits_iff.mp hadmits)
    rw [check_of_args hne hname hargs, checkArity_builtIn, hadmits]
    rfl
  | @mistyped type hname hargs h =>
    subst hname hargs
    obtain ⟨hne, hword⟩ : "type" ≠ "" ∧ ∀ c ∈ "type".toList, Name.IsWordChar c :=
      word_of_builtIn .ofType
    have harity : (named "type" [.predicate type]).checkArity = .ok () :=
      checkArity_builtIn (b := .ofType)
    have htype : (named "type" [.predicate type]).checkTypeName = Name.checkPlain type := rfl
    rw [check_of_args hne hword (List.cons_ne_nil _ _), harity, htype, Name.checkPlain, h]
    rfl
  | fit hne hname hargs hkinds htype =>
    have harity : (named name args).checkArity = .ok () := by
      cases hb : BuiltIn.ofName? name with
      | none =>
        rw [named, FunctionName.ofName, hb]
        rfl
      | some b =>
        obtain rfl := BuiltIn.name_of_ofName? hb
        rw [checkArity_builtIn, Verdict.ofBool_eq_ok_iff, Arity.admits_iff, b.language_arity]
        exact hkinds b rfl
    rw [check_of_args hne hname hargs, harity]
    by_cases hof : name = "type"
    · subst hof
      have hone : args.map Value.kind = [.predicate] := hkinds .ofType rfl
      obtain ⟨v, rfl, hv⟩ := List.map_eq_singleton_iff.mp hone
      cases v with
      | predicate type => exact Verdict.ofBool_eq_ok_iff.mpr (htype type rfl rfl)
      | uid _ => cases hv
      | scalar s => cases s <;> cases hv
    · exact checkTypeName_of_ne_type hof

end Call

/-- The check of a call of a named function comes to exactly what is found about its name and its
arguments, and the call can be written, after any parameters, exactly when it passes the check and
every name among its arguments is of its class. -/
theorem Call.check_named (name : String) (args : List Value) :
    (∀ verdict, (named name args).check = verdict ↔ Examined name args verdict) ∧
    ∀ p : Parameters, (∃ text, ((named name args).template.fill p).1 = .ok text) ↔
      (named name args).check = .ok () ∧
        (∀ text, Value.uid text ∈ args → Name.checkIdentifier text = .ok ()) ∧
        ∀ text, Value.predicate text ∈ args → Name.checkPredicate text = .ok () := by
  constructor
  · intro verdict
    constructor
    · intro hcheck
      obtain ⟨found, hfound⟩ := exists_examined name args
      exact hcheck ▸ hfound.check_eq ▸ hfound
    · exact Examined.check_eq
  · intro p
    have hwritten : (∃ text, ((named name args).template.fill p).1 = .ok text) ↔
        (named name args).template.verdict = .ok () := by
      rw [Template.fill_fst]
      cases (named name args).template.verdict with
      | error e => simp [Except.map]
      | ok u => simp [Except.map]
    rw [hwritten, ← wellFormed_iff]
    exact ⟨fun h => ⟨h.check, h.uids, h.predicates⟩, fun h => ⟨h.1, h.2.1, h.2.2⟩⟩

end GraphQuery
