import GraphQuery.Proofs.Readings

/-!
# Calls told by their text

The arguments of a call are of four kinds, which their text tells apart by how
it begins: a parameter with `$`, a node identifier with a quote, a bracketed
predicate with `<`, and the bare name of a type with none of these.
`Call.recover?` reads the name and the arguments of a call off its text and the
parameters.  `Call.recover?_of_readsAs` says that it finds what the grammar of
calls says, and `Call.recovered` that it undoes the writing of every call.
-/

namespace GraphQuery

/-- The value that the text of an argument stands for. -/
def Value.recover? (p : Parameters) : List Char → Option Value
  | '$' :: rest =>
    (p.entries.find? fun e => (parameterName e.1).toList == '$' :: rest).map fun e => .scalar e.2
  | '\x22' :: rest => some (.uid (.ofList rest.dropLast))
  | '<' :: rest => some (.predicate (.ofList rest.dropLast))
  | text => some (.predicate (.ofList text))

/-- The values that a list of arguments stands for. Behind a comma comes a space. -/
def Value.recoverAll? (p : Parameters) (text : List Char) : Option (List Value) :=
  (text.splitOn ',').mapM fun argument => recover? p (argument.dropWhile (· == ' '))

/-- The name and the arguments of the call that a text stands for. -/
def Call.recover? (p : Parameters) (text : List Char) : Option (String × List Value) :=
  let inner := (text.dropWhile (· != '(')).tail.dropLast
  (Value.recoverAll? p inner).map fun args => (.ofList (text.takeWhile (· != '(')), args)

namespace Value

variable {p : Parameters} {text : List Char} {v : Value} {vs : List Value}

/-- The entry of a parameter is found by its name. -/
theorem find?_parameterName {i : Nat} {s : Scalar} (h : p.scalars[i]? = some s) :
    (p.entries.find? fun e => (parameterName e.1).toList == (parameterName i).toList) =
      some (i, s) := by
  cases hfind : p.entries.find? fun e => (parameterName e.1).toList == (parameterName i).toList with
  | none =>
    have hnone := List.find?_eq_none.mp hfind (i, s) (Parameters.mem_entries.mpr h)
    simp at hnone
  | some e =>
    have hname : (parameterName e.1).toList = (parameterName i).toList := by
      simpa using List.find?_some hfind
    have hindex : e.1 = i := parameterName_injective (String.toList_inj.mp hname)
    have hentry : p.scalars[e.1]? = some e.2 :=
      Parameters.mem_entries.mp (List.mem_of_find?_eq_some hfind)
    rw [hindex, h] at hentry
    rw [← hindex, Option.some.inj hentry]

/-- A bare predicate begins with none of the marks of other arguments. -/
theorem recover?_bare {name : String} (h : Name.isPredicate name = true) :
    recover? p name.toList = some (.predicate name) := by
  have hsigil : ∀ rest, name.toList ≠ '$' :: rest := fun _ =>
    ReadsAs.bare_ne h (by decide) (by decide)
  have hquote : ∀ rest, name.toList ≠ '\x22' :: rest := fun _ =>
    ReadsAs.bare_ne h (by decide) (by decide)
  have hbracket : ∀ rest, name.toList ≠ '<' :: rest := fun _ =>
    ReadsAs.bare_ne h (by decide) (by decide)
  unfold recover?
  split
  · exact absurd ‹_› (hsigil _)
  · exact absurd ‹_› (hquote _)
  · exact absurd ‹_› (hbracket _)
  · rw [String.ofList_toList]

theorem recover?_of_readsAs (h : v.ReadsAs p text) : recover? p text = some v := by
  cases h with
  | @parameter i s hs =>
    have hfind := find?_parameterName hs
    rw [toList_parameterName] at hfind ⊢
    rw [recover?, hfind]
    rfl
  | uid _ => simp [recover?]
  | predicate _ => simp [recover?]
  | bare hname => exact recover?_bare hname

/-- An argument does not begin with the space behind a comma. -/
theorem dropWhile_of_readsAs (h : v.ReadsAs p text) : text.dropWhile (· == ' ') = text := by
  rw [List.dropWhile_eq_self_iff]
  intro hne hspace
  cases h with
  | @parameter i s hs =>
    simp [toList_parameterName] at hspace
  | uid _ | predicate _ => simp at hspace
  | @bare name hname =>
    refine Name.not_mem_of_isPredicate (c := ' ') (by decide) (by decide) hname ?_
    rw [← eq_of_beq hspace]
    exact List.getElem_mem hne

/-- The space behind a comma is no part of an argument. -/
theorem mapM_modifyHead {words : List (List Char)} :
    ((words.modifyHead (' ' :: ·)).mapM fun w => recover? p (w.dropWhile (· == ' '))) =
      words.mapM fun w => recover? p (w.dropWhile (· == ' ')) := by
  cases words with
  | nil => rfl
  | cons w words => simp [List.mapM_cons]

theorem recoverAll?_of_readAs (h : ReadAs p text vs) : recoverAll? p text = some vs := by
  induction h with
  | last hv =>
    have hsplit := List.splitOnP_eq_singleton (p := (· == ',')) fun c hc =>
      beq_eq_false_iff_ne.mpr (hv.inside c hc).1
    simp [recoverAll?, List.splitOn, hsplit, dropWhile_of_readsAs hv, recover?_of_readsAs hv]
  | @cons text rest v vs hv _ ih =>
    have hsplit := List.splitOnP_append_cons_of_forall_mem (p := (· == ',')) (fun c hc =>
      beq_eq_false_iff_ne.mpr (hv.inside c hc).1) ',' rfl (' ' :: rest)
    have hspace : List.splitOnP (· == ',') (' ' :: rest) =
        (List.splitOnP (· == ',') rest).modifyHead (' ' :: ·) := by
      rw [List.splitOnP_cons_eq_if_modifyHead]
      rfl
    rw [recoverAll?, List.splitOn, hsplit, hspace, List.mapM_cons, mapM_modifyHead,
      dropWhile_of_readsAs hv, recover?_of_readsAs hv]
    rw [recoverAll?, List.splitOn] at ih
    rw [ih]
    rfl

end Value

namespace Call

variable {p p' : Parameters} {c : Call} {text : String}

/-- What is recovered of a call is what the grammar says of it. -/
theorem recover?_of_readsAs {text : List Char} (h : c.ReadsAs p text) :
    recover? p text = some (c.function.name, c.args) := by
  cases h with
  | @call name inner args hname hargs =>
    have hword : ∀ d ∈ name.toList, (d != '(') = true := by
      intro d hd
      have hchar := Name.isFunctionChar_of_mem hname d hd
      rw [bne_iff_ne]
      rintro rfl
      exact absurd hchar (by decide)
    have hopening : ('(' != '(') = false := rfl
    simp [recover?, named, FunctionName.name_ofName, List.takeWhile_append_of_pos hword,
      List.dropWhile_append_of_pos hword, Value.recoverAll?_of_readAs hargs]

/-- The text of a call and the parameters that it left tell its name and its arguments, so another
call with the same text and the same parameters has the same. -/
theorem recovered (h : c.template.fill p = (.ok text, p')) :
    recover? p' text.toList = some (c.function.name, c.args) ∧
      ∀ (d : Call) (q : Parameters), d.template.fill q = (.ok text, p') →
        d.function.name = c.function.name ∧ d.args = c.args := by
  have hrecover : ∀ (d : Call) (q : Parameters), d.template.fill q = (.ok text, p') →
      recover? p' text.toList = some (d.function.name, d.args) := by
    intro d q hd
    obtain ⟨hverdict, rfl, hscalars⟩ := Template.of_fill hd
    have hreads := reads (wellFormed_iff.mpr hverdict) hscalars
    rw [recover?_of_readsAs hreads, canonical, named, FunctionName.name_ofName]
  refine ⟨hrecover c p h, fun d q hd => ?_⟩
  have hsame := (hrecover d q hd).symm.trans (hrecover c p h)
  exact Prod.mk.inj (Option.some.inj hsame)

/-- A custom function with an argument of each kind, two of which have the same text. -/
def near : Call :=
  ⟨.custom "near", [.predicate "~loc", .int 10, .uid "10", .string "10"]⟩

/-- The text of `near`, where its string has a number already. -/
theorem fill_near : near.template.fill ⟨[.string "10"], List.nodup_singleton _⟩ =
    (.ok "near(<~loc>, $p1, \x2210\x22, $p0)", ⟨[.string "10", .int 10], by decide⟩) := by
  cbv

theorem recovered_near : ∃ text p',
    near.template.fill ⟨[.string "10"], List.nodup_singleton _⟩ = (.ok text, p') ∧
      recover? p' text.toList =
        some ("near", [.predicate "~loc", .int 10, .uid "10", .string "10"]) ∧
      ∀ (d : Call) (q : Parameters), d.template.fill q = (.ok text, p') →
        d.function.name = "near" ∧ d.args = near.args :=
  ⟨_, _, fill_near, recovered fill_near⟩

end Call

end GraphQuery
