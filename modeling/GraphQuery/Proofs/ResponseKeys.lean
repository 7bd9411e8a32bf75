import GraphQuery.Proofs.Addressing

/-!
# The keys of a response

Where the key of a field in the response is not its name, it is written before
the name with a colon between them (`Field.heading`).  Such a key is an alias,
the name of a reverse edge without its mark, or the key of an aggregate, which
in turn is an alias of its own or made of one of the first two.
`Query.responseKeys_plain` says which of them are plain names.

Aliases are checked where they are written, and a name has no mark left once it
is taken off.  The key of an aggregate is only checked to be a predicate, which
may have a reverse mark.  It has one when the alias that it comes from has one
(`Field.takesMark`), as `Query.marked_key_is_written` shows.
-/

namespace GraphQuery

/-- Behind a key without a space and before a token without a space, a colon is found at one place
only. -/
theorem key_eq_of_append {k t key token : String} (hk : ' ' ∉ k.toList) (ht : ' ' ∉ t.toList)
    (h : k ++ " : " ++ t = key ++ " : " ++ token) : key = k := by
  have hchars : k.toList ++ ' ' :: ':' :: ' ' :: t.toList =
      key.toList ++ ' ' :: ':' :: ' ' :: token.toList := by
    simpa using congrArg String.toList h
  have hcount : 2 = key.toList.count ' ' + (token.toList.count ' ' + 2) := by
    simpa [List.count_cons, List.count_eq_zero_of_not_mem hk, List.count_eq_zero_of_not_mem ht]
      using congrArg (List.count ' ') hchars
  have hkey : ' ' ∉ key.toList := List.count_eq_zero.mp (by omega)
  obtain ⟨between, hbetween, hrest⟩ := exists_eq_append_of_not_mem hk hchars
  cases between with
  | nil => exact String.toList_inj.mp (by simpa using hbetween)
  | cons c between =>
    obtain ⟨rfl, -⟩ := List.cons.inj hrest
    exact absurd (hbetween ▸ List.mem_append_right _ List.mem_cons_self) hkey

namespace Name

variable {text : String}

theorem isReverse_withoutMarks : isReverse (withoutMarks text) = false := by
  rw [isReverse, withoutMarks, String.toList_ofList]
  cases h : text.toList.dropWhile (· == reverseMark) with
  | nil => rfl
  | cons c cs =>
    have hc := List.head?_dropWhile_not (· == reverseMark) text.toList
    rw [h] at hc
    simpa using hc

/-- What is put behind a text marks it only if it begins with a mark itself. -/
theorem isReverse_append {suffix : String} (h : isReverse suffix = false) :
    isReverse (text ++ suffix) = isReverse text := by
  rw [isReverse, isReverse, String.toList_append]
  cases htext : text.toList with
  | nil => exact h
  | cons c cs => rfl

theorem checkPlain_eq_ok_iff (h : checkPredicate text = .ok ()) :
    checkPlain text = .ok () ↔ isReverse text = false := by
  rw [checkPlain, Verdict.ofBool_eq_ok_iff, isPlainName, Verdict.ofBool_eq_ok_iff.mp h]
  simp

end Name

/-! ## The heading of a field -/

namespace Field

variable {ms : Modifiers} {path : Path} {f : Field} {key token : String}

/-- What is written for a field before its arguments and directives: its name, and the key that it
has in the response if they differ. -/
def heading (ms : Modifiers) (path : Path) (f : Field) : String :=
  (f.clauses ms path).head?.getD f.label

/-- An aggregate gives the field a key that comes from an alias with a reverse mark. -/
def takesMark (ms : Modifiers) (path : Path) (f : Field) : Bool :=
  (ms.aggregates.lookup path).any fun a => (a.alias?.or f.alias?).any Name.isReverse

/-- The text of a field begins with its heading. -/
theorem exists_write_template {n : Scalar → Nat} :
    ∃ rest, (f.template ms path).write n = f.heading ms path ++ rest := by
  have hdemands : Template.write n (f.clauses ms path).demands = "" :=
    Template.write_demands fun _ => Clauses.mem_demands
  cases h : (f.clauses ms path).head? with
  | none =>
    refine ⟨(f.clauses ms path).template.write n, ?_⟩
    rw [template_of_no_head h, heading, h]
    simp [Template.write, Piece.write, hdemands]
  | some head =>
    refine ⟨(f.clauses ms path).template.write n, ?_⟩
    rw [template_of_head h, heading, h]
    simp [Template.write, Piece.write, hdemands]

theorem space_not_mem_name (h : f.checkName = .ok ()) : ' ' ∉ f.name.toList :=
  Name.not_mem_of_checkPredicate (by decide) (checkName_eq_ok_iff.mp h).2

/-- In the heading of a field without an aggregate the key is an alias or comes from the name. -/
theorem key_of_label (hname : f.checkName = .ok ()) (halias : f.checkAlias = .ok ())
    (h : f.label = key ++ " : " ++ token) :
    f.alias? = some key ∨ f.isReverse = true ∧ key = Name.withoutMarks f.name := by
  have hspace := space_not_mem_name hname
  unfold label at h
  cases ha : f.alias? with
  | some a =>
    rw [checkAlias, ha] at halias
    rw [ha] at h
    exact Or.inl (congrArg some
      (key_eq_of_append (Name.not_mem_of_checkPlain (by decide) halias) hspace h).symm)
  | none =>
    rw [ha] at h
    cases hreverse : f.isReverse with
    | true =>
      have hkey : ' ' ∉ (Name.withoutMarks f.name).toList := by
        rw [Name.withoutMarks, String.toList_ofList]
        exact fun hmem => hspace ((List.dropWhile_sublist _).subset hmem)
      simp only [hreverse, if_true] at h
      exact Or.inr ⟨rfl, key_eq_of_append hkey hspace h⟩
    | false =>
      simp only [hreverse, Bool.false_eq_true, if_false] at h
      rw [h] at hspace
      exact absurd hspace (by simp)

/-- The key that a field has without an aggregate is a plain name. -/
theorem checkPlain_of_label (hname : f.checkName = .ok ()) (halias : f.checkAlias = .ok ())
    (h : f.label = key ++ " : " ++ token) : Name.checkPlain key = .ok () := by
  rcases key_of_label hname halias h with ha | ⟨hreverse, rfl⟩
  · rw [checkAlias, ha] at halias
    exact halias
  · have hpredicate := Verdict.ofBool_eq_ok_iff.mp (checkName_eq_ok_iff.mp hname).2
    exact Verdict.ofBool_eq_ok_iff.mpr (by
      simp [Name.isPlainName, Name.isReverse_withoutMarks,
        Name.isPredicate_withoutMarks hpredicate hreverse])

end Field

/-- The key of an aggregate is marked when the alias that it comes from is. -/
theorem Aggregate.isReverse_key {a : Aggregate} {f : Field} :
    Name.isReverse (a.key f.target) = (a.alias?.or f.alias?).any Name.isReverse := by
  have hsuffix : ∀ text : String,
      Name.isReverse (text ++ "_" ++ a.kind.name) = Name.isReverse text := by
    intro text
    rw [String.append_assoc]
    refine Name.isReverse_append ?_
    cases a.kind <;> rfl
  unfold key Target.key Field.target
  cases a.alias? with
  | some b => rfl
  | none =>
    cases f.alias? with
    | some b => exact hsuffix b
    | none => exact (hsuffix _).trans Name.isReverse_withoutMarks

/-- In the heading of an aggregated field the key is that of the aggregate. -/
theorem Aggregate.key_of_head {a : Aggregate} {f : Field} {key token : String}
    (hname : f.checkName = .ok ()) (hkey : Name.checkPredicate (a.key f.target) = .ok ())
    (h : a.head f.target = key ++ " : " ++ token) : key = a.key f.target := by
  have htoken : ' ' ∉ (a.kind.name ++ "(" ++ f.name ++ ")").toList := by
    have hkind : ' ' ∉ a.kind.name.toList := by
      cases a.kind <;> decide
    simp [hkind, Field.space_not_mem_name hname]
  have hhead : a.key f.target ++ " : " ++ (a.kind.name ++ "(" ++ f.name ++ ")") =
      key ++ " : " ++ token := by
    rw [← h]
    simp [head, Field.target, String.append_assoc]
  exact key_eq_of_append (Name.not_mem_of_checkPredicate (by decide) hkey) htoken hhead

namespace Query

variable {q : Query} {path : Path} {f : Field}

/-- Every field that is written has its heading in the statement, and a key before a colon in it is
a plain name, unless an aggregate takes it from an alias with a reverse mark. -/
theorem responseKeys_plain {st : Statement} (hbuilt : q.Built) (hq : q.operation = .query)
    (hcompile : q.compile = .ok st) (hf : q.selection.Rendered q.modifiers .root path f) :
    (∃ before after, st.text = before ++ " " ++ f.heading q.modifiers path ++ after) ∧
      ∀ key token, f.heading q.modifiers path = key ++ " : " ++ token →
        (Name.checkPlain key = .ok () ↔ f.takesMark q.modifiers path = false) := by
  have hfield := Selection.verdict_fields_iff.mp (verdict_fields_of_compile hq hcompile) path f hf
  have hacceptable := Field.acceptable_iff.mpr hfield
  obtain ⟨hname, -, -, halias⟩ := Field.verdict_template.mp hfield
  obtain ⟨-, -, rfl⟩ := (compile_eq_ok_iff hq).mp hcompile
  constructor
  · obtain ⟨before, after, htext⟩ := exists_text_of_part hf.template_part
    obtain ⟨rest, hrest⟩ := f.exists_write_template
    refine ⟨before, rest ++ after, ?_⟩
    rw [htext, hrest]
    simp only [String.append_assoc]
  · intro key token hkey
    cases hagg : q.modifiers.aggregates.lookup path with
    | none =>
      have hnone : q.modifiers.hasAggregate path = false := by
        rw [Modifiers.hasAggregate, hagg]
        rfl
      rw [Field.heading, Field.head?_eq_none_iff.mpr hnone] at hkey
      simp [Field.takesMark, hagg, Field.checkPlain_of_label hname (halias hnone) hkey]
    | some a =>
      have hmem : (path, a) ∈ q.modifiers.aggregates := by
        obtain ⟨front, back, heq, -⟩ := List.lookup_eq_some_iff.mp hagg
        simp [heq]
      rw [Field.heading, Field.head?_of_aggregate hmem hbuilt.nodup_aggregates] at hkey
      have hpredicate := hacceptable.keys a hmem
      obtain rfl := Aggregate.key_of_head hname hpredicate hkey
      rw [Name.checkPlain_eq_ok_iff hpredicate, Aggregate.isReverse_key, Field.takesMark, hagg]
      rfl

theorem responseKeys_plain_countedFriends :
    let st : Statement :=
      ⟨.query, "\x7b q(func: has(<name>)) \x7b friend_count : count(friend) pal uid \x7d \x7d", []⟩
    countedFriends.compile = .ok st ∧
      (∃ before after, st.text = before ++ " " ++ "friend_count : count(friend)" ++ after) ∧
      Name.checkPlain "friend_count" = .ok () := by
  intro st
  have hcompile : countedFriends.compile = .ok st := by
    cbv
  obtain ⟨hwritten, hkey⟩ := responseKeys_plain (Built.build .empty _) rfl hcompile (.here rfl)
  exact ⟨hcompile, hwritten, (hkey "friend_count" "count(friend)" rfl).mpr rfl⟩

/-- Nodes with a name: how many friends they have, under a key that looks like a reverse edge. -/
def markedTotal : Query :=
  build .empty
    [.root (.has "name"), .select (.single { name := "friend" }),
      .modify "friend" (.aggregate ⟨.count, some "~total"⟩)]

/-- The key of an aggregate is written though it is no plain name. -/
theorem marked_key_is_written :
    markedTotal.Built ∧ markedTotal.operation = .query ∧
      markedTotal.compile = .ok
        ⟨.query, "\x7b q(func: has(<name>)) \x7b ~total : count(friend) uid \x7d \x7d", []⟩ ∧
      markedTotal.selection.Rendered markedTotal.modifiers .root "friend" { name := "friend" } ∧
      Field.heading markedTotal.modifiers "friend" { name := "friend" } =
        "~total" ++ " : " ++ "count(friend)" ∧
      Name.checkPlain "~total" ≠ .ok () := by
  refine ⟨Built.build .empty _, rfl, ?_, .here rfl, rfl, by decide⟩
  cbv

end Query

end GraphQuery
