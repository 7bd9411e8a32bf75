import GraphQuery.Proofs.Acceptance
import Mathlib.Data.List.Basic

/-!
# Which selections have the same text

Without modifiers, the text of a selection is a list of words with a space
between any two.  `Selection.normal` is what the words say: selectors are
gone, and a reverse edge has the alias that is written for it.
`Selection.text_eq_iff` says that two selections have the same text exactly
when they have the same normal form, provided that no field is named `:` or
`@facets`.

Both are accepted as names, though they are marks of their own in a text:
`Selection.colon_reads_as_aliased` has two selections that differ and have the
same text.  Aliases may be marks, because an alias is read by the colon behind
it: `Continues` is what remains true of the words behind a name.
-/

namespace GraphQuery

/-! ## Normal forms -/

/-- The field under the alias that it is written with. The text says nothing about lists. -/
def Field.normal (f : Field) : Field :=
  { f with
    alias? := f.alias?.or (if f.isReverse then some (Name.withoutMarks f.name) else none)
    isList := false }

namespace Selection

/-- What the text of a selection says: the fields that are written, under the aliases that they are
written with, and which of them have braces. -/
def normal : Selection → Selection
  | nil => nil
  | cons f children rest =>
    if f.isSelector then rest.normal
    else
      cons { f.normal with isObject := f.isObject || !children.isEmpty } children.normal
        rest.normal

end Selection

/-! ## Words -/

/-- The words of an alias, if there is one, and of a name. -/
def Field.labelWords (f : Field) : List String :=
  match f.alias? with
  | some a => [a, ":", f.name]
  | none => [f.name]

/-- The words behind the name of a field. -/
def Field.facetWords (f : Field) : List String := if f.wantsFacets then ["@facets"] else []

/-- The words of the fields of a selection in normal form. -/
def Selection.words : Selection → List String
  | nil => []
  | cons f children rest =>
    f.labelWords ++ f.facetWords ++
      (if f.isObject then "\x7b" :: (children.words ++ ["uid", "\x7d"]) else []) ++ rest.words

/-- The words, with a space before each. -/
def spaced : List String → String
  | [] => ""
  | w :: ws => " " ++ w ++ spaced ws

@[simp] theorem spaced_append {ws vs : List String} :
    spaced (ws ++ vs) = spaced ws ++ spaced vs := by
  induction ws with
  | nil => simp [spaced]
  | cons w ws ih => simp [spaced, ih, String.append_assoc]

theorem intercalate_eq_spaced {w : String} {ws : List String} :
    " ".intercalate (w :: ws) = w ++ spaced ws := by
  induction ws generalizing w with
  | nil => simp [spaced]
  | cons v ws ih => rw [String.intercalate_cons_cons, ih, spaced, String.append_assoc,
      String.append_assoc]

/-! ## The text of a selection -/

namespace Field

variable {f : Field} {path : Path} {n : Scalar → Nat}

theorem template_empty : f.template .empty path = .demand f.checkName :: .text f.label ::
    (if f.wantsFacets then
      [.text " ", .demand (Modifier.facets.checkTarget f.target), .text "@facets"] else []) ++
      [.demand f.checkAlias] := by
  unfold template
  cases hfacets : f.wantsFacets <;> simp [clauses, hfacets, Modifiers.forPath] <;> rfl

theorem spaced_labelWords : spaced f.normal.labelWords = " " ++ f.label := by
  have hseparator : " :" ++ (" " ++ f.name) = " : " ++ f.name := by
    rw [← String.append_assoc]
    rfl
  unfold labelWords normal label
  cases f.alias? with
  | some a => simp [spaced, String.append_assoc, hseparator]
  | none => cases f.isReverse <;> simp [spaced, String.append_assoc, hseparator]

theorem spaced_facetWords : spaced f.facetWords = if f.wantsFacets then " @facets" else "" := by
  unfold facetWords
  cases f.wantsFacets <;> rfl

theorem write_template : (f.template .empty path).write n =
    f.label ++ if f.wantsFacets then " @facets" else "" := by
  rw [template_empty]
  cases f.wantsFacets <;> simp [Template.write, Piece.write]

end Field

namespace Selection

variable {s t : Selection} {path : Path} {n : Scalar → Nat}

theorem write_braced {t : Template} :
    (braced t).write n = "\x7b" ++ t.write n ++ " uid \x7d" := by
  simp [braced, Template.write, Piece.write, Field.selectorName, String.append_assoc]

theorem write_fields : (s.fields .empty path).write n = spaced s.normal.words := by
  induction s generalizing path with
  | nil => rfl
  | cons f children rest ihchildren ihrest =>
    rw [fields, normal, Template.write_append, ihrest]
    cases hselector : f.isSelector with
    | true => simp [Template.write]
    | false =>
      have hhead : Template.write n (Piece.text " " :: f.template .empty (path.child f.name)) =
          spaced (f.normal.labelWords ++ f.facetWords) := by
        rw [spaced_append, Field.spaced_labelWords, Field.spaced_facetWords, Template.write,
          Field.write_template, Piece.write, String.append_assoc]
      have hbraces : Template.write n
          (Piece.text " " :: braced (children.fields .empty (path.child f.name))) =
          spaced ("\x7b" :: (children.normal.words ++ ["uid", "\x7d"])) := by
        rw [Template.write, write_braced, ihchildren, spaced, spaced_append]
        simp only [Piece.write, String.append_assoc]
        rfl
      rw [if_neg Bool.false_ne_true, if_neg Bool.false_ne_true, words, spaced_append,
        spaced_append, Template.write_append, hhead]
      show spaced _ ++ Template.write n (if (f.isObject || !children.isEmpty) = true then _ else _)
        ++ _ = spaced _ ++ spaced (if (f.isObject || !children.isEmpty) = true then _ else _) ++ _
      cases f.isObject || !children.isEmpty with
      | true => rw [if_pos rfl, if_pos rfl, hbraces]; rfl
      | false => rfl

theorem write_template : (s.template .empty path).write n =
    " ".intercalate ("\x7b" :: (s.normal.words ++ ["uid", "\x7d"])) := by
  rw [template, write_braced, write_fields, intercalate_eq_spaced, spaced_append,
    String.append_assoc]
  rfl

/-- A selection that yields a text can be written, and its normal form tells the text. -/
theorem text_of_fill {p : Parameters} {text : String}
    (h : ((s.template .empty path).fill p).1 = .ok text) :
    (s.fields .empty path).verdict = .ok () ∧
      text = " ".intercalate ("\x7b" :: (s.normal.words ++ ["uid", "\x7d"])) := by
  rw [Template.fill_fst, write_template] at h
  cases hverdict : Template.verdict (s.template .empty path) with
  | error e =>
    rw [hverdict] at h
    cases h
  | ok u =>
    rw [hverdict] at h
    exact ⟨verdict_braced.mp hverdict, (Except.ok.inj h).symm⟩

end Selection

/-! ## Legible selections -/

/-- The field has the name of a mark behind a name: it reads like the end of an alias, or like a
request for facets. -/
def Field.isMark (f : Field) : Bool := f.name == ":" || f.name == "@facets"

/-- A field of a normal form that cannot be taken for anything else. -/
structure Field.Legible (f : Field) : Prop where
  written : f.isSelector = false
  name : Name.isPredicate f.name = true
  aliasName : ∀ a, f.alias? = some a → Name.isPredicate a = true
  unmarked : f.isMark = false
  singular : f.isList = false

theorem Field.Legible.name_ne {f : Field} (h : f.Legible) : f.name ≠ ":" ∧ f.name ≠ "@facets" := by
  simpa [isMark] using h.unmarked

/-- A normal form all of whose fields are legible. -/
inductive Selection.Legible : Selection → Prop where
  | nil : Legible .nil
  | cons {f : Field} {children rest : Selection} (hf : f.Legible)
    (hleaf : f.isObject = false → children = .nil) (hchildren : Legible children)
    (hrest : Legible rest) : Legible (.cons f children rest)

/-- What may stand behind a name: a colon only as an alias, and a request for facets only as an
alias, too, unless it belongs to the name. -/
structure Continues (ws : List String) : Prop where
  separator : ∀ w rest, ws = ":" :: w :: rest → w = ":"
  facets : ∀ rest, ws = "@facets" :: rest → ∃ w rest', rest = ":" :: w :: rest' ∧ w ≠ ":"

theorem Continues.braces {b : Bool} {ws X : List String} (h : Continues X) :
    Continues ((if b then "\x7b" :: ws else []) ++ X) := by
  cases b with
  | false => exact h
  | true =>
    constructor
    · intro w rest heq
      exact absurd (List.cons.inj heq).1 (by decide)
    · intro rest heq
      exact absurd (List.cons.inj heq).1 (by decide)

namespace Field

variable {f g : Field} {X Y : List String}

theorem Legible.eq_of_words (hf : f.Legible) (hg : g.Legible) (hname : f.name = g.name)
    (halias : f.alias? = g.alias?) (hobject : f.isObject = g.isObject)
    (hfacets : f.wantsFacets = g.wantsFacets) : f = g := by
  have hsingular : f.isList = g.isList := hf.singular.trans hg.singular.symm
  cases f
  cases g
  simp only [Field.mk.injEq]
  exact ⟨hname, halias, hobject, hsingular, hfacets⟩

theorem separator_facetWords (hX : Continues X) (w : String) (rest : List String)
    (h : f.facetWords ++ X = ":" :: w :: rest) : w = ":" := by
  unfold facetWords at h
  cases hf : f.wantsFacets with
  | false => exact hX.separator w rest (by simpa [hf] using h)
  | true => simp [hf] at h

theorem labelWords_cancel (hf : f.Legible) (hg : g.Legible)
    (hX : ∀ w rest, X = ":" :: w :: rest → w = ":") (hY : ∀ w rest, Y = ":" :: w :: rest → w = ":")
    (h : f.labelWords ++ X = g.labelWords ++ Y) :
    f.name = g.name ∧ f.alias? = g.alias? ∧ X = Y := by
  unfold labelWords at h
  cases hfa : f.alias? with
  | none =>
    cases hga : g.alias? with
    | none => simpa [hfa, hga] using h
    | some b =>
      -- The name of the one is the alias of the other.
      simp only [hfa, hga, List.cons_append, List.nil_append, List.cons.injEq] at h
      exact absurd (hX _ _ h.2) hg.name_ne.1
  | some a =>
    cases hga : g.alias? with
    | none =>
      simp only [hfa, hga, List.cons_append, List.nil_append, List.cons.injEq] at h
      exact absurd (hY _ _ h.2.symm) hf.name_ne.1
    | some b =>
      simp only [hfa, hga, List.cons_append, List.nil_append, List.cons.injEq] at h
      obtain ⟨hab, -, hname, hXY⟩ := h
      exact ⟨hname, congrArg some hab, hXY⟩

theorem facetWords_cancel (hX : Continues X) (hY : Continues Y)
    (h : f.facetWords ++ X = g.facetWords ++ Y) : f.wantsFacets = g.wantsFacets ∧ X = Y := by
  unfold facetWords at h
  cases hf : f.wantsFacets <;> cases hg : g.wantsFacets <;> simp only [hf, hg] at h
  · exact ⟨rfl, h⟩
  -- A request for facets on one side is an alias on the other, so a name follows the colon there;
  -- on the first side a colon would follow it.
  · obtain ⟨w, rest, hrest, hne⟩ := hX.facets Y h
    exact absurd (hY.separator _ _ hrest) hne
  · obtain ⟨w, rest, hrest, hne⟩ := hY.facets X h.symm
    exact absurd (hX.separator _ _ hrest) hne
  · exact ⟨rfl, (List.cons.inj h).2⟩

theorem Legible.ne_closing (hf : f.Legible) (ws r : List String) :
    f.labelWords ++ ws ≠ "uid" :: "\x7d" :: r := by
  intro h
  rw [labelWords] at h
  cases ha : f.alias? with
  | none =>
    rw [ha] at h
    have hselector : f.isSelector = true := by
      rw [isSelector, ha, (List.cons.inj h).1]
      rfl
    rw [hf.written] at hselector
    cases hselector
  | some a =>
    rw [ha] at h
    exact absurd (List.cons.inj (List.cons.inj h).2).1 (by decide)

end Field

namespace Selection

variable {s t : Selection}

/-- The words of legible fields and the end of their selection may stand behind a name. -/
theorem Legible.continues (hs : s.Legible) (r : List String) :
    Continues (s.words ++ "uid" :: "\x7d" :: r) := by
  cases hs with
  | nil => exact ⟨fun w rest h => by simp [words] at h, fun rest h => by simp [words] at h⟩
  | @cons f children rest hf hleaf hchildren hrest =>
    rw [words, Field.labelWords]
    cases f.alias? with
    | none =>
      constructor
      · intro w rest' h
        exact absurd (List.cons.inj h).1 hf.name_ne.1
      · intro rest' h
        exact absurd (List.cons.inj h).1 hf.name_ne.2
    | some a =>
      constructor
      · intro w rest' h
        exact (List.cons.inj (List.cons.inj h).2).1.symm
      · intro rest' h
        exact ⟨_, _, (List.cons.inj h).2.symm, hf.name_ne.1⟩

theorem Legible.ne_brace (hs : s.Legible) (r ws : List String) :
    s.words ++ "uid" :: "\x7d" :: r ≠ "\x7b" :: ws := by
  intro h
  have hbrace : Name.isPredicate "\x7b" = false := by decide
  cases hs with
  | nil => exact absurd (List.cons.inj h).1 (by decide)
  | @cons f children rest hf hleaf hchildren hrest =>
    rw [words, Field.labelWords] at h
    cases ha : f.alias? with
    | none =>
      rw [ha] at h
      have hname := hf.name
      rw [(List.cons.inj h).1, hbrace] at hname
      cases hname
    | some a =>
      rw [ha] at h
      have halias := hf.aliasName a ha
      rw [(List.cons.inj h).1, hbrace] at halias
      cases halias

theorem braces_cancel {b c : Bool} {ws vs X Y : List String} (hX : ∀ zs, X ≠ "\x7b" :: zs)
    (hY : ∀ zs, Y ≠ "\x7b" :: zs)
    (h : (if b then "\x7b" :: (ws ++ ["uid", "\x7d"]) else []) ++ X =
      (if c then "\x7b" :: (vs ++ ["uid", "\x7d"]) else []) ++ Y) :
    b = false ∧ c = false ∧ X = Y ∨
      b = true ∧ c = true ∧ ws ++ "uid" :: "\x7d" :: X = vs ++ "uid" :: "\x7d" :: Y := by
  cases b with
  | false =>
    cases c with
    | false => exact Or.inl ⟨rfl, rfl, h⟩
    | true => exact absurd h (hX _)
  | true =>
    cases c with
    | false => exact absurd h.symm (hY _)
    | true => exact Or.inr ⟨rfl, rfl, by simpa using h⟩

/-- The words of a legible selection can be read in one way only. -/
theorem Legible.words_cancel (hs : s.Legible) (ht : t.Legible) {r r' : List String}
    (h : s.words ++ "uid" :: "\x7d" :: r = t.words ++ "uid" :: "\x7d" :: r') :
    s = t ∧ r = r' := by
  induction hs generalizing t r r' with
  | nil =>
    cases ht with
    | nil => exact ⟨rfl, by simpa [words] using h⟩
    | cons hg =>
      rw [words, words, List.append_assoc, List.append_assoc, List.append_assoc] at h
      exact absurd h.symm (hg.ne_closing _ _)
  | @cons f children rest hf hleaf hchildren hrest ihchildren ihrest =>
    cases ht with
    | nil =>
      rw [words, words, List.append_assoc, List.append_assoc, List.append_assoc] at h
      exact absurd h (hf.ne_closing _ _)
    | @cons g children' rest' hg hleaf' hchildren' hrest' =>
      simp only [words, List.append_assoc] at h
      -- The fields agree word by word: label, facets, braces; then comes what is behind them.
      have hbehind := hrest.continues r
      have hbehind' := hrest'.continues r'
      obtain ⟨hname, halias, h⟩ := Field.labelWords_cancel hf hg
        (Field.separator_facetWords hbehind.braces) (Field.separator_facetWords hbehind'.braces) h
      obtain ⟨hfacets, h⟩ := Field.facetWords_cancel hbehind.braces hbehind'.braces h
      have hobject : f.isObject = g.isObject ∧ children = children' ∧ rest = rest' ∧ r = r' := by
        -- Without braces there is nothing below the fields, because they are in normal form.
        rcases braces_cancel (hrest.ne_brace r) (hrest'.ne_brace r') h with
          ⟨hfo, hgo, h⟩ | ⟨hfo, hgo, h⟩
        · rw [hleaf hfo, hleaf' hgo, hfo, hgo]
          exact ⟨rfl, rfl, ihrest hrest' h⟩
        · obtain ⟨hbelow, h⟩ := ihchildren hchildren' h
          rw [hfo, hgo]
          exact ⟨rfl, hbelow, ihrest hrest' h⟩
      obtain ⟨hobject, rfl, rfl, rfl⟩ := hobject
      rw [hf.eq_of_words hg hname halias hobject hfacets]
      exact ⟨rfl, rfl⟩

end Selection

/-! ## Selections that can be written -/

namespace Name

variable {text : String}

theorem isPredicate_withoutMarks (h : isPredicate text = true) (hreverse : isReverse text = true) :
    isPredicate (withoutMarks text) = true := by
  rw [isPredicate, withoutMarks, String.toList_ofList]
  rw [isPredicate] at h
  rw [isReverse] at hreverse
  cases hchars : text.toList with
  | nil => simp [hchars] at hreverse
  | cons c cs =>
    have hc : c = reverseMark := by simpa [hchars] using hreverse
    have hunmarked : unmarked text.toList = cs := by rw [hchars, unmarked, if_pos hc]
    rw [hunmarked] at h
    cases cs with
    | nil => cases h
    | cons d ds =>
      have hd : d ≠ reverseMark := by
        rintro rfl
        exact absurd h (by simp [isPredicateChar])
      have hdrop : (c :: d :: ds).dropWhile (· == reverseMark) = d :: ds := by simp [hc, hd]
      rw [hdrop, unmarked, if_neg hd]
      exact h

end Name

theorem Field.Legible.no_space {f : Field} (hf : f.Legible) :
    ∀ w ∈ f.labelWords ++ f.facetWords, ' ' ∉ w.toList := by
  have hblank : ∀ {text : String}, Name.isPredicate text = true → ' ' ∉ text.toList :=
    Name.not_mem_of_isPredicate (by decide) (by decide)
  intro w hw
  rcases List.mem_append.mp hw with hlabel | hfacets
  · rw [labelWords] at hlabel
    cases ha : f.alias? with
    | none =>
      rw [ha] at hlabel
      rw [List.mem_singleton.mp hlabel]
      exact hblank hf.name
    | some a =>
      rw [ha] at hlabel
      simp only [List.mem_cons, List.not_mem_nil, or_false] at hlabel
      rcases hlabel with rfl | rfl | rfl
      · exact hblank (hf.aliasName _ ha)
      · decide
      · exact hblank hf.name
  · rw [facetWords] at hfacets
    split at hfacets
    · rw [List.mem_singleton.mp hfacets]
      decide
    · cases hfacets

theorem Field.legible_normal {f : Field} {path : Path} {isObject : Bool}
    (hselector : f.isSelector = false) (hf : (f.template .empty path).verdict = .ok ())
    (hmark : f.isMark = false) :
    Legible { f.normal with isObject } := by
  obtain ⟨hname, -, -, halias⟩ := verdict_template.mp hf
  have hpredicate : Name.isPredicate f.name = true :=
    Verdict.ofBool_eq_ok_iff.mp (Verdict.bind_eq_ok_iff.mp hname).2
  have hplain := halias rfl
  exact {
    written := by
      unfold isSelector normal at *
      cases ha : f.alias? with
      | none => simp_all
      | some a => simp
    name := hpredicate
    aliasName := by
      intro a ha
      have hor : f.alias?.or (if f.isReverse then some (Name.withoutMarks f.name) else none) =
        some a := ha
      cases hfa : f.alias? with
      | none =>
        cases hreverse : f.isReverse with
        | false => simp [hfa, hreverse] at hor
        | true =>
          obtain rfl : Name.withoutMarks f.name = a := by simpa [hfa, hreverse] using hor
          exact Name.isPredicate_withoutMarks hpredicate hreverse
      | some b =>
        obtain rfl : b = a := by simpa [hfa] using hor
        rw [checkAlias, hfa] at hplain
        exact Name.isPredicate_of_isPlainName (Verdict.ofBool_eq_ok_iff.mp hplain)
    unmarked := hmark
    singular := rfl }

namespace Selection

variable {s t : Selection} {path : Path}

theorem legible_normal (hs : (s.fields .empty path).verdict = .ok ())
    (hnames : ∀ place f, Rendered .empty path s place f → f.isMark = false) :
    s.normal.Legible := by
  induction s generalizing path with
  | nil => exact .nil
  | cons f children rest ihchildren ihrest =>
    obtain ⟨hfield, hrest⟩ := verdict_fields_cons.mp hs
    have hrest := ihrest hrest fun place g hg => hnames place g (.behind hg)
    rw [normal]
    cases hselector : f.isSelector with
    | true => exact hrest
    | false =>
      obtain ⟨htemplate, hchildren⟩ := hfield hselector
      refine .cons (f.legible_normal hselector htemplate (hnames _ _ (.here hselector))) ?_ ?_ hrest
      · intro hleaf
        cases children with
        | nil => rfl
        | cons g below rest' => simp [isEmpty] at hleaf
      · exact ihchildren (hchildren rfl) fun place g hg =>
          hnames place g (.beneath hselector rfl hg)

theorem Legible.no_space (hs : s.Legible) : ∀ w ∈ s.words, ' ' ∉ w.toList := by
  induction hs with
  | nil => simp [words]
  | @cons f children rest hf hleaf hchildren hrest ihchildren ihrest =>
    intro w hw
    rw [words, List.mem_append, List.mem_append] at hw
    rcases hw with (hfield | hbraces) | hw
    · exact hf.no_space w hfield
    · split at hbraces
      · simp only [List.mem_cons, List.mem_append, List.not_mem_nil, or_false] at hbraces
        rcases hbraces with rfl | hbelow | rfl | rfl
        · decide
        · exact ihchildren w hbelow
        · decide
        · decide
      · cases hbraces
    · exact ihrest w hw

theorem Legible.no_space_braced (hs : s.Legible) :
    ∀ w ∈ "\x7b" :: (s.words ++ ["uid", "\x7d"]), ' ' ∉ w.toList := by
  intro w hw
  simp only [List.mem_cons, List.mem_append, List.not_mem_nil, or_false] at hw
  rcases hw with rfl | hw | rfl | rfl
  · decide
  · exact hs.no_space w hw
  · decide
  · decide

end Selection

/-! ## The result -/

/-- Two selections without modifiers, both of which can be written, have the same text exactly when
they say the same. -/
theorem Selection.text_eq_iff {s t : Selection} {path path' : Path} {p p' : Parameters}
    {text text' : String} (hs : ((s.template .empty path).fill p).1 = .ok text)
    (ht : ((t.template .empty path').fill p').1 = .ok text')
    (hnames : ∀ place f, Rendered .empty path s place f → f.isMark = false)
    (hnames' : ∀ place f, Rendered .empty path' t place f → f.isMark = false) :
    text = text' ↔ s.normal = t.normal := by
  obtain ⟨hverdict, rfl⟩ := text_of_fill hs
  obtain ⟨hverdict', rfl⟩ := text_of_fill ht
  have hlegible := legible_normal hverdict hnames
  have hlegible' := legible_normal hverdict' hnames'
  constructor
  · intro h
    have hwords := eq_of_intercalate_eq (by decide) hlegible.no_space_braced
      hlegible'.no_space_braced (List.cons_ne_nil _ _) (List.cons_ne_nil _ _) h
    exact (hlegible.words_cancel hlegible' (List.cons.inj hwords).2).1
  · intro h
    rw [h]

namespace Selection

/-- A reverse edge with one field below it. -/
def friends : Selection := single { name := "~friend" } (single { name := "name" })

/-- The same with its alias and with selectors. -/
def friendsInFull : Selection :=
  .cons { name := "uid" } (single { name := "name" })
    (single { name := "~friend", alias? := some "friend", isObject := true, isList := true }
      (.cons { name := "name" } .nil (single { name := "uid" })))

theorem friends_eq_friendsInFull :
    ((template .empty .root friends).fill .empty).1 =
        .ok "\x7b friend : ~friend \x7b name uid \x7d uid \x7d" ∧
      friends.normal = friendsInFull.normal := by
  have hfill : ((template .empty .root friends).fill .empty).1 =
      .ok "\x7b friend : ~friend \x7b name uid \x7d uid \x7d" := by decide
  have hfill' : ((template .empty .root friendsInFull).fill .empty).1 =
      .ok "\x7b friend : ~friend \x7b name uid \x7d uid \x7d" := by decide
  refine ⟨hfill, (text_eq_iff hfill hfill' ?_ ?_).mp rfl⟩
  · intro place f hf
    cases hf with
    | here => rfl
    | behind hf => cases hf
    | beneath _ _ hf =>
      cases hf with
      | here => rfl
      | beneath _ _ hf | behind hf => cases hf
  · intro place f hf
    cases hf with
    | here h => cases h
    | beneath h => cases h
    | behind hf =>
      cases hf with
      | here => rfl
      | behind hf => cases hf
      | beneath _ _ hf =>
        cases hf with
        | here => rfl
        | beneath _ _ hf => cases hf
        | behind hf =>
          cases hf with
          | here h => cases h
          | beneath h => cases h
          | behind hf => cases hf

/-- Three fields of which the second is named like the mark behind an alias. -/
def colon : Selection :=
  .cons { name := "a" } .nil (.cons { name := ":" } .nil (single { name := "b" }))

/-- One field under an alias. -/
def aliased : Selection := single { name := "b", alias? := some "a" }

/-- A field that is named like a mark is accepted, and it is read as one. -/
theorem colon_reads_as_aliased :
    ((template .empty .root colon).fill .empty).1 = .ok "\x7b a : b uid \x7d" ∧
      ((template .empty .root aliased).fill .empty).1 = .ok "\x7b a : b uid \x7d" ∧
      colon.normal ≠ aliased.normal := by
  decide

/-- So is a field that is named like a request for facets. -/
example :
    let requested := single { name := "friend", wantsFacets := true }
    let named := Selection.cons { name := "friend" } .nil (single { name := "@facets" })
    ((template .empty .root named).fill .empty).1 =
      ((template .empty .root requested).fill .empty).1 := by
  decide

end Selection

end GraphQuery
