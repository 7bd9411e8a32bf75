import GraphQuery.Proofs.Bindings
import GraphQuery.Proofs.Filling

/-!
# References to parameters in a text

A text refers to the parameter with number `i` where its name stands and no
digit follows (`RefersAt`).  For the text of a template these places are
exactly the places of scalars (`refersAt_iff`), provided that

* the template is `Plain`: nothing that it writes apart from parameters has a
  `$` in it, and
* the template is `Sealed`: behind the place of a scalar stands a text that
  does not begin with a digit.

Every `$` of the text then starts a reference (`refersAt_of_sigil`).  If the
numbers are those of the interned scalars, then every number is referred to
(`exists_refersAt`), and a smaller number is referred to earlier
(`refersAt_earlier`).
-/

namespace GraphQuery

/-- The mark that starts the name of a parameter. -/
def sigil : Char := '$'

/-- Behind `before`, the text refers to the parameter with number `i`. -/
def RefersAt (text : List Char) (i : Nat) (before : List Char) : Prop :=
  ∃ next after, text = before ++ (parameterName i).toList ++ next :: after ∧ next.isDigit = false

/-! ## Texts around a character -/

/-- An occurrence of a character lies behind a text in which the character does not occur. -/
theorem exists_eq_append_of_not_mem {c : Char} {word rest before after : List Char}
    (hword : c ∉ word) (h : word ++ rest = before ++ c :: after) :
    ∃ between, before = word ++ between ∧ rest = between ++ c :: after := by
  rcases List.append_eq_append_iff.mp h with ⟨between, hbefore, hrest⟩ | ⟨tail, htail, hafter⟩
  · exact ⟨between, hbefore, hrest⟩
  · cases tail with
    | nil => exact ⟨[], by simpa using htail.symm, by simpa using hafter.symm⟩
    | cons d tail =>
      -- Then the character itself would be part of the text.
      obtain ⟨rfl, -⟩ := List.cons.inj hafter
      exact absurd (htail ▸ List.mem_append_right _ List.mem_cons_self) hword

/-- Words can be told apart by a character between them that is in none. -/
theorem eq_of_intercalate_eq {between : String} {c : Char} {ws vs : List String}
    (hbetween : between.toList = [c]) (hws : ∀ w ∈ ws, c ∉ w.toList) (hvs : ∀ v ∈ vs, c ∉ v.toList)
    (hne : ws ≠ []) (hne' : vs ≠ []) (h : between.intercalate ws = between.intercalate vs) :
    ws = vs := by
  have hsplit : ∀ us : List String, (∀ u ∈ us, c ∉ u.toList) → us ≠ [] →
      (between.intercalate us).toList.splitOn c = us.map String.toList := by
    intro us hus hne
    rw [String.toList_intercalate, hbetween]
    refine List.splitOn_intercalate c ?_ (by simpa using hne)
    intro cs hcs
    obtain ⟨u, hu, rfl⟩ := List.mem_map.mp hcs
    exact hus u hu
  have hmap : ws.map String.toList = vs.map String.toList := by
    rw [← hsplit ws hws hne, ← hsplit vs hvs hne', h]
  exact List.map_injective_iff.mpr (fun _ _ => String.toList_inj.mp) hmap

theorem isDigit_of_mem_toDigits {i : Nat} : ∀ c ∈ Nat.toDigits 10 i, c.isDigit = true :=
  fun _ hmem => Nat.isDigit_of_mem_toDigits (by decide) (by decide) hmem

/-- The digits of a number end at the first character that is no digit. -/
theorem takeWhile_toDigits {i : Nat} {c : Char} {cs : List Char} (hc : c.isDigit = false) :
    (Nat.toDigits 10 i ++ c :: cs).takeWhile Char.isDigit = Nat.toDigits 10 i := by
  rw [List.takeWhile_append_of_pos isDigit_of_mem_toDigits, List.takeWhile_cons, hc]
  simp

theorem dropWhile_toDigits {i : Nat} {c : Char} {cs : List Char} (hc : c.isDigit = false) :
    (Nat.toDigits 10 i ++ c :: cs).dropWhile Char.isDigit = c :: cs := by
  rw [List.dropWhile_append_of_pos isDigit_of_mem_toDigits, List.dropWhile_cons, hc]
  simp

/-- A number that ends at a character that is no digit is read in one way only. -/
theorem parameterName_append_inj {i j : Nat} {c d : Char} {cs ds : List Char}
    (hc : c.isDigit = false) (hd : d.isDigit = false)
    (h : (parameterName i).toList ++ c :: cs = (parameterName j).toList ++ d :: ds) : i = j := by
  rw [toList_parameterName, toList_parameterName] at h
  simp only [List.cons_append, List.cons.injEq, true_and] at h
  apply toDigits_injective
  rw [← takeWhile_toDigits hc, h, takeWhile_toDigits hd]

/-- The sigil occurs at the start of a name only. -/
theorem sigil_not_mem_digits (i : Nat) : sigil ∉ 'p' :: Nat.toDigits 10 i := by
  intro h
  rcases List.mem_cons.mp h with h | h
  · exact absurd h (by decide)
  · exact absurd (isDigit_of_mem_toDigits sigil h) (by decide)

/-- Unless it is the place of a scalar, the piece writes no sigil. -/
def Piece.Plain (piece : Piece) : Prop :=
  piece.scalar? = none → ∀ number, sigil ∉ (piece.write number).toList

namespace Template

variable {t u : Template} {n : Scalar → Nat} {s : Scalar} {before after : List Char} {i j : Nat}

/-! ## Plain and sealed templates -/

/-- Nothing apart from the names of parameters has the sigil in it. -/
def Plain (t : Template) : Prop :=
  ∀ piece ∈ t, piece.Plain

/-- A text that does not begin with a digit comes first. -/
def BeginsApart (t : Template) : Prop :=
  ∃ s rest c cs, t = .text s :: rest ∧ s.toList = c :: cs ∧ c.isDigit = false

/-- Behind the place of a scalar comes a text that does not begin with a digit. -/
def Sealed : Template → Prop
  | [] => True
  | piece :: rest => (piece.scalar?.isSome → BeginsApart rest) ∧ Sealed rest

theorem BeginsApart.append (h : BeginsApart t) : BeginsApart (t ++ u) := by
  obtain ⟨s, rest, c, cs, rfl, hs, hc⟩ := h
  exact ⟨s, rest ++ u, c, cs, rfl, hs, hc⟩

theorem Sealed.append (ht : Sealed t) (hu : Sealed u) : Sealed (t ++ u) := by
  induction t with
  | nil => exact hu
  | cons piece t ih => exact ⟨fun hs => (ht.1 hs).append, ih ht.2⟩

theorem Sealed.of_append (h : Sealed (t ++ u)) : Sealed u := by
  induction t with
  | nil => exact h
  | cons piece t ih => exact ih h.2

theorem toList_write_append :
    (write n (t ++ u)).toList = (t.write n).toList ++ (u.write n).toList := by
  rw [write_append, String.toList_append]

/-! ## The places of the sigil -/

/-- Every sigil in the text of a plain template starts the name that stands for a scalar. -/
theorem exists_place_of_sigil (hplain : Plain t)
    (h : (t.write n).toList = before ++ sigil :: after) :
    ∃ pre piece post s, t = pre ++ piece :: post ∧ piece.scalar? = some s ∧
      before = (write n pre).toList ∧
      sigil :: after = (parameterName (n s)).toList ++ (write n post).toList := by
  induction t generalizing before with
  | nil => simp [write] at h
  | cons piece t ih =>
    rw [write, String.toList_append] at h
    have ht : Plain t := fun piece' hmem => hplain piece' (List.mem_cons_of_mem piece hmem)
    cases hs : piece.scalar? with
    | none =>
      have hpiece := hplain piece List.mem_cons_self hs n
      obtain ⟨between, hbefore, hrest⟩ := exists_eq_append_of_not_mem hpiece h
      obtain ⟨pre, place, post, s, rfl, hplace, hbetween, hname⟩ := ih ht hrest
      refine ⟨piece :: pre, place, post, s, rfl, hplace, ?_, hname⟩
      rw [hbefore, hbetween, write, String.toList_append]
    | some s =>
      rw [Piece.write_of_scalar? hs] at h
      cases before with
      | nil => exact ⟨[], piece, t, s, rfl, hs, rfl, h.symm⟩
      | cons c before =>
        -- The sigil lies behind the name of this piece, which has only its own.
        rw [toList_parameterName] at h
        obtain ⟨rfl, htail⟩ := List.cons.inj h
        obtain ⟨between, hbefore, hrest⟩ :=
          exists_eq_append_of_not_mem (sigil_not_mem_digits (n s)) htail
        obtain ⟨pre, place, post, s', rfl, hplace, hbetween, hname⟩ := ih ht hrest
        refine ⟨piece :: pre, place, post, s', rfl, hplace, ?_, hname⟩
        rw [hbefore, hbetween, write, String.toList_append, Piece.write_of_scalar? hs,
          toList_parameterName]
        rfl

/-- The text refers to a parameter at the place of each scalar. -/
theorem refersAt_place {pre post : Template} {piece : Piece}
    (hsealed : Sealed (pre ++ piece :: post)) (hs : piece.scalar? = some s) :
    RefersAt (write n (pre ++ piece :: post)).toList (n s) (write n pre).toList := by
  obtain ⟨next, rest, c, cs, rfl, hnext, hc⟩ := hsealed.of_append.1 (by rw [hs]; rfl)
  refine ⟨c, cs ++ (write n rest).toList, ?_, hc⟩
  rw [toList_write_append, write, write, String.toList_append, String.toList_append,
    Piece.write_of_scalar? hs, Piece.write, hnext]
  simp

/-- The text refers to a parameter at the places of scalars and nowhere else. -/
theorem refersAt_iff (hplain : Plain t) (hsealed : Sealed t) :
    RefersAt (t.write n).toList i before ↔
      ∃ pre piece post s, t = pre ++ piece :: post ∧ piece.scalar? = some s ∧ n s = i ∧
        before = (write n pre).toList := by
  constructor
  · intro hall
    obtain ⟨next, after, htext, hnext⟩ := hall
    have hsigil : (t.write n).toList =
        before ++ sigil :: ('p' :: Nat.toDigits 10 i ++ next :: after) := by
      rw [htext, toList_parameterName, List.append_assoc]
      rfl
    obtain ⟨pre, piece, post, s, rfl, hs, hbefore, hname⟩ := exists_place_of_sigil hplain hsigil
    refine ⟨pre, piece, post, s, rfl, hs, ?_, hbefore⟩
    obtain ⟨text, rest, c, cs, rfl, htext, hc⟩ := hsealed.of_append.1 (by rw [hs]; rfl)
    rw [write, String.toList_append, Piece.write, htext] at hname
    apply parameterName_append_inj hc hnext
    simpa [toList_parameterName, sigil] using hname.symm
  · intro hall
    obtain ⟨pre, piece, post, s, rfl, hs, rfl, rfl⟩ := hall
    exact refersAt_place hsealed hs

/-- Every sigil in the text starts a reference. -/
theorem refersAt_of_sigil (hplain : Plain t) (hsealed : Sealed t)
    (h : (t.write n).toList = before ++ sigil :: after) :
    ∃ s ∈ t.scalars, RefersAt (t.write n).toList (n s) before := by
  obtain ⟨pre, piece, post, s, rfl, hs, rfl, -⟩ := exists_place_of_sigil hplain h
  refine ⟨s, List.mem_filterMap.mpr ⟨piece, by simp, hs⟩, refersAt_place hsealed hs⟩

/-! ## The numbers of interned scalars -/

/-- Every number is referred to. -/
theorem exists_refersAt (hplain : Plain t) (hsealed : Sealed t)
    (hi : i < (Parameters.internAll .empty t.scalars).size) :
    ∃ before,
      RefersAt (t.write (Parameters.internAll .empty t.scalars).number).toList i before := by
  have hs := List.getElem?_eq_getElem hi
  have hmem := Parameters.mem_internAll.mp (List.mem_of_getElem? hs)
  rw [Parameters.scalars_empty] at hmem
  obtain ⟨piece, hpiece, hscalar⟩ := List.mem_filterMap.mp (hmem.resolve_left List.not_mem_nil)
  obtain ⟨pre, post, ht⟩ := List.append_of_mem hpiece
  refine ⟨_, (refersAt_iff hplain hsealed).mpr ⟨pre, piece, post, _, ht, hscalar, ?_, rfl⟩⟩
  exact Parameters.number_eq hs

/-- Behind the place of a scalar more is written than before it. -/
theorem length_write_lt {pre post : Template} {piece : Piece} (hs : piece.scalar? = some s) :
    (write n pre).toList.length < (write n (pre ++ piece :: post)).toList.length := by
  rw [toList_write_append, write, String.toList_append, Piece.write_of_scalar? hs,
    toList_parameterName]
  simp only [List.length_append, List.length_cons]
  omega

/-- Before a number is referred to, every smaller number has been. -/
theorem refersAt_earlier (hplain : Plain t) (hsealed : Sealed t) (hij : i < j)
    (h : RefersAt (t.write (Parameters.internAll .empty t.scalars).number).toList j before) :
    ∃ earlier, RefersAt (t.write (Parameters.internAll .empty t.scalars).number).toList i earlier ∧
      earlier.length < before.length := by
  obtain ⟨pre, piece, post, s, ht, hs, hj, hbefore⟩ := (refersAt_iff hplain hsealed).mp h
  have hscalars : t.scalars = scalars pre ++ s :: scalars post := by
    rw [ht, scalars_append, scalars_cons, hs]
    rfl
  have hsmem : s ∈ (Parameters.internAll .empty t.scalars).scalars := by
    rw [Parameters.mem_internAll, hscalars]
    exact Or.inr (List.mem_append_right _ List.mem_cons_self)
  have hilt : i < (Parameters.internAll .empty t.scalars).size :=
    Nat.lt_trans (hj ▸ hij) (Parameters.number_lt hsmem)
  -- The scalar with the smaller number was interned first, so its place is in `pre`.
  obtain ⟨x, hx⟩ : ∃ x, (Parameters.internAll .empty t.scalars).scalars[i]? = some x :=
    ⟨_, List.getElem?_eq_getElem hilt⟩
  have hi := Parameters.number_eq hx
  have hmem := Parameters.mem_of_number_lt hscalars (List.mem_of_getElem? hx) (by omega)
  rw [Parameters.scalars_empty] at hmem
  obtain ⟨place, hplace, hscalar⟩ := List.mem_filterMap.mp (hmem.resolve_left List.not_mem_nil)
  obtain ⟨first, second, rfl⟩ := List.append_of_mem hplace
  refine ⟨_, (refersAt_iff hplain hsealed).mpr
    ⟨first, place, second ++ piece :: post, x, ?_, hscalar, hi, rfl⟩, ?_⟩
  · rw [ht, List.append_assoc, List.cons_append]
  · rw [hbefore]
    exact length_write_lt hscalar

end Template

end GraphQuery
