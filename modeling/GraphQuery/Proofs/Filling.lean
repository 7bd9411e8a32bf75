import GraphQuery.Proofs.Interning
import GraphQuery.Template
import Mathlib.Tactic.SimpRw

/-!
# What filling a template yields

`Template.fill` threads the parameters through a template from left to right.
This module says what comes out without any threading.

* `Template.verdict` is the first error among the pieces.  It does not look
  at the parameters, so neither does the success of a filling.
* `Template.scalars` lists the scalars of a template in the order of their
  places.  The parameters in the end are those at the start with these
  interned.
* `Template.write` is the text for given numbers of the scalars.

`fill_eq` puts the three together: a filling writes the template with the
numbers that the scalars have in the end, because a number that a scalar got
early is kept.  Everything later on about statements speaks about `verdict`,
`scalars` and `write` only.
-/

namespace GraphQuery

/-- Two checks in turn accept exactly when both do. -/
@[simp] theorem Verdict.bind_eq_ok_iff {a : Verdict} {b : Unit → Verdict} :
    (a >>= b) = .ok () ↔ a = .ok () ∧ b () = .ok () := by
  cases a with
  | error e => simp [bind, Except.bind]
  | ok u => simp [bind, Except.bind]

/-- The scalar that a value is, if it is one. -/
def Value.scalar? : Value → Option Scalar
  | .scalar s => some s
  | _ => none

/-- The reference to a value when the scalars have the given numbers. -/
def Value.binding (number : Scalar → Nat) : Value → Binding
  | .scalar s => .parameter (number s)
  | .uid text => .uid text
  | .predicate name => .predicate name

/-- Registering a value interns its scalar and yields the reference under the new numbers. -/
theorem Parameters.register_eq (p : Parameters) (v : Value) :
    p.register v = v.check.map fun _ =>
      (v.binding (p.internAll v.scalar?.toList).number, p.internAll v.scalar?.toList) := by
  cases v with
  | scalar s =>
    rw [register, intern_fst]
    rfl
  | uid text => rfl
  | predicate name => rfl

/-! ## Pieces -/

namespace Piece

/-- The error of a piece that cannot be written. -/
def verdict : Piece → Verdict
  | text _ => .ok ()
  | argument v | bare v => v.check
  | demand check => check

/-- The scalar whose place the piece is. -/
def scalar? : Piece → Option Scalar
  | argument v | bare v => v.scalar?
  | text _ | demand _ => none

/-- The text of a piece when the scalars have the given numbers. -/
def write (number : Scalar → Nat) : Piece → String
  | text s => s
  | argument v => (v.binding number).argument
  | bare v => (v.binding number).token
  | demand _ => ""

/-- The text of the place of a scalar is the name of its parameter. -/
theorem write_of_scalar? {piece : Piece} {s : Scalar} {number : Scalar → Nat}
    (h : piece.scalar? = some s) : piece.write number = parameterName (number s) := by
  cases piece with
  | text _ | demand _ => cases h
  | argument v | bare v =>
    cases v with
    | scalar _ =>
      cases h
      rfl
    | uid _ | predicate _ => cases h

/-- The text of any other piece does not depend on the numbers. -/
theorem write_congr_of_none {piece : Piece} {n m : Scalar → Nat} (h : piece.scalar? = none) :
    piece.write n = piece.write m := by
  cases piece with
  | text _ | demand _ => rfl
  | argument v | bare v =>
    cases v with
    | scalar _ => cases h
    | uid _ | predicate _ => rfl

/-- The text of a piece depends on the number of its own scalar only. -/
theorem write_congr {piece : Piece} {n m : Scalar → Nat}
    (h : ∀ s ∈ piece.scalar?, n s = m s) : piece.write n = piece.write m := by
  cases hs : piece.scalar? with
  | none => exact write_congr_of_none hs
  | some s => rw [write_of_scalar? hs, write_of_scalar? hs, h s hs]

theorem fill_eq (piece : Piece) (p : Parameters) :
    piece.fill p = piece.verdict.map fun _ =>
      (piece.write (p.internAll piece.scalar?.toList).number,
        p.internAll piece.scalar?.toList) := by
  cases piece with
  | text _ | demand _ => rfl
  | argument v | bare v =>
    rw [fill, verdict, Parameters.register_eq]
    cases v.check with
    | error e => rfl
    | ok u => rfl

end Piece

/-! ## Templates -/

namespace Template

variable {t u : Template} {piece : Piece} {n m : Scalar → Nat} {p : Parameters}

/-- The first error among the pieces. -/
def verdict : Template → Verdict
  | [] => .ok ()
  | piece :: rest => do
    piece.verdict
    verdict rest

/-- The scalars in the order of their places. -/
def scalars (t : Template) : List Scalar :=
  t.filterMap Piece.scalar?

/-- The text when the scalars have the given numbers. -/
def write (number : Scalar → Nat) : Template → String
  | [] => ""
  | piece :: rest => piece.write number ++ write number rest

@[simp] theorem verdict_nil : verdict [] = .ok () := rfl

theorem verdict_cons : verdict (piece :: t) = piece.verdict >>= fun _ => verdict t := rfl

/-- A template can be written when all its pieces can. -/
theorem verdict_eq_ok_iff : t.verdict = .ok () ↔ ∀ piece ∈ t, piece.verdict = .ok () := by
  induction t with
  | nil => simp
  | cons piece t ih => simp [verdict_cons, ih]

@[simp] theorem verdict_append_eq_ok_iff :
    verdict (t ++ u) = .ok () ↔ t.verdict = .ok () ∧ u.verdict = .ok () := by
  simp only [verdict_eq_ok_iff, List.mem_append, or_imp, forall_and]

@[simp] theorem verdict_text_cons {s : String} : verdict (.text s :: t) = t.verdict := rfl

@[simp] theorem verdict_demand_cons_eq_ok_iff {check : Verdict} :
    verdict (.demand check :: t) = .ok () ↔ check = .ok () ∧ t.verdict = .ok () := by
  simp [verdict_cons, Piece.verdict]

@[simp] theorem verdict_argument_cons_eq_ok_iff {v : Value} :
    verdict (.argument v :: t) = .ok () ↔ v.check = .ok () ∧ t.verdict = .ok () := by
  simp [verdict_cons, Piece.verdict]

@[simp] theorem verdict_bare_cons_eq_ok_iff {v : Value} :
    verdict (.bare v :: t) = .ok () ↔ v.check = .ok () ∧ t.verdict = .ok () := by
  simp [verdict_cons, Piece.verdict]

@[simp] theorem scalars_append : scalars (t ++ u) = t.scalars ++ u.scalars :=
  List.filterMap_append

@[simp] theorem write_append : write n (t ++ u) = t.write n ++ u.write n := by
  induction t with
  | nil => simp [write]
  | cons piece t ih => simp [write, ih, String.append_assoc]

/-- The text depends on the numbers of the template's own scalars only. -/
theorem write_congr (h : ∀ s ∈ t.scalars, n s = m s) : t.write n = t.write m := by
  induction t with
  | nil => rfl
  | cons piece t ih =>
    have hpiece : piece.write n = piece.write m := by
      apply Piece.write_congr
      intro s hs
      exact h s (List.mem_filterMap.mpr ⟨piece, List.mem_cons_self, hs⟩)
    have ht : write n t = write m t := by
      apply ih
      intro s hs
      obtain ⟨other, hother, heq⟩ := List.mem_filterMap.mp hs
      exact h s (List.mem_filterMap.mpr ⟨other, List.mem_cons_of_mem piece hother, heq⟩)
    rw [write, write, hpiece, ht]

theorem scalars_cons : scalars (piece :: t) = piece.scalar?.toList ++ t.scalars := by
  cases h : piece.scalar? with
  | none => simp [scalars, h]
  | some s => simp [scalars, h]

/-! ## Filling -/

/-- The text that a filling yields, or its first error. -/
theorem fill_fst (t : Template) (p : Parameters) :
    (t.fill p).1 = t.verdict.map fun _ => t.write (p.internAll t.scalars).number := by
  induction t generalizing p with
  | nil => rfl
  | cons piece t ih =>
    rw [fill, Piece.fill_eq, verdict_cons]
    cases hpiece : piece.verdict with
    | error e => rfl
    | ok u =>
      have hmap : (fill (p.internAll piece.scalar?.toList) t).1 = (verdict t).map fun _ =>
          write (p.internAll (scalars (piece :: t))).number t := by
        rw [ih, scalars_cons, Parameters.internAll_append]
      -- The number that the piece was written with is the one that its scalar keeps.
      have hwrite : piece.write (p.internAll piece.scalar?.toList).number =
          piece.write (p.internAll (scalars (piece :: t))).number := by
        apply Piece.write_congr
        intro s hs
        rw [scalars_cons, Parameters.internAll_append]
        exact (Parameters.number_internAll_of_mem
          (Parameters.mem_internAll.mpr (Or.inr (Option.mem_toList.mpr hs)))).symm
      show (fill (p.internAll piece.scalar?.toList) t).1.map _ = (verdict t).map _
      rw [hmap, hwrite]
      cases verdict t with
      | error e => rfl
      | ok u => rfl

/-- The parameters after a filling that yields a text. -/
theorem fill_snd (h : t.verdict = .ok ()) : (t.fill p).2 = p.internAll t.scalars := by
  induction t generalizing p with
  | nil => rfl
  | cons piece t ih =>
    obtain ⟨hpiece, ht⟩ := Verdict.bind_eq_ok_iff.mp (verdict_cons ▸ h)
    rw [fill, Piece.fill_eq, hpiece, scalars_cons, Parameters.internAll_append]
    exact ih ht

/-- A template whose pieces can all be written is filled with the final numbers. -/
theorem fill_eq (h : t.verdict = .ok ()) :
    t.fill p = (.ok (t.write (p.internAll t.scalars).number), p.internAll t.scalars) := by
  apply Prod.ext
  · rw [fill_fst, h]
    rfl
  · exact fill_snd h

/-! ## Joined templates -/

variable {ts : List Template} {between : String}

/-- A piece of joined templates stands between two of them or in one of them. -/
theorem mem_join (h : piece ∈ join between ts) :
    piece = .text between ∨ ∃ t ∈ ts, piece ∈ t := by
  induction ts with
  | nil => simp [join] at h
  | cons t ts ih =>
    cases ts with
    | nil => exact Or.inr ⟨t, List.mem_cons_self, by simpa [join] using h⟩
    | cons t' ts =>
      rw [join, List.mem_append, List.mem_cons] at h
      · rcases h with h | h | h
        · exact Or.inr ⟨t, List.mem_cons_self, h⟩
        · exact Or.inl h
        · rcases ih h with h | ⟨t'', ht'', hpiece⟩
          · exact Or.inl h
          · exact Or.inr ⟨t'', List.mem_cons_of_mem t ht'', hpiece⟩
      · simp

@[simp] theorem verdict_join_eq_ok_iff :
    (join between ts).verdict = .ok () ↔ ∀ t ∈ ts, t.verdict = .ok () := by
  induction ts with
  | nil => simp [join]
  | cons t ts ih =>
    cases ts with
    | nil => simp [join]
    | cons t' ts => simp [join, ih]

@[simp] theorem scalars_join : (join between ts).scalars = ts.flatMap scalars := by
  induction ts with
  | nil => rfl
  | cons t ts ih =>
    cases ts with
    | nil => simp [join]
    | cons t' ts =>
      rw [join, scalars_append, scalars_cons, ih]
      · rfl
      · simp

/-- The text of joined templates is the joined texts. -/
theorem write_join : (join between ts).write n = between.intercalate (ts.map (write n)) := by
  induction ts with
  | nil => rfl
  | cons t ts ih =>
    cases ts with
    | nil => simp [join]
    | cons t' ts =>
      rw [join, write_append, write, ih]
      · simp [Piece.write, String.append_assoc]
      · simp

@[simp] theorem verdict_parenthesized_eq_ok_iff :
    t.parenthesized.verdict = .ok () ↔ t.verdict = .ok () := by
  simp [parenthesized]

@[simp] theorem verdict_flatMap_eq_ok_iff {α : Type} {xs : List α} {f : α → Template} :
    verdict (xs.flatMap f) = .ok () ↔ ∀ x ∈ xs, (f x).verdict = .ok () := by
  induction xs with
  | nil => simp
  | cons x xs ih => simp [ih]

end Template

end GraphQuery
