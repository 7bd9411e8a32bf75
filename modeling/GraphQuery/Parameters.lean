import GraphQuery.Value

/-!
# The parameters of a statement

`Parameters` is the list of scalars that a statement refers to, in the order
of their first use and without repetition.  The scalar at index `i` goes by
the name `$p` followed by `i`.

`Parameters.register` turns a value into the `Binding` by which the statement
refers to it.  A scalar takes the index that it has, or the next free one; a
name stands for itself and leaves the list alone.
-/

namespace GraphQuery

/-- The scalars of a statement, each once, in order of first use. -/
structure Parameters where
  scalars : List Scalar
  nodup : scalars.Nodup

/-- How a statement refers to a value. -/
inductive Binding where
  /-- The parameter with this index. -/
  | parameter (index : Nat)
  /-- The node identifier itself. -/
  | uid (text : String)
  /-- The predicate itself. -/
  | predicate (name : String)
  deriving DecidableEq

/-- The name of the parameter with the given index. -/
def parameterName (index : Nat) : String :=
  "$p" ++ toString index

namespace Binding

/-- The reference as a function argument: identifiers are quoted and predicates bracketed. -/
def argument : Binding → String
  | parameter index => parameterName index
  | uid text => "\"" ++ text ++ "\""
  | predicate name => "<" ++ name ++ ">"

/-- The reference without quotes or brackets. -/
def token : Binding → String
  | parameter index => parameterName index
  | uid text => text
  | predicate name => name

end Binding

namespace Parameters

/-- No parameters. -/
def empty : Parameters := ⟨[], .nil⟩

/-- The number of parameters. -/
def size (p : Parameters) : Nat := p.scalars.length

/-- There are no parameters. -/
def isEmpty (p : Parameters) : Bool := p.scalars.isEmpty

/-- The index of a scalar, and the parameters with it among them. -/
def intern (p : Parameters) (s : Scalar) : Nat × Parameters :=
  if h : s ∈ p.scalars then
    (p.scalars.idxOf s, p)
  else
    (p.scalars.length, ⟨p.scalars ++ [s],
      List.nodup_append.mpr ⟨p.nodup, by simp, fun a ha b hb hab =>
        h (List.mem_singleton.mp hb ▸ hab ▸ ha)⟩⟩)

/-- The binding of a value, and the parameters with its scalar among them. -/
def register (p : Parameters) : Value → Except Error (Binding × Parameters)
  | .scalar s => .ok (.parameter (p.intern s).1, (p.intern s).2)
  | .uid text => (Name.checkIdentifier text).map fun _ => (.uid text, p)
  | .predicate name => (Name.checkPredicate name).map fun _ => (.predicate name, p)

/-- The parameters with their indices, in order of first use. -/
def entries (p : Parameters) : List (Nat × Scalar) :=
  (List.range p.scalars.length).zip p.scalars

/-- The declarations in the header of a statement. -/
def declarations (p : Parameters) : String :=
  ", ".intercalate (p.entries.map fun e => parameterName e.1 ++ ": " ++ e.2.typeName)

/-- The name and the text of every parameter, sorted by name as text. -/
def bindings (p : Parameters) : List (String × String) :=
  (p.entries.map fun e => (parameterName e.1, e.2.text)).mergeSort fun a b => a.1 ≤ b.1

end Parameters

/-- Two lists of parameters with the same scalars are the same. -/
@[ext] theorem Parameters.ext {p q : Parameters} (h : p.scalars = q.scalars) : p = q := by
  cases p
  cases q
  simp_all

namespace Parameters

variable {p : Parameters} {s : Scalar}

@[simp] theorem scalars_empty : empty.scalars = [] := rfl

/-- A scalar that is there keeps its index, and nothing is added. -/
theorem intern_of_mem (h : s ∈ p.scalars) : p.intern s = (p.scalars.idxOf s, p) := by
  simp [intern, h]

/-- A scalar that is not there is added at the end. -/
theorem scalars_intern_of_not_mem (h : s ∉ p.scalars) :
    (p.intern s).2.scalars = p.scalars ++ [s] := by
  simp [intern, h]

/-- Interning only ever adds at the end. -/
theorem scalars_prefix_intern : p.scalars <+: (p.intern s).2.scalars := by
  by_cases h : s ∈ p.scalars
  · simp [intern_of_mem h]
  · simp [scalars_intern_of_not_mem h]

/-- An interned scalar is found at its index. -/
theorem getElem?_intern : (p.intern s).2.scalars[(p.intern s).1]? = some s := by
  by_cases h : s ∈ p.scalars
  · rw [intern_of_mem h]
    simp [List.getElem?_eq_getElem (List.idxOf_lt_length_of_mem h)]
  · simp [intern, h]

end Parameters

end GraphQuery
