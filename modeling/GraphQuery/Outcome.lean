import GraphQuery.Error

/-!
# Outcomes

A call has a value, or it is refused with an error, or it is abandoned half
way, as when its machine or the far end of its connection gives out.  Whoever
is told of an outcome may go on from a value and from an error, but not from a
call that was abandoned.
-/

namespace GraphQuery

/-- What a call may come to. -/
inductive Outcome (α : Type) where
  | ok (a : α)
  | error (e : Error)
  /-- The call was abandoned half way. -/
  | abandoned

namespace Outcome

/-- The outcome of a call that cannot be abandoned. -/
def ofExcept {α : Type} : Except Error α → Outcome α
  | .ok a => ok a
  | .error e => error e

/-- The outcome with another value. -/
def map {α β : Type} (f : α → β) : Outcome α → Outcome β
  | ok a => ok (f a)
  | error e => error e
  | abandoned => abandoned

end Outcome

end GraphQuery
