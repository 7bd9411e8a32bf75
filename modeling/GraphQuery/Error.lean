/-!
# Reasons for refusal

`Error` lists every reason for which a statement is not compiled, not sent
or not buffered.  `Error.message` is the sentence shown to the caller and
`Error.code` the short word by which programs tell the reasons apart.
`Error.isCompileError` separates what is wrong with a statement from what
went wrong while it was carried out.

A `Verdict` is the outcome of a check: nothing, or the error that was found.
-/

namespace GraphQuery

/-- Why a request was refused. -/
inductive Error where
  /-- The function has no name, or the query has no root function. -/
  | missingFunction
  /-- The function was called without arguments. -/
  | missingArguments (function : String)
  /-- The arguments do not have the kinds that the function asks for. -/
  | arityMismatch (function expected : String) (got : Nat)
  /-- The text is no node identifier. -/
  | invalidIdentifier (text : String)
  /-- The text is no predicate name. -/
  | invalidPredicate (text : String)
  /-- A selected field has the empty name. -/
  | missingFieldName
  /-- A mutation has no payload. -/
  | emptyMutation
  /-- A mutation has payloads to set and payloads to delete. -/
  | mixedMutation
  /-- A value could not be written as JSON or read from it. -/
  | serialization (detail : String)
  /-- A request that makes no sense where it was made. -/
  | invalidArgument (detail : String)
  /-- The backend failed. -/
  | transport (detail : String)
  /-- The caller cancelled, or the deadline passed. -/
  | cancelled
  /-- The pool of buffered mutations was shut down. -/
  | poolClosed
  /-- The operating system refused an input or output request. -/
  | inputOutput (detail : String)
  deriving DecidableEq

namespace Error

/-- The sentence shown to the caller. -/
def message : Error → String
  | missingFunction => "function kind is missing"
  | missingArguments function => "function '" ++ function ++ "' was given no arguments"
  | arityMismatch function expected got =>
    "function '" ++ function ++ "' expects " ++ expected ++ " (got " ++ toString got
      ++ " arguments)"
  | invalidIdentifier text => "invalid node identifier '" ++ text ++ "'"
  | invalidPredicate text => "invalid predicate name '" ++ text ++ "'"
  | missingFieldName => "field name cannot be empty"
  | emptyMutation => "mutation requires at least one payload"
  | mixedMutation => "set and delete payloads cannot share one mutation"
  | serialization detail => "serialization error: " ++ detail
  | invalidArgument detail => "invalid argument: " ++ detail
  | transport detail => "transport: " ++ detail
  | cancelled => "operation cancelled before completion"
  | poolClosed => "mutation pipeline is shut down"
  | inputOutput detail => "I/O error: " ++ detail

/-- The word by which programs tell the reasons apart. -/
def code : Error → String
  | missingFunction => "MissingFunction"
  | missingArguments _ => "MissingVariables"
  | arityMismatch _ _ _ => "ArityMismatch"
  | invalidIdentifier _ => "InvalidIdentifier"
  | invalidPredicate _ => "InvalidPredicate"
  | missingFieldName => "MissingFieldName"
  | emptyMutation => "EmptyMutation"
  | mixedMutation => "MixedMutation"
  | serialization _ => "Serialization"
  | invalidArgument _ => "InvalidArgument"
  | transport _ => "TransportFailure"
  | cancelled => "Cancelled"
  | poolClosed => "PipelineClosed"
  | inputOutput _ => "Io"

/-- The statement itself is at fault, whatever the backend would have said. -/
def isCompileError : Error → Bool
  | transport _ | cancelled | poolClosed | inputOutput _ => false
  | _ => true

end Error

/-- The outcome of a check that yields nothing but its verdict. -/
abbrev Verdict := Except Error Unit

/-- Accept when the condition holds, else refuse with the given error. -/
def Verdict.ofBool (ok : Bool) (e : Error) : Verdict :=
  if ok then .ok () else .error e

@[simp] theorem Verdict.ofBool_eq_ok_iff {ok : Bool} {e : Error} :
    Verdict.ofBool ok e = .ok () ↔ ok = true := by
  cases ok <;> simp [Verdict.ofBool]

@[simp] theorem Verdict.ofBool_eq_error_iff {ok : Bool} {e e' : Error} :
    Verdict.ofBool ok e = .error e' ↔ ok = false ∧ e = e' := by
  cases ok <;> simp [Verdict.ofBool]

/-- What follows a check is done if it succeeds. -/
theorem Verdict.ofBool_bind {α : Type} {ok : Bool} {e : Error} {next : Except Error α} :
    (Verdict.ofBool ok e).bind (fun _ => next) = if ok then next else .error e := by
  cases ok <;> rfl

end GraphQuery
