import GraphQuery.Error

/-!
# Faults of documents

A fault says what is wrong with a document and where, by line and column.  A
fault on line zero has no place.

A message that ends with a place is a fault at that place: `Fault.ofMessage`
looks for the last place in it, which has to be all of its end, and takes the
numbers in it at their value.
-/

namespace GraphQuery.Json

/-- What is wrong with a document, and where. -/
structure Fault where
  detail : String
  line : Nat
  column : Nat
  deriving DecidableEq

namespace Fault

/-- What stands in front of a line number. -/
def lineWord : String := " at line "

/-- What stands in front of a column number. -/
def columnWord : String := " column "

/-- The fault in words. -/
def message (f : Fault) : String :=
  if f.line = 0 then f.detail
  else f.detail ++ lineWord ++ toString f.line ++ columnWord ++ toString f.column

/-- The fault as the refusal of a payload. -/
def error (f : Fault) : Error := .serialization f.message

/-- The text without the given one in front. -/
def after? (front cs : List Char) : Option (List Char) :=
  if front.isPrefixOf cs then some (cs.drop front.length) else none

/-- The last place where a text stands in another: what is in front of it, and what behind. -/
def splitLast? (part : List Char) : List Char → Option (List Char × List Char)
  | [] => (after? part []).map ([], ·)
  | c :: cs =>
    match splitLast? part cs with
    | some r => some (c :: r.1, r.2)
    | none => (after? part (c :: cs)).map ([], ·)

/-- The number with the given digits, of which there is at least one, if it has 64 bits. -/
def number? (digits : List Char) : Option Nat :=
  let n := digits.foldl (fun n c => n * 10 + (c.toNat - '0'.toNat)) 0
  if digits.isEmpty || UInt64.size ≤ n then none else some n

/-- The line and the column of a text that holds nothing else. -/
def place? (cs : List Char) : Option (Nat × Nat) := do
  let column ← after? columnWord.toList (cs.dropWhile Char.isDigit)
  if column.all Char.isDigit then
    return (← number? (cs.takeWhile Char.isDigit), ← number? column)
  else none

/-- The fault that a message tells of. -/
def ofMessage (message : String) : Fault :=
  match splitLast? lineWord.toList message.toList with
  | none => ⟨message, 0, 0⟩
  | some (detail, rest) =>
    match place? rest with
    | some (line, column) => ⟨.ofList detail, line, column⟩
    | none => ⟨message, 0, 0⟩

end Fault

end GraphQuery.Json
