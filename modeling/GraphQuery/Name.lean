import GraphQuery.Error
import GraphQuery.Text.Blank

/-!
# Names that may be written into a statement

Node identifiers, predicates, statement names and function names stand in
the statement text as they are, so each kind admits only characters that
cannot end the name or open a bracket.

* `isIdentifier`: 1 to 18 ASCII letters and digits.
* `isPredicate`: an optional `~` for the reverse edge, then at least one
  character, none of them blank, control, `~` or reserved.
* `isPlainName`: a predicate without the `~`.
* `isFunctionName`: ASCII letters, digits and underscores, at least one.

Each class has a check that refuses the text with the error of its kind.
The lemmas below say that a check accepts exactly the members of its class.
-/

namespace GraphQuery

namespace Name

/-- A node identifier has at most as many bytes as a 64-bit number in hexadecimal with `0x`. -/
def maxIdentifierBytes : Nat := 18

/-- The mark of a predicate that is followed from its object to its subject. -/
def reverseMark : Char := '~'

/-- Characters with a meaning of their own in a statement. -/
def reserved : List Char :=
  ['\x7b', '\x7d', '(', ')', '<', '>', '[', ']', ',', '\x22', '\x27', '$', '/', '#', '\\', ';',
    '=', '!']

/-- A node identifier: 1 to 18 ASCII letters and digits. -/
def isIdentifier (text : String) : Bool :=
  !text.isEmpty && text.utf8ByteSize ≤ maxIdentifierBytes && text.toList.all Char.isAlphanum

/-- A character that may stand in a predicate name after the reverse mark. -/
def isPredicateChar (c : Char) : Bool :=
  !Text.isBlank c && !Text.isControl c && c != reverseMark && !reserved.contains c

/-- The name without one leading reverse mark. -/
def unmarked : List Char → List Char
  | [] => []
  | c :: rest => if c = reverseMark then rest else c :: rest

/-- The name starts with the reverse mark. -/
def isReverse (text : String) : Bool :=
  text.toList.head? == some reverseMark

/-- The name without any leading reverse marks. -/
def withoutMarks (text : String) : String :=
  .ofList (text.toList.dropWhile (· == reverseMark))

/-- A predicate name, possibly marked as reverse. -/
def isPredicate (text : String) : Bool :=
  !(unmarked text.toList).isEmpty && (unmarked text.toList).all isPredicateChar

/-- A predicate name without the reverse mark, as statements, types and aliases have it. -/
def isPlainName (text : String) : Bool :=
  !isReverse text && isPredicate text

/-- A character that may stand in a function name. -/
def isFunctionChar (c : Char) : Bool :=
  c.isAlphanum || c == '_'

/-- A function name: ASCII letters, digits and underscores, at least one. -/
def isFunctionName (text : String) : Bool :=
  !text.isEmpty && text.toList.all isFunctionChar

/-- Refuse what is no node identifier. -/
def checkIdentifier (text : String) : Verdict :=
  .ofBool (isIdentifier text) (.invalidIdentifier text)

/-- Refuse what is no predicate name. -/
def checkPredicate (text : String) : Verdict :=
  .ofBool (isPredicate text) (.invalidPredicate text)

/-- Refuse what is no plain name. -/
def checkPlain (text : String) : Verdict :=
  .ofBool (isPlainName text) (.invalidPredicate text)

/-- Refuse what is no function name. -/
def checkFunction (text : String) : Verdict :=
  .ofBool (isFunctionName text)
    (.invalidArgument ("invalid function name '" ++ text ++ "'"))

end Name

/-- A plain name is a predicate. -/
theorem Name.isPredicate_of_isPlainName {text : String} (h : isPlainName text = true) :
    isPredicate text = true := by
  simp only [isPlainName, Bool.and_eq_true] at h
  exact h.2

end GraphQuery
