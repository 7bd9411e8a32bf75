import GraphQuery.Json.Basic

/-!
# JSON tokens

`Token.scan?` splits the text of a document into tokens.  Blanks between
tokens are skipped.  A number takes all characters that may stand in numbers,
and a word all letters, so that two of them never touch.
-/

namespace GraphQuery.Json

/-- The smallest parts of a document. -/
inductive Token where
  | openArray
  | closeArray
  | openObject
  | closeObject
  | comma
  | colon
  | string (s : String)
  /-- A value that is neither a string nor made of others. -/
  | atom (value : Json)

namespace Token

/-- The characters that may stand between tokens. -/
def isBlank (c : Char) : Bool :=
  c == ' ' || c == '\t' || c == '\n' || c == '\r'

/-- The characters that may stand in a number. -/
def isNumberChar (c : Char) : Bool :=
  c.isDigit || c == '-' || c == '+' || c == '.' || c == 'e' || c == 'E'

/-- The tokens of one character. -/
def punctuation? (c : Char) : Option Token :=
  if c = '[' then some openArray
  else if c = ']' then some closeArray
  else if c = '\x7b' then some openObject
  else if c = '\x7d' then some closeObject
  else if c = ',' then some comma
  else if c = ':' then some colon
  else none

/-- The values that have a word. -/
def word? (cs : List Char) : Option Json :=
  if cs = "null".toList then some null
  else if cs = "true".toList then some (bool true)
  else if cs = "false".toList then some (bool false)
  else none

/-- The token that begins with the character, and what follows it. -/
def next? (c : Char) (rest : List Char) : Option (Token × List Char) :=
  match punctuation? c with
  | some t => some (t, rest)
  | none =>
    if c = Quoted.quote then
      (Quoted.decode? rest).map fun r => (string (.ofList r.1), r.2)
    else if c.isDigit ∨ c = '-' then
      (Number.ofChars? (c :: rest.takeWhile isNumberChar)).map fun n =>
        (atom (number n), rest.dropWhile isNumberChar)
    else
      (word? (c :: rest.takeWhile Char.isAlpha)).map fun v =>
        (atom v, rest.dropWhile Char.isAlpha)

/-- The tokens of a text. Each takes at least one character, so the length of the text bounds
their number. -/
def scan? (cs : List Char) : Option (List Token) :=
  go cs.length cs
where
  /-- The tokens of a text of at most `fuel` characters. -/
  go : Nat → List Char → Option (List Token)
    | _, [] => some []
    | 0, _ :: _ => none
    | fuel + 1, c :: rest =>
      if isBlank c then go fuel rest
      else do
        let (t, rest) ← next? c rest
        return t :: (← go fuel rest)

end Token

end GraphQuery.Json
