import GraphQuery.Toml.Scalar

/-!
# Reading TOML

A document is a list of expressions, each on a line of its own: a value behind
its key, or the header of a table or of one more table in an array.
`Expression.list?` reads them, and `Document.ofExpressions?` puts them
together; a document that defines a thing twice is refused there.

Values are read by `value?`.  Arrays and tables in braces lie at most
`maxNesting` deep, and keys are no longer than that either.
-/

namespace GraphQuery.Toml

open Quoted (isBlank isText)

/-- The largest number of arrays and tables that may be open at once, and of names in a key. -/
def maxNesting : Nat := 79

/-! ## Gaps -/

/-- The characters behind the blanks. -/
def skipBlanks (cs : List Char) : List Char := cs.dropWhile isBlank

/-- The characters behind blanks, line breaks and comments, perhaps from within a comment. A comment
that holds a character that may not stand there ends before it. -/
def skipGaps (inComment : Bool) : List Char → List Char
  | [] => []
  | c :: rest =>
    if c = '\n' then skipGaps false rest
    else if inComment then if isText c then skipGaps true rest else c :: rest
    else if isBlank c then skipGaps false rest
    else if c = '#' then skipGaps true rest
    else c :: rest

/-- The characters of the next line, when blanks and a comment are all that is left of this one. -/
def endLine? (cs : List Char) : Option (List Char) :=
  let behind := match skipBlanks cs with
    | '#' :: rest => rest.dropWhile isText
    | rest => rest
  match behind with
  | [] => some []
  | '\n' :: rest => some rest
  | _ => none

/-! ## Keys -/

/-- The character may stand in a name without quotes. -/
def isBare (c : Char) : Bool := c.isAlphanum || c == '_' || c == '-'

/-- A name in a key, and what follows it. -/
def name? (cs : List Char) : Option (String × List Char) :=
  match cs with
  | '\x22' :: _ | '\x27' :: _ => Quoted.readLine? cs
  | cs =>
    if (cs.takeWhile isBare).isEmpty then none
    else some (.ofList (cs.takeWhile isBare), cs.dropWhile isBare)

/-- So many names with points between them, and what follows them and the blanks behind them. -/
def names? : Nat → List Char → Option (List String × List Char)
  | 0, _ => none
  | fuel + 1, cs =>
    match name? (skipBlanks cs) with
    | none => none
    | some (name, cs) =>
      match skipBlanks cs with
      | '.' :: cs => (names? fuel cs).map fun r => (name :: r.1, r.2)
      | cs => some ([name], cs)

/-- The key whose names were read. -/
def Key.ofNames (names : List String) : Key := ⟨names.dropLast, names.getLast?.getD ""⟩

/-- A key, and what follows it and the blanks behind it. -/
def key? (cs : List Char) : Option (Key × List Char) :=
  (names? maxNesting cs).map fun r => (.ofNames r.1, r.2)

/-! ## Values -/

/-- Reads a value at the front, and says what follows it. -/
abbrev ValueReader := List Char → Option (Value × List Char)

/-- The items of an array up to its end, where every item takes at least one character. -/
def items? (value? : ValueReader) : Nat → List Char → Option (List Value × List Char)
  | 0, _ => none
  | fuel + 1, cs =>
    match skipGaps false cs with
    | ']' :: rest => some ([], rest)
    | cs =>
      match value? cs with
      | none => none
      | some (v, cs) =>
        match skipGaps false cs with
        | ',' :: cs => (items? value? fuel cs).map fun r => (v :: r.1, r.2)
        | ']' :: rest => some ([v], rest)
        | _ => none

/-- A key, the sign behind it, its value, and what follows the value. -/
def assignment? (value? : ValueReader) (cs : List Char) : Option (Key × Value × List Char) :=
  match key? cs with
  | some (key, '=' :: cs) => (value? (skipBlanks cs)).map fun r => (key, r.1, r.2)
  | _ => none

/-- The table that goes on behind its members so far up to the closing brace, where every member
takes at least one character. -/
def members? (value? : ValueReader) : Nat → Table → List Char → Option (Table × List Char)
  | 0, _, _ => none
  | fuel + 1, t, cs =>
    match assignment? value? cs with
    | none => none
    | some (key, v, cs) =>
      match t.insert? key v, skipBlanks cs with
      | some t, ',' :: cs => members? value? fuel t cs
      | some t, '\x7d' :: rest => some (t, rest)
      | _, _ => none

/-- The table in braces behind the opening one. -/
def braces? (value? : ValueReader) (cs : List Char) : Option (Table × List Char) :=
  match skipBlanks cs with
  | '\x7d' :: rest => some ([], rest)
  | cs => members? value? cs.length [] cs

/-- A value in which arrays and tables lie at most so deep, and what follows it. -/
def value? : Nat → ValueReader
  | depth, cs =>
    match cs with
    | '\x22' :: _ | '\x27' :: _ => (Quoted.read? cs).map fun r => (.string r.1, r.2)
    | '[' :: rest =>
      match depth with
      | 0 => none
      | depth + 1 => (items? (value? depth) cs.length rest).map fun r => (.array r.1, r.2)
    | '\x7b' :: rest =>
      match depth with
      | 0 => none
      | depth + 1 => (braces? (value? depth) rest).map fun r => (.table .braces r.1, r.2)
    | cs => Scalar.read? cs

/-! ## Expressions -/

/-- What stands on a line. -/
inductive Expression where
  | assignment (key : Key) (v : Value)
  /-- The header of a table. -/
  | header (key : Key)
  /-- The header of one more table in an array. -/
  | row (key : Key)

namespace Expression

/-- The expression at the front, and what follows it. -/
def read? (cs : List Char) : Option (Expression × List Char) :=
  match cs with
  | '[' :: '[' :: rest =>
    match key? rest with
    | some (key, ']' :: ']' :: rest) => some (.row key, rest)
    | _ => none
  | '[' :: rest =>
    match key? rest with
    | some (key, ']' :: rest) => some (.header key, rest)
    | _ => none
  | cs => (assignment? (value? maxNesting) cs).map fun r => (.assignment r.1 r.2.1, r.2.2)

/-- The expressions of a text, each of which takes at least one character. -/
def list? : Nat → List Char → Option (List Expression)
  | fuel, cs =>
    match skipGaps false cs with
    | [] => some []
    | cs =>
      match fuel with
      | 0 => none
      | fuel + 1 => do
        let (e, cs) ← read? cs
        return e :: (← list? fuel (← endLine? cs))

end Expression

/-! ## Documents -/

/-- A document as far as it was read: all of its tables, and the key of the one that is open. -/
structure Document where
  root : Table
  /-- The names of the open table and of those around it. -/
  current : List String

namespace Document

/-- An empty document, in which the table around all others is open. -/
def empty : Document := ⟨[], []⟩

/-- The document after one more expression. -/
def add? (d : Document) : Expression → Option Document
  | .assignment key v =>
    (Table.descend? false (fun _ t => t.insert? key v) d.current .header d.root).map
      fun root => { d with root }
  | .header key => (d.root.header? key).map fun root => ⟨root, key.path ++ [key.name]⟩
  | .row key => (d.root.row? key).map fun root => ⟨root, key.path ++ [key.name]⟩

/-- The document with the given expressions. -/
def ofExpressions? (es : List Expression) : Option Document := es.foldlM add? empty

/-- The characters with every line break as one character. -/
def unifyBreaks : List Char → List Char
  | '\r' :: '\n' :: rest => '\n' :: unifyBreaks rest
  | c :: rest => c :: unifyBreaks rest
  | [] => []

/-- The characters without a mark of the byte order in front. -/
def dropOrderMark : List Char → List Char
  | '\ufeff' :: rest => rest
  | cs => cs

/-- The table that a text describes. -/
def read? (s : String) : Option Table := do
  let cs := unifyBreaks (dropOrderMark s.toList)
  return (← ofExpressions? (← Expression.list? cs.length cs)).root

end Document

end GraphQuery.Toml
