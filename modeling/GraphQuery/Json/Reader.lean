import GraphQuery.Json.Token

/-!
# Reading JSON

`Json.read?` reads a document from its tokens, one after the other.  The
arrays and objects that are open at a token are kept on a stack; what may
come next is the `Position`.  A document is read when the tokens end, nothing
is open and a value has been completed.

A reader may have a limit to the number of arrays and objects that are open at
once.  Documents are read with the limit `maxNesting`.
-/

namespace GraphQuery.Json

/-- The largest number of arrays and objects that may be open at once. -/
def maxNesting : Nat := 127

/-- An array or object whose next value is being read, with what came before it in reverse order. -/
inductive Frame where
  | array (before : List Json)
  | object (before : List (String × Json)) (key : String)

/-- What may come next. -/
inductive Position where
  /-- A value. -/
  | value
  /-- The first item of an array, or its end. -/
  | firstItem
  /-- The first key of an object, or its end. -/
  | firstKey
  /-- A key, after the given members in reverse order. -/
  | key (before : List (String × Json))
  /-- The colon behind a key. -/
  | colon (before : List (String × Json)) (key : String)
  /-- What follows a complete value. -/
  | complete (value : Json)

/-- The state of reading. -/
structure Reader where
  /-- The largest number of arrays and objects that may be open at once, if there is one. -/
  limit? : Option Nat
  stack : List Frame
  position : Position

namespace Reader

/-- Nothing has been read. -/
def start (limit? : Option Nat) : Reader := ⟨limit?, [], .value⟩

/-- The reader at another position, with other arrays and objects open. -/
def goTo (r : Reader) (stack : List Frame) (position : Position) : Reader :=
  { r with stack, position }

/-- One more array or object may be open. -/
def hasRoom (r : Reader) (stack : List Frame) : Bool := r.limit?.all (stack.length < ·)

/-- A token that begins a value. -/
def begin? (r : Reader) (stack : List Frame) : Token → Option Reader
  | .string s => some (r.goTo stack (.complete (.string s)))
  | .atom v => some (r.goTo stack (.complete v))
  | .openArray => if r.hasRoom stack then some (r.goTo stack .firstItem) else none
  | .openObject => if r.hasRoom stack then some (r.goTo stack .firstKey) else none
  | _ => none

/-- The state after one more token. -/
def step? (r : Reader) (t : Token) : Option Reader :=
  match r.position, t with
  | .value, t => r.begin? r.stack t
  | .firstItem, .closeArray => some (r.goTo r.stack (.complete (.array [])))
  | .firstItem, t => r.begin? (.array [] :: r.stack) t
  | .firstKey, .closeObject => some (r.goTo r.stack (.complete (.object [])))
  | .firstKey, .string k => some (r.goTo r.stack (.colon [] k))
  | .key before, .string k => some (r.goTo r.stack (.colon before k))
  | .colon before k, .colon => some (r.goTo (.object before k :: r.stack) .value)
  | .complete v, t =>
    match r.stack, t with
    | .array before :: stack, .comma => some (r.goTo (.array (v :: before) :: stack) .value)
    | .array before :: stack, .closeArray =>
      some (r.goTo stack (.complete (.array (v :: before).reverse)))
    | .object before k :: stack, .comma => some (r.goTo stack (.key ((k, v) :: before)))
    | .object before k :: stack, .closeObject =>
      some (r.goTo stack (.complete (.object ((k, v) :: before).reverse)))
    | _, _ => none
  | _, _ => none

/-- The document, if it is complete. -/
def finish? (r : Reader) : Option Json :=
  match r.stack, r.position with
  | [], .complete v => some v
  | _, _ => none

end Reader

/-- The document with the given tokens. -/
def ofTokens? (ts : List Token) : Option Json := do
  (← ts.foldlM Reader.step? (Reader.start maxNesting)).finish?

/-- The document with the given text, as it is written. -/
def read? (s : String) : Option Json := do
  ofTokens? (← Token.scan? s.toList)

/-- The value of the document with the given text. -/
def parse? (s : String) : Option Json :=
  (read? s).map canonical

/-- The document whose text has the given bytes, as it is written. -/
def ofBytes? (bytes : List UInt8) : Option Json :=
  String.fromUTF8? ⟨bytes.toArray⟩ >>= read?

/-- The value of the document whose text has the given bytes, as the body of a response is decoded
into any JSON. -/
def decode? (bytes : List UInt8) : Option Json :=
  (ofBytes? bytes).map canonical

end GraphQuery.Json
