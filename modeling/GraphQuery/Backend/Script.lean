import GraphQuery.Backend

/-!
# Backends that follow a script

A `Script` is a backend that answers as it was told: every statement has the
same response, unless one of the failures is due that the script names.
-/

namespace GraphQuery

/-- How a scripted backend answers. -/
structure Script where
  /-- The error of every attempt to begin a transaction. -/
  beginError? : Option Error
  /-- The error of every statement. -/
  executeError? : Option Error
  commitError? : Option Error
  discardError? : Option Error
  /-- How many of the next statements fail, and with which error. -/
  upcoming? : Option (Nat × Error)
  /-- The error of every statement whose text contains another text. -/
  textError? : Option (String × Error)
  /-- Every statement is abandoned half way. -/
  abandons : Bool
  response : Response

namespace Script

/-- No failure is due, and the response is empty. -/
def start : Script where
  beginError? := none
  executeError? := none
  commitError? := none
  discardError? := none
  upcoming? := none
  textError? := none
  abandons := false
  response := ⟨"\x7b\"q\":[]\x7d", []⟩

/-- Success, or the error that is due. -/
def due (e? : Option Error) : Except Error Unit :=
  match e? with
  | none => .ok ()
  | some e => .error e

/-- One list of characters stands somewhere in another. -/
def occursIn (part : List Char) : List Char → Bool
  | [] => part.isEmpty
  | c :: rest => part.isPrefixOf (c :: rest) || occursIn part rest

/-- The response, unless the statement contains a text that makes it fail. -/
def respond (s : Script) (text : String) : Outcome Response :=
  match s.textError? with
  | some (part, e) => if occursIn part.toList text.toList then .error e else .ok s.response
  | none => .ok s.response

/-- Execute a statement: the script is abandoned, fails all statements, fails the next ones, fails
those with a certain text, or responds, whichever comes first. -/
def execute (request : Request) (s : Script) : Outcome Response × Script :=
  if s.abandons then (.abandoned, s)
  else
    match s.executeError?, s.upcoming? with
    | some e, _ => (.error e, s)
    | none, some (n + 1, e) => (.error e, { s with upcoming? := some (n, e) })
    | none, _ => (s.respond request.statement.text, s)

/-- The backend that follows its script. -/
def backend : Backend Script where
  begin _ s := (due s.beginError?, s)
  execute _ request s := s.execute request
  commit _ s := (.ofExcept (due s.commitError?), s)
  discard _ s := (due s.discardError?, s)

end Script

end GraphQuery
