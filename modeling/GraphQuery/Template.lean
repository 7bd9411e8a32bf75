import GraphQuery.Parameters

/-!
# Statement text with places for values

A `Template` is the text of a statement before its parameters have numbers:
a list of pieces, which are literal text, places for values, and demands.
`Template.fill` goes through the pieces from left to right, registers each
value among the parameters and writes the reference to it in its place.  A
demand writes nothing; the filling ends with its error when it is not met.

The parameters that were registered before an error are kept, so the result
of `fill` is an outcome together with the parameters.
-/

namespace GraphQuery

/-- A piece of a template. -/
inductive Piece where
  /-- Text that is written as it stands. -/
  | text (s : String)
  /-- A value that is written as a function argument. -/
  | argument (v : Value)
  /-- A value that is written without quotes or brackets. -/
  | bare (v : Value)
  /-- A condition without which there is no statement. -/
  | demand (check : Verdict)

/-- Statement text with places for values. -/
abbrev Template := List Piece

/-- The text of one piece, and the parameters with its value among them. -/
def Piece.fill (p : Parameters) : Piece → Except Error (String × Parameters)
  | text s => .ok (s, p)
  | argument v => (p.register v).map fun r => (r.1.argument, r.2)
  | bare v => (p.register v).map fun r => (r.1.token, r.2)
  | demand check => check.map fun _ => ("", p)

namespace Template

/-- The text of a template, or the first error, and the parameters that were registered. -/
def fill (p : Parameters) : Template → Except Error String × Parameters
  | [] => (.ok "", p)
  | piece :: rest =>
    match piece.fill p with
    | .error e => (.error e, p)
    | .ok (s, p') => ((fill p' rest).1.map (s ++ ·), (fill p' rest).2)

/-- The templates one after the other with the given text between two of them. -/
def join (between : String) : List Template → Template
  | [] => []
  | [t] => t
  | t :: rest => t ++ .text between :: join between rest

/-- The template in parentheses. -/
def parenthesized (t : Template) : Template :=
  .text "(" :: t ++ [.text ")"]

/-- The texts of several templates that share their parameters. -/
def fillAll (p : Parameters) : List Template → Except Error (List String) × Parameters
  | [] => (.ok [], p)
  | t :: rest =>
    match fill p t with
    | (.error e, p') => (.error e, p')
    | (.ok s, p') => ((fillAll p' rest).1.map (s :: ·), (fillAll p' rest).2)

end Template

end GraphQuery
