import GraphQuery.Template

/-!
# Directives

A directive stands behind the arguments of a root block and says how its
selection is evaluated.
-/

namespace GraphQuery

/-- How the selection of a root block is evaluated. -/
inductive Directive where
  /-- Leave out nodes that lack one of the predicates, or any selected one if none is named. -/
  | cascade (predicates : List String)
  /-- Return only aliased fields, flattened. -/
  | normalize
  /-- Leave out a node that is reached from itself. -/
  | ignoreReflex
  /-- Repeat the selection on the nodes that it reaches. -/
  | recurse (depth? : Option UInt32) (allowLoop : Bool)
  deriving DecidableEq

namespace Directive

/-- The arguments of a recursion. -/
def recurseArgs (depth? : Option UInt32) (allowLoop : Bool) : List String :=
  (depth?.map fun depth => "depth: " ++ toString depth.toNat).toList
    ++ if allowLoop then ["loop: true"] else []

/-- A directive with its arguments; without arguments it has no parentheses. -/
def withArgs (name : String) (args : List String) : String :=
  if args.isEmpty then name else name ++ "(" ++ ", ".intercalate args ++ ")"

/-- The text of a directive; the predicates of a cascade have to be well formed. -/
def template : Directive → Template
  | cascade predicates =>
    predicates.map (fun name => .demand (Name.checkPredicate name))
      ++ [.text (withArgs "@cascade" predicates)]
  | normalize => [.text "@normalize"]
  | ignoreReflex => [.text "@ignorereflex"]
  | recurse depth? allowLoop => [.text (withArgs "@recurse" (recurseArgs depth? allowLoop))]

end Directive

end GraphQuery
