import GraphQuery.Call

/-!
# Filters

A `Condition` is a boolean combination of function calls.  `and` and `or`
take any number of operands, and a combination without operands is refused.

In the text, `NOT` binds tightest, then `AND`, then `OR`.  An operand stands
in parentheses exactly when it is itself a combination of two or more
operands, so a combination of one operand reads like that operand.

A `Filter` is a condition or nothing at all; the empty filter lets every node
through and is not written.
-/

namespace GraphQuery

/-- A boolean combination of function calls. -/
inductive Condition where
  | call (c : Call)
  | and (operands : List Condition)
  | or (operands : List Condition)
  | not (operand : Condition)

namespace Condition

/-- The refusal of a combination without operands. -/
def noOperand : Error :=
  .invalidArgument "boolean filter needs at least one operand"

/-- Every combination has an operand and every call passes its check. The verdict is the first from
the left that refuses. -/
def check : Condition → Verdict
  | call c => c.check
  | and [] | or [] => .error noOperand
  | and (c :: cs) | or (c :: cs) => do
    c.check
    checkAll cs
  | not c => c.check
where
  /-- The verdict on each condition in turn. -/
  checkAll : List Condition → Verdict
    | [] => .ok ()
    | c :: cs => do
      c.check
      checkAll cs

/-- The condition joins two or more operands. -/
def joinsMany : Condition → Bool
  | and (_ :: _ :: _) | or (_ :: _ :: _) => true
  | _ => false

/-- The template of an operand, given the one of the condition by itself. -/
def operandTemplate (c : Condition) (t : Template) : Template :=
  if c.joinsMany then t.parenthesized else t

/-- The text of a condition with places for its values. -/
def template : Condition → Template
  | call c => c.template
  | and cs => Template.join " AND " (operandTemplates cs)
  | or cs => Template.join " OR " (operandTemplates cs)
  | not c => .text "NOT " :: operandTemplate c c.template
where
  /-- The templates of several operands. -/
  operandTemplates : List Condition → List Template
    | [] => []
    | c :: cs => operandTemplate c c.template :: operandTemplates cs

end Condition

/-- A condition that nodes have to meet, if there is one. -/
abbrev Filter := Option Condition

namespace Filter

/-- The filter that lets every node through. -/
def empty : Filter := none

/-- The filter of one function call. -/
def ofCall (c : Call) : Filter := some (.call c)

/-- The filter does not hold anything back. -/
def isEmpty (f : Filter) : Bool := f.isNone

/-- Two filters joined by a combination of two operands; an empty filter drops out. -/
def combine (join : List Condition → Condition) : Filter → Filter → Filter
  | some a, some b => some (join [a, b])
  | some a, none => some a
  | none, f => f

/-- Both filters. -/
def and (f g : Filter) : Filter := combine .and f g

/-- Either filter. -/
def or (f g : Filter) : Filter := combine .or f g

/-- The opposite of a filter; the empty filter stays empty. -/
def negate (f : Filter) : Filter := f.map .not

/-- The verdict on the condition; the empty filter is accepted. -/
def check : Filter → Verdict
  | none => .ok ()
  | some c => c.check

/-- The clause of a filter with places for its values; nothing for the empty filter. -/
def template : Filter → Template
  | none => []
  | some c => .demand c.check :: .text "@filter" :: c.template.parenthesized

end Filter

end GraphQuery
