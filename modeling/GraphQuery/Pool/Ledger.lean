import GraphQuery.Pool.History

/-!
# Ledgers of a pool

A `Ledger` is a history that remembers every execution, also those that
failed: which mutation it was, with its attempts so far, and how it ended.
-/

namespace GraphQuery

namespace Pool

/-- The execution that comes to an end with the action. -/
def execution? (p : Pool) (a : Action) : Option (Pending × Except Error Unit) :=
  match a with
  | .finish i outcome _ =>
    match p.tasks[i]? with
    | some (.execute m) => some (m, outcome)
    | _ => none
  | _ => none

end Pool

open Pool

/-- A pool with its past and all executions that have ended. -/
structure Ledger extends History where
  /-- The executions in the order in which they ended. -/
  executed : List (Pending × Except Error Unit)

namespace Ledger

/-- A pool whose workers have just been started. -/
def start (config : Config) : Ledger where
  toHistory := .start config
  executed := []

/-- The ledger after an action, if it is possible. -/
def after? (l : Ledger) (a : Action) : Option Ledger :=
  (l.toHistory.after? a).map fun h =>
    { toHistory := h, executed := l.executed ++ (l.pool.execution? a).toList }

/-- The ledger after several actions, if each is possible in its turn. -/
def run? (l : Ledger) (actions : List Action) : Option Ledger :=
  actions.foldlM after? l

/-- How often the mutation was executed. -/
def executions (l : Ledger) (e : Entry) : Nat := l.executed.countP fun x => x.1.entry = e

end Ledger

end GraphQuery
