import GraphQuery.Cancellation
import GraphQuery.Outcome
import GraphQuery.Statement

/-!
# Backends

A backend is the far end of a connection: it begins transactions, executes
statements in them, and commits or discards them.  What it answers may depend
on its state and change it, so a `Backend σ` is four functions on a state
`σ`; an arbitrary one stands for arbitrary behaviour of a database.

A `Connection` counts the transactions that were begun and keeps a log of all
calls, in order.  Each call is logged before the backend answers it.
-/

namespace GraphQuery

/-- What a transaction may do. -/
inductive AccessMode where
  | readOnly
  | readWrite
  deriving DecidableEq

/-- The name of a mode. -/
def AccessMode.name : AccessMode → String
  | readOnly => "ReadOnly"
  | readWrite => "ReadWrite"

/-- The answer to a statement: a document, and the identifiers of new nodes by name. -/
structure Response where
  json : String
  uids : List (String × String)
  deriving DecidableEq

/-- A statement on its way to a backend. -/
structure Request where
  statement : Statement
  /-- Commit the transaction along with the statement. -/
  commitNow : Bool
  /-- The caller's token had fired when the request was made. -/
  isCancelled : Bool
  deriving DecidableEq

/-- The far end of a connection. Transactions are numbered in the order in which they were begun. -/
structure Backend (σ : Type) where
  begin : AccessMode → σ → Except Error Unit × σ
  execute : Nat → Request → σ → Outcome Response × σ
  commit : Nat → σ → Outcome Unit × σ
  discard : Nat → σ → Except Error Unit × σ

/-- A call of a backend. -/
inductive Event where
  | begin (number : Nat) (mode : AccessMode)
  | execute (number : Nat) (request : Request)
  | commit (number : Nat)
  | discard (number : Nat)
  deriving DecidableEq

/-- A backend's state, the number of transactions begun, and all calls so far. -/
structure Connection (σ : Type) where
  state : σ
  begun : Nat
  log : List Event

namespace Connection

variable {σ : Type}

/-- A connection on which nothing was called. -/
def start (state : σ) : Connection σ := ⟨state, 0, []⟩

/-- Begin a transaction. It has a number even if the backend refuses it. -/
def begin (b : Backend σ) (mode : AccessMode) (c : Connection σ) :
    Except Error Nat × Connection σ :=
  let number := c.begun + 1
  let (r, state) := b.begin mode c.state
  (r.map fun _ => number, ⟨state, number, c.log ++ [.begin number mode]⟩)

/-- Execute a statement. -/
def execute (b : Backend σ) (number : Nat) (request : Request) (c : Connection σ) :
    Outcome Response × Connection σ :=
  let (r, state) := b.execute number request c.state
  (r, { c with state, log := c.log ++ [.execute number request] })

/-- Commit a transaction. -/
def commit (b : Backend σ) (number : Nat) (c : Connection σ) : Outcome Unit × Connection σ :=
  let (r, state) := b.commit number c.state
  (r, { c with state, log := c.log ++ [.commit number] })

/-- Discard a transaction. -/
def discard (b : Backend σ) (number : Nat) (c : Connection σ) :
    Except Error Unit × Connection σ :=
  let (r, state) := b.discard number c.state
  (r, { c with state, log := c.log ++ [.discard number] })

end Connection

end GraphQuery
