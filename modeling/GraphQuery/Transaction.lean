import GraphQuery.Backend

/-!
# Transactions

A transaction is active until it is committed or discarded, and it is ended
at the backend exactly once.  It is committed by `Transaction.commit`, or by
a mutation that is executed with the request to commit along with it.  It is
discarded by `Transaction.discard`, by a failed commit, by a token that has
fired, or when its owner lets go of it (`Transaction.release`).

Every function takes the backend, the connection to it and a predicate that
says which tokens have fired, and returns the connection with its longer log.
-/

namespace GraphQuery

/-- How far a transaction has come. -/
inductive TransactionState where
  | active
  | committed
  | discarded
  deriving DecidableEq

/-- The name of a state. -/
def TransactionState.name : TransactionState → String
  | active => "Active"
  | committed => "Committed"
  | discarded => "Discarded"

/-- A transaction as its owner sees it. -/
structure Transaction where
  number : Nat
  mode : AccessMode
  state : TransactionState
  token : Token
  deriving DecidableEq

namespace Transaction

variable {σ : Type}

/-- The refusal of a transaction that has ended. -/
def notActive : Error := .invalidArgument "transaction is no longer active"

/-- The refusal of a mutation where only reading is allowed. -/
def readOnlyMutation : Error := .invalidArgument "mutation in a read-only transaction"

/-- The refusal of a mutation where a query is expected. -/
def mutationAsQuery : Error := .invalidArgument "use mutate() for mutation statements"

/-- Begin a transaction, unless the token has fired. -/
def begin (b : Backend σ) (isFired : Token → Bool) (mode : AccessMode) (token : Token)
    (c : Connection σ) : Except Error Transaction × Connection σ :=
  if isFired token then (.error .cancelled, c)
  else
    let (r, c) := c.begin b mode
    (r.map fun number => ⟨number, mode, .active, token⟩, c)

/-- Discard a transaction that is still active. Whether the backend could is of no interest. -/
def release (b : Backend σ) (t : Transaction) (c : Connection σ) : Transaction × Connection σ :=
  if t.state = .active then ({ t with state := .discarded }, (c.discard b t.number).2)
  else (t, c)

/-- Execute a statement. -/
def execute (b : Backend σ) (isFired : Token → Bool) (s : Statement) (commitNow : Bool)
    (t : Transaction) (c : Connection σ) : Outcome Response × Transaction × Connection σ :=
  if t.state ≠ .active then (.error notActive, t, c)
  else if s.isMutation ∧ t.mode = .readOnly then (.error readOnlyMutation, t, c)
  else if isFired t.token then
    (.error .cancelled, t.release b c)
  else
    let (r, c) := c.execute b t.number ⟨s, commitNow, isFired t.token⟩
    match r with
    | .ok response =>
      (.ok response, if commitNow && s.isMutation then { t with state := .committed } else t, c)
    | r => (r, t, c)

/-- Commit a transaction and let go of it. -/
def commit (b : Backend σ) (isFired : Token → Bool) (t : Transaction) (c : Connection σ) :
    Outcome Unit × Transaction × Connection σ :=
  if t.state ≠ .active then (.error notActive, t, c)
  else if isFired t.token then
    (.error .cancelled, t.release b c)
  else
    let (r, c) := c.commit b t.number
    match r with
    | .ok _ => (.ok (), { t with state := .committed }, c)
    | r => (r, t.release b c)

/-- Discard a transaction and let go of it; one that has ended already stays as it is. -/
def discard (b : Backend σ) (t : Transaction) (c : Connection σ) :
    Except Error Unit × Transaction × Connection σ :=
  if t.state ≠ .active then (.ok (), t, c)
  else
    let (r, c) := c.discard b t.number
    (r, { t with state := .discarded }, c)

/-! ## Calls that take queries -/

/-- What an owner may ask of a transaction before ending it. -/
inductive Command where
  | query (q : Query)
  | queryBatch (b : Batch)
  | mutate (q : Query)
  | mutateAndCommit (q : Query)
  | execute (s : Statement) (commitNow : Bool)

namespace Command

/-- The statement that a command sends, and whether to commit along with it. -/
def request : Command → Except Error (Statement × Bool)
  | query q => do
    let s ← q.compile
    Verdict.ofBool (!s.isMutation) mutationAsQuery
    return (s, false)
  | queryBatch b => do return (← b.compile, false)
  | mutate q => do return (← q.compile, false)
  | mutateAndCommit q => do return (← q.compile, true)
  | execute s commitNow => .ok (s, commitNow)

end Command

/-- Carry out a command. A command without a statement changes nothing. -/
def run (b : Backend σ) (isFired : Token → Bool) (command : Command) (t : Transaction)
    (c : Connection σ) : Outcome Response × Transaction × Connection σ :=
  match command.request with
  | .error e => (.error e, t, c)
  | .ok (s, commitNow) => t.execute b isFired s commitNow c

/-- The transaction in words, without its number. -/
def describe (t : Transaction) : String :=
  "Txn \x7b id: _, mode: " ++ t.mode.name ++ ", state: " ++ t.state.name ++ " \x7d"

end Transaction

end GraphQuery
