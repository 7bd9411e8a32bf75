import GraphQuery.Transaction

/-!
# Single calls

A client reads or writes with a transaction of its own for each call.  A read
is discarded when it has its answer; a write commits along with its only
statement.  Either is discarded when its statement fails, and nothing at all
is sent for a statement that does not compile or is of the wrong kind.
-/

namespace GraphQuery.Client

variable {σ : Type}

/-- The refusal of a query where a mutation is expected. -/
def queryAsMutation : Error := .invalidArgument "use query() for read statements"

/-- Execute a statement in a transaction of its own, which is let go afterwards. -/
def once (b : Backend σ) (isFired : Token → Bool) (mode : AccessMode) (commitNow : Bool)
    (token : Token) (s : Statement) (c : Connection σ) : Outcome Response × Connection σ :=
  match Transaction.begin b isFired mode token c with
  | (.error e, c) => (.error e, c)
  | (.ok t, c) =>
    let (r, t, c) := t.execute b isFired s commitNow c
    (r, (t.release b c).2)

/-- Read with a statement. -/
def read (b : Backend σ) (isFired : Token → Bool) (token : Token) (s : Statement)
    (c : Connection σ) : Outcome Response × Connection σ :=
  once b isFired .readOnly false token s c

/-- Write with a statement. -/
def write (b : Backend σ) (isFired : Token → Bool) (token : Token) (s : Statement)
    (c : Connection σ) : Outcome Response × Connection σ :=
  once b isFired .readWrite true token s c

/-- What a client can be asked for in a single call. -/
inductive Command where
  | query (q : Query)
  | queryBatch (b : Batch)
  | mutate (q : Query)

namespace Command

/-- The statement of a command, which has to be of the command's kind. -/
def statement : Command → Except Error Statement
  | query q => do
    let s ← q.compile
    Verdict.ofBool (!s.isMutation) Transaction.mutationAsQuery
    return s
  | queryBatch b => b.compile
  | mutate q => do
    let s ← q.compile
    Verdict.ofBool s.isMutation queryAsMutation
    return s

/-- The command changes the graph. -/
def isWrite : Command → Bool
  | mutate _ => true
  | _ => false

end Command

/-- Carry out a command. -/
def run (b : Backend σ) (isFired : Token → Bool) (token : Token) (command : Command)
    (c : Connection σ) : Outcome Response × Connection σ :=
  match command.statement with
  | .error e => (.error e, c)
  | .ok s => if command.isWrite then write b isFired token s c else read b isFired token s c

/-- The error of a call that was abandoned, for those that only hear of errors. -/
def abandoned : Error := .transport "transport panicked"

/-- Write with a statement that nobody can call off any more; only its success is of interest. -/
def writeBuffered (b : Backend σ) (s : Statement) (c : Connection σ) :
    Except Error Unit × Connection σ :=
  match write b (fun _ => false) ⟨0, none⟩ s c with
  | (.ok _, c) => (.ok (), c)
  | (.error e, c) => (.error e, c)
  | (.abandoned, c) => (.error abandoned, c)

end GraphQuery.Client
