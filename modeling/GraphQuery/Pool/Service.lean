import GraphQuery.Client
import GraphQuery.Pool.Step

/-!
# Pools at work

A `Service` is a pool together with the connection on which its workers
execute mutations.  Of all the orders in which threads could take their turns
it follows one: the first thread that can go on does so, and a mutation is
executed when no thread can go on otherwise.  `Service.settle` follows this
order until nothing can happen any more.

A service may be held back: its workers then take mutations out of the queue
but do not execute them.
-/

namespace GraphQuery

open Pool

/-- A pool and the connection on which its workers execute mutations. -/
structure Service (σ : Type) where
  pool : Pool
  connection : Connection σ
  /-- Workers do not execute what they have taken out of the queue. -/
  isHeld : Bool

namespace Service

variable {σ : Type}

/-- The service after an action of its pool; the pool stays as it is if the action is impossible. -/
def apply (s : Service σ) (a : Action) : Service σ :=
  { s with pool := (s.pool.after? a).getD s.pool }

/-- The mutation that a thread is about to execute. -/
def executing? (t : Thread) : Option Pending :=
  match t.task with
  | .execute m => some m
  | _ => none

/-- The first worker that is about to execute a mutation, and the mutation. -/
def nextExecution? (p : Pool) : Option (Nat × Pending) :=
  p.threads.zipIdx.findSome? fun (t, i) => (executing? t).map fun m => (i, m)

/-- The service after the execution of a worker's mutation. -/
def execute (b : Backend σ) (s : Service σ) (worker : Nat) (m : Pending) : Service σ :=
  let (outcome, connection) := Client.writeBuffered b m.statement s.connection
  { s with connection }.apply (.finish worker outcome 0)

/-- The service after whatever happens next, if anything does. -/
def next? (b : Backend σ) (s : Service σ) : Option (Service σ) :=
  match s.pool.threads.findIdx? s.pool.isRunnable with
  | some i => some (s.apply (.step i 0))
  | none =>
    if s.isHeld then none
    else (nextExecution? s.pool).map fun (worker, m) => s.execute b worker m

/-- The number of mutations that a task has in hand. -/
def load : Task → Nat
  | .resubmit _ remaining | .giveBack _ remaining | .restore _ remaining => remaining.length
  | _ => 1

/-- More turns than the threads of a pool can take. Each mutation is good for a bounded number of
turns of the worker and of the threads that hear of it. -/
def turns (p : Pool) : Nat :=
  let inHand := p.threads.foldl (fun n t => n + load t.task) 0
  16 * (p.queue.length + p.retries.length + inHand + 1) * (p.threads.length + 1)

/-- The service once nothing can happen any more. -/
def settle (b : Backend σ) (s : Service σ) : Service σ :=
  go (turns s.pool) s
where
  /-- The service after at most so many turns. -/
  go : Nat → Service σ → Service σ
    | 0, s => s
    | fuel + 1, s =>
      match s.next? b with
      | none => s
      | some s => go fuel s

/-- The service after a call has come in and nothing can happen any more, and the thread of the
call. -/
def call (b : Backend σ) (task : Task) (s : Service σ) : Service σ × Nat :=
  ((s.apply (.call task)).settle b, s.pool.threads.length)

/-- The service that is no longer held back, once nothing can happen any more. -/
def letGo (b : Backend σ) (s : Service σ) : Service σ :=
  { s with isHeld := false }.settle b

/-- What became of the call of a thread. -/
def task? (s : Service σ) (thread : Nat) : Option Task :=
  s.pool.threads[thread]?.map Thread.task

/-- The call of a thread has not returned. -/
def isWaiting (s : Service σ) (thread : Nat) : Bool :=
  (s.task? thread).any (!·.isOver)

/-- The number of a submitted mutation, once its call has returned. -/
def submitted? (s : Service σ) (thread : Nat) : Option (Except Error Nat) :=
  match s.task? thread with
  | some (.submitted r) => some r
  | _ => none

/-- How many mutations were replayed, once the call has returned. -/
def replayed? (s : Service σ) (thread : Nat) : Option (Except Error Nat) :=
  match s.task? thread with
  | some (.replayed r) => some r
  | _ => none

/-- The retry list that was taken, once the call has returned. -/
def taken? (s : Service σ) (thread : Nat) : Option (List Failed) :=
  match s.task? thread with
  | some (.taken fs) => some fs
  | _ => none

/-- A single call on the connection of the service. The pool has no part in it. -/
def single (b : Backend σ) (isFired : Token → Bool) (token : Token) (command : Client.Command)
    (s : Service σ) : Outcome Response × Service σ :=
  let (r, connection) := Client.run b isFired token command s.connection
  (r, { s with connection })

/-- Submit a statement and let the service settle. A query is refused outright. -/
def submit (b : Backend σ) (statement : Statement) (s : Service σ) :
    Option (Except Error Nat) × Service σ :=
  if !statement.isMutation then (some (.error queryAsMutation), s)
  else
    let (s, thread) := s.call b (.request statement)
    (s.submitted? thread, s)

/-- Replay what may be tried once more, and let the service settle. -/
def replay (b : Backend σ) (s : Service σ) : Option (Except Error Nat) × Service σ :=
  let (s, thread) := s.call b .collect
  (s.replayed? thread, s)

/-- Take the retry list. -/
def takeRetries (b : Backend σ) (s : Service σ) : List Failed × Service σ :=
  let (s, thread) := s.call b .take
  ((s.taken? thread).getD [], s)

/-- Wait until the pool is idle, or until nothing can happen any more. -/
def flushFor (b : Backend σ) (s : Service σ) : Bool × Service σ :=
  let (s, thread) := s.call b (.await true)
  let s := if s.isWaiting thread then s.apply (.timeout thread) else s
  (s.task? thread matches some (.flushed true), s)

/-- Close the pool and let the service settle. -/
def shutDown (b : Backend σ) (s : Service σ) : Service σ :=
  (s.call b .close).1

end Service

end GraphQuery
