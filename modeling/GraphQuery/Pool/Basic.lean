import GraphQuery.Cancellation
import GraphQuery.Outcome
import GraphQuery.Pool.Stats
import GraphQuery.Statement

/-!
# Pools of buffered mutations

A pool executes mutations in the background.  Callers put them into a queue
of bounded length, workers take them out and execute them, and those that
fail are kept in a retry list, from which they can be taken or put into the
queue again.

Workers and callers are threads.  What a thread does next is its `Task`; a
task ends where the thread gives up a lock, so that other threads can come in
between any two tasks but not within one.  A thread whose task cannot go on
parks itself on the `Condition` of the task until another thread notifies it.

This module holds the state of a pool.  `GraphQuery.Pool.Step` says how it
changes.
-/

namespace GraphQuery

namespace Pool

/-- A mutation in the queue or in the hands of a thread. -/
structure Pending where
  id : Nat
  statement : Statement
  /-- How often its execution was begun. -/
  attempts : Nat
  deriving DecidableEq

/-- A mutation whose last execution failed. -/
structure Failed where
  mutation : Pending
  /-- The message of the failure. -/
  error : String
  failedAt : Time
  deriving DecidableEq

/-- What a parked thread waits for. -/
inductive Condition where
  /-- There is something in the queue, or the pool is closed. -/
  | ready
  /-- There is room in the queue, or the pool is closed. -/
  | space
  /-- The queue is empty and nothing is being executed. -/
  | idle
  deriving DecidableEq

/-- What a thread does next. -/
inductive Task where
  /-- Take a mutation out of the queue, or leave if the pool is closed. -/
  | fetch
  /-- Execute a mutation; this happens outside of the pool. -/
  | execute (m : Pending)
  /-- Count the outcome of an execution. -/
  | account (m : Pending) (outcome : Except Error Unit) (time : Time)
  /-- Put a failed mutation into the retry list. -/
  | keep (f : Failed)
  /-- Report that an execution is over. -/
  | release
  /-- Nothing; the worker has left. -/
  | left
  /-- Take a number for a mutation. -/
  | request (s : Statement)
  /-- Put a mutation into the queue. -/
  | offer (m : Pending)
  /-- Count a mutation that is in the queue. -/
  | confirm (id : Nat)
  /-- Nothing; the mutation was submitted under this number, or refused. -/
  | submitted (result : Except Error Nat)
  /-- Take the retry list in order to replay it. -/
  | collect
  /-- Put the mutations that were tried too often back into the retry list. -/
  | giveBack (exhausted fresh : List Failed)
  /-- Put the first of the mutations into the queue again, after so many others. -/
  | resubmit (done : Nat) (remaining : List Failed)
  /-- Put the mutations back into the retry list, because the pool was closed. -/
  | restore (done : Nat) (remaining : List Failed)
  /-- Nothing; so many mutations were replayed, or the pool was closed. -/
  | replayed (result : Except Error Nat)
  /-- Take the retry list. -/
  | take
  /-- Nothing; the retry list was taken. -/
  | taken (failed : List Failed)
  /-- Wait until the pool is idle, perhaps not for ever. -/
  | await (isTimed : Bool)
  /-- Nothing; the pool was idle, or it was waited for too long. -/
  | flushed (isIdle : Bool)
  /-- Close the pool. -/
  | close
  /-- Notify the workers that the pool is closed. -/
  | wakeWorkers
  /-- Notify the callers that the pool is closed. -/
  | wakeCallers
  /-- Take charge of the workers, if nobody else has. -/
  | takeCharge
  /-- Wait until all workers have left. -/
  | join
  /-- Nothing; the pool was shut down. -/
  | shutDown

/-- The condition on which a thread with the task may park itself. -/
def Task.condition? : Task → Option Condition
  | fetch => some .ready
  | offer _ | resubmit _ (_ :: _) => some .space
  | await _ => some .idle
  | _ => none

/-- The call of the thread has returned, or the worker has left. -/
def Task.isOver : Task → Bool
  | left | submitted _ | replayed _ | taken _ | flushed _ | shutDown => true
  | _ => false

/-- The thread is a worker that has left. -/
def Task.hasLeft : Task → Bool
  | left => true
  | _ => false

/-- A worker or a caller. -/
structure Thread where
  task : Task
  isParked : Bool

/-- A thread that goes on with the task. -/
def Thread.running (task : Task) : Thread := ⟨task, false⟩

/-- How large a pool is and how patient. -/
structure Config where
  /-- The number of workers. -/
  workers : Nat
  /-- The largest length of the queue. -/
  capacity : Nat
  /-- How often a mutation is tried before it is no longer replayed. -/
  maxAttempts : Nat
  deriving DecidableEq

/-- The configuration in words. -/
def Config.describe (c : Config) : String :=
  "MutationPipeline \x7b workers: " ++ toString c.workers ++ ", capacity: "
    ++ toString c.capacity ++ " \x7d"

/-- What has been counted. -/
structure Counters where
  submitted : Nat
  succeeded : Nat
  failed : Nat
  replayed : Nat
  deriving DecidableEq

end Pool

open Pool

/-- The state of a pool. -/
structure Pool where
  config : Config
  queue : List Pending
  /-- The number of mutations that workers have taken out and not yet reported as over. -/
  inFlight : Nat
  isClosed : Bool
  retries : List Failed
  counters : Counters
  nextId : Nat
  /-- Somebody waits for the workers to leave, or has done so. -/
  isInCharge : Bool
  /-- The workers, and behind them all callers in the order of their calls. -/
  threads : List Thread

namespace Pool

/-- The refusal of a pool without workers. -/
def noWorker : Error := .invalidArgument "pipeline needs at least one worker"

/-- The refusal of a query where a mutation is expected. -/
def queryAsMutation : Error := .invalidArgument "only mutations can be buffered"

/-- A pool whose workers have just been started. -/
def fresh (config : Config) : Pool where
  config
  queue := []
  inFlight := 0
  isClosed := false
  retries := []
  counters := ⟨0, 0, 0, 0⟩
  nextId := 1
  isInCharge := false
  threads := List.replicate config.workers (.running .fetch)

/-- Start the workers of a pool, of which there has to be at least one. It is for the machine to
say what becomes of the request for so many threads. -/
def start (room : Nat → Outcome Unit) (config : Config) : Outcome Pool :=
  if config.workers = 0 then .error noWorker
  else (room config.workers).map fun _ => fresh config

/-- Nothing is queued and nothing is being executed. -/
def isIdle (p : Pool) : Bool := p.queue.isEmpty && p.inFlight == 0

/-- There is no room in the queue. -/
def isFull (p : Pool) : Bool := p.config.capacity ≤ p.queue.length

/-- A mutation may be tried once more. -/
def mayRetry (p : Pool) (f : Failed) : Bool := f.mutation.attempts < max 1 p.config.maxAttempts

/-- Every worker has left. -/
def allLeft (p : Pool) : Bool := (p.threads.take p.config.workers).all (·.task.hasLeft)

/-- The counters and sizes of a pool. -/
def stats (p : Pool) : PoolStats where
  submitted := p.counters.submitted
  succeeded := p.counters.succeeded
  failed := p.counters.failed
  replayed := p.counters.replayed
  queued := p.queue.length
  inFlight := p.inFlight
  retryBacklog := p.retries.length

end Pool

end GraphQuery
