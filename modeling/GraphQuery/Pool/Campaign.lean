import GraphQuery.Client
import GraphQuery.Pool.Ledger
import GraphQuery.Settings
import Mathlib.Algebra.GroupWithZero.Nat

/-!
# Campaigns

In a `Campaign` one caller submits mutations to a pool of its own.  Then, a
number of times, it waits for the pool to be idle and has the failed mutations
replayed, and at the end it waits once more.  How an execution ends is told by
the number of the mutation and by how often it was tried.

`Campaign.Event` leaves open what a campaign does not settle: in which order
threads take their turns and which of several parked threads is notified.
`Campaign.Result` says how a campaign turns out, in terms of the executions
alone.
-/

namespace GraphQuery

open Pool

/-- A caller that submits mutations and has those replayed that failed. -/
structure Campaign where
  settings : PoolSettings
  statements : List Statement
  /-- How often the retry list is replayed. -/
  rounds : Nat
  /-- How the execution of the mutation with the number ends that is tried for the given time. -/
  outcome : Nat → Nat → Outcome Unit

namespace Campaign

variable (c : Campaign)

/-- What a worker records of an execution; one that was abandoned has failed. -/
def recorded (id attempt : Nat) : Except Error Unit :=
  match c.outcome id attempt with
  | .ok u => .ok u
  | .error e => .error e
  | .abandoned => .error Client.abandoned

/-- The calls with which the caller replays the retry list and waits. -/
def roundCalls : List Task :=
  (List.range c.rounds).flatMap (fun _ => [.await false, .collect]) ++ [.await false]

/-- All calls of the caller, in their order. -/
def calls : List Task := c.statements.map .request ++ c.roundCalls

/-! ## Runs -/

/-- What may happen next. -/
inductive Event where
  /-- The caller makes its next call, if the call before it has returned. -/
  | call
  /-- A thread carries out its task; the number picks the thread that it notifies. -/
  | step (thread choice : Nat)
  /-- The execution of a thread's mutation has come to an end. -/
  | finish (thread : Nat) (time : Time)

/-- The action of the pool that an event stands for, if it is possible. -/
def action? (l : Ledger) : Event → Option Pool.Action
  | .call =>
    if (l.pool.tasks.drop l.pool.config.workers).all Task.isOver then
      c.calls[l.pool.tasks.length - l.pool.config.workers]?.map .call
    else none
  | .step thread choice => some (.step thread choice)
  | .finish thread time =>
    match l.pool.tasks[thread]? with
    | some (.execute m) => some (.finish thread (c.recorded m.id m.attempts) time)
    | _ => none

/-- A pool whose workers have just been started. -/
def start : Ledger := .start c.settings.config

/-- The ledger after an event, if it is possible. -/
def after? (l : Ledger) (event : Event) : Option Ledger :=
  (c.action? l event).bind l.after?

/-- The ledger after several events, if each is possible in its turn. -/
def run? (events : List Event) : Option Ledger := events.foldlM c.after? c.start

/-! ## How a campaign turns out -/

/-- The mutations with the numbers that they get. -/
def entries : List Entry := (c.statements.zipIdx 1).map Prod.swap

/-- The mutation with the number fails when it is tried for the given time. -/
def fails (id attempt : Nat) : Bool := !(c.recorded id attempt).isOk

/-- The mutation with the number fails at each of its first attempts. -/
def failsAll (id attempts : Nat) : Bool := (List.range attempts).all fun k => c.fails id (k + 1)

/-- How often a mutation may be tried. -/
def maxAttempts : Nat := max 1 c.settings.maxAttempts.toNat

/-- How often a mutation is tried that always fails. -/
def limit : Nat := min (c.rounds + 1) c.maxAttempts

/-- How often the mutation with the number is tried: until it succeeds for the first time, but not
beyond the limit. -/
def tries (id : Nat) : Nat :=
  min c.limit ((List.range c.limit).findIdx (fun k => !c.fails id (k + 1)) + 1)

/-- The number of mutations that fail at each of their first attempts. -/
def survivors (attempts : Nat) : Nat := c.entries.countP fun e => c.failsAll e.1 attempts

/-- How many mutations are replayed by the given call. -/
def replays (round : Nat) : Nat := if round < c.maxAttempts then c.survivors round else 0

/-- What the calls return with which the caller replays the retry list and waits. -/
def roundAnswers : List Task :=
  (List.range c.rounds).flatMap
    (fun round => [.flushed true, .replayed (.ok (c.replays (round + 1)))]) ++ [.flushed true]

/-- What all calls return, in their order. -/
def answers : List Task := c.entries.map (fun e => .submitted (.ok e.1)) ++ c.roundAnswers

/-- How a campaign turns out. -/
structure Result (l : Ledger) : Prop where
  /-- All calls were made, and all have returned. -/
  calls : l.begun.drop l.pool.config.workers = c.calls
  answers : l.pool.tasks.drop l.pool.config.workers = c.answers
  /-- Each mutation was executed so many times, and nothing else was executed. -/
  executions : ∀ e ∈ c.entries, l.executions e = c.tries e.1
  executed : ∀ x ∈ l.executed, x.1.entry ∈ c.entries
  /-- A mutation that always failed is in the retry list, once, with its statement, the number of
  its attempts and the message of the last. -/
  kept : ∀ e ∈ c.entries, c.failsAll e.1 (c.tries e.1) = true →
    ∃ f error, l.pool.retries.filter (·.mutation.id = e.1) = [f] ∧
      f.mutation = ⟨e.1, e.2, c.tries e.1⟩ ∧
      c.recorded e.1 (c.tries e.1) = .error error ∧ f.error = error.message
  /-- A mutation that succeeded is not in the retry list. -/
  done : ∀ e ∈ c.entries, c.failsAll e.1 (c.tries e.1) = false →
    l.pool.retries.filter (·.mutation.id = e.1) = []
  retries : ∀ f ∈ l.pool.retries, f.mutation.entry ∈ c.entries
  stats : l.pool.stats =
    { submitted := c.statements.length
      succeeded := c.entries.countP fun e => !l.pool.retries.any (·.mutation.entry = e)
      failed := l.executed.countP fun x => !x.2.isOk
      replayed := (c.entries.map fun e => c.tries e.1 - 1).sum
      queued := 0
      inFlight := 0
      retryBacklog := l.pool.retries.length }

end Campaign

end GraphQuery
