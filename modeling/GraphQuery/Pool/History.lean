import GraphQuery.Pool.Step

/-!
# Histories of a pool

A pool forgets with which call a thread began, and which mutations were
executed with success: of those only the number remains.  A `History` is a
pool that remembers both.

A mutation that `History.accepted` lists was put into the queue by the call
that submitted it.  `History.contents` says what is in each `Place` where it
may have got to since.
-/

namespace GraphQuery

namespace Pool

/-- What the threads do next. -/
def tasks (p : Pool) : List Task := p.threads.map Thread.task

/-- The thread that acts. -/
def Action.thread? : Action → Option Nat
  | call _ => none
  | step i _ | finish i _ _ | timeout i => some i

/-- The first task of a call that comes in. -/
def Action.begun? : Action → Option Task
  | call task => some task
  | step _ _ | finish _ _ _ | timeout _ => none

/-- The task that an action carries out or gives up. -/
def task? (p : Pool) (a : Action) : Option Task :=
  a.thread?.bind fun i => p.tasks[i]?

/-- A mutation with its number. -/
abbrev Entry := Nat × Statement

def Pending.entry (m : Pending) : Entry := (m.id, m.statement)

namespace Task

/-- The mutation of which the task counts that it was executed with success. -/
def success? : Task → Option Pending
  | account m (.ok _) _ => some m
  | _ => none

/-- What a worker has in its hands until the outcome is recorded. -/
def inWork : Task → List Pending
  | execute m | account m _ _ => [m]
  | keep f => [f.mutation]
  | _ => []

/-- What a call that replays has in its hands. -/
def inReplay : Task → List Pending
  | giveBack exhausted fresh => (exhausted ++ fresh).map Failed.mutation
  | resubmit _ remaining | restore _ remaining => remaining.map Failed.mutation
  | _ => []

/-- What a call that takes the retry list has returned. -/
def inAnswer : Task → List Pending
  | taken failed => failed.map Failed.mutation
  | _ => []

/-- The number under which a call has submitted its mutation. -/
def submitted? : Task → Option Nat
  | submitted (.ok id) => some id
  | _ => none

/-- A call that began with the first task and has come to the second has put this into the queue. -/
def accepted? (first now : Task) : Option Entry :=
  match first, now with
  | request s, confirm id | request s, submitted (.ok id) => some (id, s)
  | _, _ => none

/-- The task submits a mutation. -/
def isRequest : Task → Bool
  | request _ => true
  | _ => false

end Task

end Pool

open Pool

/-- A pool with its past. -/
structure History where
  pool : Pool
  /-- The task with which each thread began. -/
  begun : List Task
  /-- The mutations that were executed with success, in the order in which this was counted. -/
  succeeded : List Pending

namespace History

/-- A pool whose workers have just been started. -/
def start (config : Config) : History where
  pool := fresh config
  begun := List.replicate config.workers .fetch
  succeeded := []

/-- The history after an action, if it is possible. -/
def after? (h : History) (a : Action) : Option History :=
  (h.pool.after? a).map fun pool =>
    { pool
      begun := h.begun ++ a.begun?.toList
      succeeded := h.succeeded ++ ((h.pool.task? a).bind Task.success?).toList }

/-- The history after several actions, if each is possible in its turn. -/
def run? (h : History) (actions : List Action) : Option History :=
  actions.foldlM after? h

/-- With which task each thread began, and what it does next. -/
def lives (h : History) : List (Task × Task) := h.begun.zip h.pool.tasks

/-- The mutations that were submitted and put into the queue, with the numbers that they got. -/
def accepted (h : History) : List Entry :=
  h.lives.filterMap fun life => Task.accepted? life.1 life.2

/-- The numbers that were handed out to callers. -/
def handedOut (h : History) : List Nat := h.pool.tasks.filterMap Task.submitted?

/-- The number of calls that submit a mutation. -/
def requests (h : History) : Nat := h.begun.countP Task.isRequest

/-- Where a mutation may be. Threads are told apart by their place in the list of threads. -/
inductive Place where
  | queue
  | succeeded
  | retries
  /-- In the hands of a worker that has not recorded the outcome. -/
  | worker (thread : Nat)
  /-- In the hands of a call that replays the retry list. -/
  | replay (thread : Nat)
  /-- In the answer to a call that has taken the retry list. -/
  | answer (thread : Nat)
  deriving DecidableEq

/-- What is in a place. The first threads are the workers, the others are the calls. -/
def contents (h : History) : Place → List Pending
  | .queue => h.pool.queue
  | .succeeded => h.succeeded
  | .retries => h.pool.retries.map Failed.mutation
  | .worker i =>
    if i < h.pool.config.workers then h.pool.tasks[i]?.toList.flatMap Task.inWork else []
  | .replay i =>
    if i < h.pool.config.workers then [] else h.pool.tasks[i]?.toList.flatMap Task.inReplay
  | .answer i =>
    if i < h.pool.config.workers then [] else h.pool.tasks[i]?.toList.flatMap Task.inAnswer

/-- What is in a place at one position. -/
def at? (h : History) (slot : Place × Nat) : Option Pending := (h.contents slot.1)[slot.2]?

end History

end GraphQuery
