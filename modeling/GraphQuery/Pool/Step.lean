import GraphQuery.Pool.Basic

/-!
# The steps of a pool

`Pool.after?` is the pool after one action: a new call, a task of one thread,
the outcome of an execution, or the end of a thread's patience.  It is `none`
when the action is not possible, as for a thread that is parked or whose call
has returned.

The order in which threads take their turns is free: any list of possible
actions is a run.  Where a thread notifies one of several parked threads, the
action says which.
-/

namespace GraphQuery.Pool

/-- What may happen next. -/
inductive Action where
  /-- A call comes in, beginning with the task. -/
  | call (task : Task)
  /-- A thread carries out its task; the number picks the thread that it notifies. -/
  | step (thread choice : Nat)
  /-- The execution of a thread's mutation has come to an end. -/
  | finish (thread : Nat) (outcome : Except Error Unit) (time : Time)
  /-- A thread has waited long enough. -/
  | timeout (thread : Nat)

/-- A task with which a call may begin. -/
def Task.isCall : Task → Bool
  | request s => s.isMutation
  | collect | take | await _ | close => true
  | _ => false

/-! ## Notifications -/

/-- The thread is parked on the condition. -/
def Thread.waitsFor (t : Thread) (c : Condition) : Bool :=
  t.isParked && t.task.condition? == some c

/-- The threads with every one that waits for the condition running again. -/
def notifyAll (c : Condition) (threads : List Thread) : List Thread :=
  threads.map fun t => if t.waitsFor c then { t with isParked := false } else t

/-- The threads with one that waits for the condition running again, after passing over so many. -/
def notifyNth (c : Condition) : Nat → List Thread → List Thread
  | _, [] => []
  | n, t :: rest =>
    if t.waitsFor c then
      match n with
      | 0 => { t with isParked := false } :: rest
      | n + 1 => t :: notifyNth c n rest
    else t :: notifyNth c n rest

/-- The number of threads that wait for the condition. -/
def waiting (c : Condition) (threads : List Thread) : Nat :=
  threads.countP (·.waitsFor c)

/-- The threads with one that waits for the condition running again, if there is any. -/
def notifyOne (c : Condition) (choice : Nat) (threads : List Thread) : List Thread :=
  notifyNth c (choice % waiting c threads) threads

/-! ## Tasks -/

/-- The pool in which a thread goes on with another task. -/
def goOn (p : Pool) (i : Nat) (task : Task) : Pool :=
  { p with threads := p.threads.set i (.running task) }

/-- The pool in which a thread is parked with its task. -/
def park (p : Pool) (i : Nat) (task : Task) : Pool :=
  { p with threads := p.threads.set i ⟨task, true⟩ }

/-- The pool in which one thread that waits for the condition runs again. -/
def notify (p : Pool) (c : Condition) (choice : Nat) : Pool :=
  { p with threads := notifyOne c choice p.threads }

/-- The pool in which all threads that wait for the condition run again. -/
def notifyEvery (p : Pool) (c : Condition) : Pool :=
  { p with threads := notifyAll c p.threads }

/-- A worker takes a mutation out of the queue, and so makes room for another. -/
def fetch (p : Pool) (i choice : Nat) : Pool :=
  match p.queue with
  | m :: queue =>
    { p.goOn i (.execute { m with attempts := m.attempts + 1 }) with
      queue, inFlight := p.inFlight + 1 }.notify .space choice
  | [] => if p.isClosed then p.goOn i .left else p.park i .fetch

/-- A worker counts the outcome of an execution. -/
def account (p : Pool) (i : Nat) (m : Pending) (outcome : Except Error Unit) (time : Time) :
    Pool :=
  match outcome with
  | .ok _ =>
    { p.goOn i .release with
      counters := { p.counters with succeeded := p.counters.succeeded + 1 } }
  | .error e =>
    { p.goOn i (.keep ⟨m, e.message, time⟩) with
      counters := { p.counters with failed := p.counters.failed + 1 } }

/-- A worker reports that an execution is over, and those that wait for the pool to be idle hear of
it if it is. -/
def release (p : Pool) (i : Nat) : Pool :=
  let p := { p.goOn i .fetch with inFlight := p.inFlight - 1 }
  if p.isIdle then p.notifyEvery .idle else p

/-- A caller puts a mutation into the queue, unless the pool is closed or has no room. -/
def offer (p : Pool) (i choice : Nat) (m : Pending) (parked : Task) (refused accepted : Task) :
    Pool :=
  if p.isClosed then p.goOn i refused
  else if p.isFull then p.park i parked
  else { p.goOn i accepted with queue := p.queue ++ [m] }.notify .ready choice

/-- A caller takes the retry list in order to replay what may be tried once more. -/
def collect (p : Pool) (i : Nat) : Pool :=
  let fresh := p.retries.filter p.mayRetry
  let exhausted := p.retries.filter (!p.mayRetry ·)
  { p.goOn i (if exhausted.isEmpty then .resubmit 0 fresh else .giveBack exhausted fresh) with
    retries := [] }

/-- The counters after so many more replays. -/
def countReplayed (p : Pool) (n : Nat) : Counters :=
  { p.counters with replayed := p.counters.replayed + n }

/-- The pool after a thread has carried out its task. -/
def perform? (p : Pool) (i choice : Nat) : Task → Option Pool
  | .fetch => some (p.fetch i choice)
  | .account m outcome time => some (p.account i m outcome time)
  | .keep f => some { p.goOn i .release with retries := p.retries ++ [f] }
  | .release => some (p.release i)
  | .request s => some { p.goOn i (.offer ⟨p.nextId, s, 0⟩) with nextId := p.nextId + 1 }
  | .offer m =>
    some (p.offer i choice m (.offer m) (.submitted (.error .poolClosed)) (.confirm m.id))
  | .confirm id =>
    some
      { p.goOn i (.submitted (.ok id)) with
        counters := { p.counters with submitted := p.counters.submitted + 1 } }
  | .collect => some (p.collect i)
  | .giveBack exhausted fresh =>
    some { p.goOn i (.resubmit 0 fresh) with retries := p.retries ++ exhausted }
  | .resubmit done [] =>
    some { p.goOn i (.replayed (.ok done)) with counters := p.countReplayed done }
  | .resubmit done (f :: remaining) =>
    some (p.offer i choice f.mutation (.resubmit done (f :: remaining))
      (.restore done (f :: remaining)) (.resubmit (done + 1) remaining))
  | .restore done remaining =>
    some
      { p.goOn i (.replayed (.error .poolClosed)) with
        retries := p.retries ++ remaining, counters := p.countReplayed done }
  | .take => some { p.goOn i (.taken p.retries) with retries := [] }
  | .await isTimed =>
    some (if p.isIdle then p.goOn i (.flushed true) else p.park i (.await isTimed))
  | .close => some { p.goOn i .wakeWorkers with isClosed := true }
  | .wakeWorkers => some ((p.goOn i .wakeCallers).notifyEvery .ready)
  | .wakeCallers => some ((p.goOn i .takeCharge).notifyEvery .space)
  | .takeCharge =>
    some { p.goOn i (if p.isInCharge then .shutDown else .join) with isInCharge := true }
  | .join => if p.allLeft then some (p.goOn i .shutDown) else none
  | .execute _ | .left | .submitted _ | .replayed _ | .taken _ | .flushed _ | .shutDown => none

/-! ## Runs -/

/-- The pool after an action, if it is possible. -/
def after? (p : Pool) : Action → Option Pool
  | .call task =>
    if task.isCall then some { p with threads := p.threads ++ [.running task] } else none
  | .step i choice =>
    match p.threads[i]? with
    | some ⟨task, false⟩ => p.perform? i choice task
    | _ => none
  | .finish i outcome time =>
    match p.threads[i]? with
    | some ⟨.execute m, false⟩ => some (p.goOn i (.account m outcome time))
    | _ => none
  | .timeout i =>
    match p.threads[i]? with
    | some ⟨.await true, true⟩ => some (p.goOn i (.flushed p.isIdle))
    | _ => none

/-- The pool after several actions, if each is possible in its turn. -/
def run? (p : Pool) (actions : List Action) : Option Pool :=
  actions.foldlM after? p

/-- A thread can carry out its task without anything from outside. -/
def isRunnable (p : Pool) (t : Thread) : Bool :=
  !t.isParked &&
    match t.task with
    | .execute _ => false
    | .join => p.allLeft
    | task => !task.isOver

end GraphQuery.Pool
