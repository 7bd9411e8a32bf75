import GraphQuery.Proofs.Draining
import GraphQuery.Proofs.Settling

/-!
# No wake-up is lost

Any number of callers submit, replay, take the retry list, wait for the end of
the work and shut the pool down, in any order, while the workers execute what
is queued.  When no thread can go on (`Pool.StandsStill`), the reason is never
that somebody should have been notified and was not: `Pool.rests` says that
nothing is left to do and that every call has returned (`Pool.Rests`).

Executions are taken to come to an end, so a worker in the middle of one can
go on.  That a thread may lose patience is left out of account, so it is not
what brings the calls to their end.

`Pool.Wakeful.atRest` gives what is said of the queue and of those that wait
for room.  What is said of shutting down needs one invariant more: a call that
waits for the workers has closed the pool (`Pool.Announced`), so they have all
been told, and have left.
-/

namespace GraphQuery.Pool

variable {p q : Pool} {i : Nat} {task task' : Task} {t : Thread} {c : Condition}

/-- No thread can go on: none can carry out its task, and nothing is being executed. -/
def StandsStill (p : Pool) : Prop :=
  ∀ i, (∀ choice, p.after? (.step i choice) = none) ∧
    ∀ outcome time, p.after? (.finish i outcome time) = none

/-- Nothing is left to do, and nobody waits for something that will not come. -/
structure Rests (p : Pool) : Prop where
  queue : p.queue = []
  inFlight : p.inFlight = 0
  space : ∀ t ∈ p.threads, t.waitsFor .space = false
  idle : ∀ t ∈ p.threads, t.waitsFor .idle = false
  ready : p.isClosed = true → ∀ t ∈ p.threads, t.waitsFor .ready = false
  /-- Every call has returned; a worker has left, or it waits for work that may still come. -/
  returned : ∀ t ∈ p.threads,
    t.task.isOver = true ∨ p.isClosed = false ∧ t.waitsFor .ready = true

/-! ## Calls that shut the pool down -/

/-- The call has closed the pool and has not returned. -/
def Task.hasClosed : Task → Bool
  | wakeWorkers | wakeCallers | takeCharge | join => true
  | _ => false

/-- Only in a closed pool is there a call that has closed it. -/
def Announced (p : Pool) : Prop := ∀ task ∈ p.tasks, task.hasClosed = true → p.isClosed = true

theorem Task.hasClosed_of_call (h : task.isCall = true) : task.hasClosed = false := by
  cases task <;> first | rfl | cases h

theorem Task.hasClosed_of_joining (h : task.isJoining = true) : task.hasClosed = true := by
  cases task <;> first | rfl | cases h

theorem Advance.hasClosed (h : Advance p task task' q) (hafter : task'.hasClosed = true) :
    task.hasClosed = true ∨ q.isClosed = true := by
  cases h with
  | park => exact Or.inl hafter
  | close => exact Or.inr rfl
  | wakeWorkers | wakeCallers | takeCharge => exact Or.inl rfl
  | _ => cases hafter

theorem Advance.isClosed_mono (h : Advance p task task' q) (hclosed : p.isClosed = true) :
    q.isClosed = true :=
  (h.suffix_of_closed hclosed).1

theorem Announced.after? {p' : Pool} {a : Action} (h : p.Announced)
    (hafter : p.after? a = some p') : p'.Announced := by
  rcases after?_cases hafter with
    ⟨first, -, hcall, rfl⟩ | ⟨i, task, -, htask, task', q, hadvance, hreaches⟩
  · refine forall_tasks_call h fun hclosed => ?_
    rw [Task.hasClosed_of_call hcall] at hclosed
    cases hclosed
  · have hdata : p'.isClosed = q.isClosed := by rw [hreaches.data]
    have hbefore : ∀ task ∈ p.tasks, task.hasClosed = true → q.isClosed = true :=
      fun task htask hcloses => hadvance.isClosed_mono (h task htask hcloses)
    rw [Announced, hdata]
    refine hreaches.forall_tasks hbefore fun hclosed => ?_
    exact (hadvance.hasClosed hclosed).elim (hbefore task (List.mem_of_getElem? htask)) id

theorem announced_fresh (config : Config) : Announced (fresh config) := by
  intro task htask hclosed
  rw [eq_fetch_of_mem_fresh htask] at hclosed
  cases hclosed

/-! ## Standing still -/

/-- Where no thread can go on, every one is at rest. -/
theorem StandsStill.isAtRest (h : p.StandsStill) (ht : t ∈ p.threads) : t.isAtRest = true := by
  obtain ⟨i, hi⟩ := List.getElem?_of_mem ht
  refine (isAtRest_of_step hi ((h i).1 0)).resolve_right ?_
  rintro ⟨m, rfl⟩
  have hfinish := (h i).2 (.ok ()) 0
  simp [Pool.after?, hi, Thread.running] at hfinish

/-- A call does not wait for the workers if they have all left. -/
theorem StandsStill.isJoining (h : p.StandsStill) (ht : t ∈ p.threads)
    (hparked : t.isParked = false) (hleft : p.allLeft = true) : t.task.isJoining = false := by
  obtain ⟨i, hi⟩ := List.getElem?_of_mem ht
  obtain ⟨task, isParked⟩ := t
  obtain rfl : isParked = false := hparked
  have hstep := (h i).1 0
  cases task with
  | join => simp [Pool.after?, hi, perform?, hleft] at hstep
  | _ => rfl

/-- A worker that is at rest waits for work or has left. -/
theorem Thread.worker_cases (hrest : t.isAtRest = true) (hrole : t.task.role = .worker)
    (hparked : t.isParked = true → t.task.condition?.isSome) :
    t.waitsFor .ready = true ∨ t.task = .left := by
  obtain ⟨task, isParked⟩ := t
  cases isParked with
  | true =>
    cases task with
    | fetch => exact Or.inl rfl
    | execute m | account m outcome time | keep f | release | left => cases hparked rfl
    | _ => cases hrole
  | false =>
    cases task with
    | left => exact Or.inr rfl
    | fetch | execute m | account m outcome time | keep f | release => cases hrest
    | _ => cases hrole

/-- Whoever is parked waits for a condition. -/
theorem Wakeful.waitsFor (h : p.Wakeful) (ht : t ∈ p.threads) (hparked : t.isParked = true) :
    ∃ c, t.waitsFor c = true := by
  obtain ⟨c, hc⟩ := Option.isSome_iff_exists.mp (h.parked t ht hparked)
  exact ⟨c, by simp [Thread.waitsFor, hparked, hc]⟩

theorem waitsFor_eq_false (hnone : waiting c p.threads = 0) (ht : t ∈ p.threads) :
    t.waitsFor c = false :=
  Bool.eq_false_iff.mpr (List.countP_eq_zero.mp hnone t ht)

/-- In a closed pool that stands still nobody waits for work. -/
theorem StandsStill.told (h : p.StandsStill) (hwakeful : p.Wakeful) (hclosed : p.isClosed = true) :
    waiting .ready p.threads = 0 :=
  hwakeful.told (fun _ => h.isAtRest) hclosed Condition.noConfusion

/-- In a closed pool that stands still the workers have left. -/
theorem StandsStill.allLeft (h : p.StandsStill) (hwakeful : p.Wakeful)
    (hroles : ∀ t ∈ p.tasks.take p.config.workers, t.role = .worker)
    (hclosed : p.isClosed = true) : p.allLeft = true := by
  rw [allLeft_iff]
  intro task htask
  have hworker : task.role = .worker := hroles task htask
  obtain ⟨t, ht, rfl⟩ := List.mem_map.mp (List.mem_of_mem_take htask)
  have htold : waiting .ready p.threads = 0 := h.told hwakeful hclosed
  refine (Thread.worker_cases (h.isAtRest ht) hworker (hwakeful.parked t ht)).resolve_left ?_
  rw [waitsFor_eq_false htold ht]
  exact Bool.false_ne_true

/-- Where no thread can go on, the calls have returned, and a worker has left or waits for work that
may still come. -/
theorem StandsStill.returned (h : p.StandsStill) (hwakeful : p.Wakeful) (hannounced : p.Announced)
    (hroles : ∀ t ∈ p.tasks.take p.config.workers, t.role = .worker)
    (hspace : waiting .space p.threads = 0) (hidle : waiting .idle p.threads = 0)
    (ht : t ∈ p.threads) :
    t.task.isOver = true ∨ p.isClosed = false ∧ t.waitsFor .ready = true := by
  have hrest : t.isAtRest = true := h.isAtRest ht
  cases hparked : t.isParked with
  | true =>
    obtain ⟨c, hc⟩ := hwakeful.waitsFor ht hparked
    cases c with
    | ready =>
      refine Or.inr ⟨Bool.eq_false_iff.mpr fun hclosed => ?_, hc⟩
      exact absurd hc (List.countP_eq_zero.mp (h.told hwakeful hclosed) t ht)
    | space => exact absurd hc (List.countP_eq_zero.mp hspace t ht)
    | idle => exact absurd hc (List.countP_eq_zero.mp hidle t ht)
  | false =>
    rw [Thread.isAtRest, hparked, Bool.false_or, Bool.or_eq_true] at hrest
    refine Or.inl (hrest.resolve_right fun hjoining => ?_)
    have hclosed : p.isClosed = true :=
      hannounced t.task (List.mem_map_of_mem ht) (Task.hasClosed_of_joining hjoining)
    have hleft := h.allLeft hwakeful hroles hclosed
    rw [h.isJoining ht hparked hleft] at hjoining
    cases hjoining

end GraphQuery.Pool

namespace GraphQuery

open Pool

namespace Pool

variable {p : Pool} {settings : PoolSettings} {actions : List Action}

/-- Whatever the threads have done and in whatever order: when none of them can go on, nothing is
left to do. -/
theorem rests (hworkers : settings.workers ≠ 0)
    (hrun : (fresh settings.config).run? actions = some p) (hstill : p.StandsStill) : p.Rests := by
  obtain ⟨l, hl, rfl⟩ := Ledger.exists_run? (l := .start settings.config) hrun
  have hconfig : l.pool.config = settings.config := Ledger.config_of_run? hl
  have hpositive : 0 < settings.config.workers :=
    Nat.pos_of_ne_zero fun hnone => hworkers (UInt64.toNat.inj hnone)
  have hwakeful : l.pool.Wakeful := Ledger.wakeful_of_run? hpositive hl
  have hannounced : l.pool.Announced :=
    foldlM_induction (announced_fresh settings.config) (fun h hafter => h.after? hafter) hrun
  have hrest : ∀ t ∈ l.pool.threads, t.isAtRest = true := fun t ht => hstill.isAtRest ht
  obtain ⟨hqueue, hworking, hspace⟩ :=
    hwakeful.atRest (hconfig ▸ settings.capacity_pos) hrest
  have hinFlight : l.pool.inFlight = 0 := by
    rw [(Ledger.tallied_of_run? hl).inFlight]
    refine total_eq_zero fun task htask => ?_
    obtain ⟨t, ht, rfl⟩ := List.mem_map.mp htask
    rw [hworking t ht]
    rfl
  have hidle : waiting .idle l.pool.threads = 0 :=
    hwakeful.idle (isIdle_iff.mpr ⟨hqueue, hinFlight⟩)
  have hroles : ∀ task ∈ l.pool.tasks.take l.pool.config.workers, task.role = .worker :=
    fun task => Ledger.role_of_mem_take hl
  exact {
    queue := hqueue
    inFlight := hinFlight
    space := fun t => waitsFor_eq_false hspace
    idle := fun t => waitsFor_eq_false hidle
    ready := fun hclosed t => waitsFor_eq_false (hstill.told hwakeful hclosed)
    returned := fun t => hstill.returned hwakeful hannounced hroles hspace hidle }

/-- One worker, and room for one mutation.  The worker waits for the first mutation, the second
waits for room, and a call waits for both to be executed; then the pool is shut down. -/
def crowded : List Action :=
  [.step 0 0, .call (.request ⟨.set, "a", []⟩), .step 1 0, .step 1 0,
    .call (.request ⟨.delete, "b", []⟩), .step 2 0, .step 2 0, .call (.await false), .step 3 0,
    .step 0 0, .step 2 0, .finish 0 (.ok ()) 7, .step 0 0, .step 0 0, .step 0 0,
    .finish 0 (.error .cancelled) 8, .step 0 0, .step 0 0, .step 0 0, .step 0 0, .step 1 0,
    .step 2 0, .step 3 0, .call .close, .step 4 0, .step 4 0, .step 4 0, .step 4 0, .step 0 0,
    .step 4 0]

/-- The second mutation has failed; apart from that nothing is left. -/
def deserted : Pool where
  config := ⟨1, 1, 3⟩
  queue := []
  inFlight := 0
  isClosed := true
  retries := [⟨⟨2, ⟨.delete, "b", []⟩, 1⟩, Error.cancelled.message, 8⟩]
  counters := ⟨2, 1, 1, 0⟩
  nextId := 3
  isInCharge := true
  threads := [.running .left, .running (.submitted (.ok 1)), .running (.submitted (.ok 2)),
    .running (.flushed true), .running .shutDown]

theorem rests_crowded :
    (fresh (PoolSettings.config ⟨1, 0, 3⟩)).run? crowded = some deserted ∧ deserted.Rests := by
  have hrun : (fresh (PoolSettings.config ⟨1, 0, 3⟩)).run? crowded = some deserted := rfl
  have hstill : deserted.StandsStill := by
    -- the first five threads are all there are
    intro i
    rcases i with _ | _ | _ | _ | _ | i <;> exact ⟨fun _ => rfl, fun _ _ => rfl⟩
  exact ⟨hrun, rests (by decide) hrun hstill⟩

end Pool

end GraphQuery
