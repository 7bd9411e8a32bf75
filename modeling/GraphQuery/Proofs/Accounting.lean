import GraphQuery.Proofs.Outcomes

/-!
# The counters of a pool at rest

`Pool.accounted`: when no call is in progress, nothing is queued and no worker
has a mutation, there were as many outcomes as submissions and replays, and
what was submitted has succeeded, is in the retry list, or was taken out of
it.

Each equation holds at every moment, with one term for what is in the queue and
one for each kind of thing that a thread has done and not yet counted
(`Ledger.outcomes_eq`, `Ledger.submitted_eq`).  In a `Quiet` pool all these
terms are zero (`Task.shares_of_quiet`).

A counter grows by one at an action, or by as much as one call has replayed,
so all of them together are not larger than the number of actions
(`counted_le`).
-/

namespace GraphQuery

namespace Pool

variable {p q p' : Pool} {i : Nat} {task task' : Task}

/-- A call has put its mutation into the queue and not yet counted it. -/
def Task.isConfirming : Task → Bool
  | confirm _ => true
  | _ => false

/-- No call is in progress, nothing is queued, and no worker has a mutation. -/
structure Quiet (p : Pool) : Prop where
  callers : ∀ t ∈ p.tasks.drop p.config.workers, t.isOver = true
  queue : p.queue = []
  workers : ∀ t ∈ p.tasks.take p.config.workers, t.isWorking = false

/-- A thread has nothing but the answer of its call. -/
structure Task.Shareless (t : Task) : Prop where
  executing : t.executing? = none
  success : t.success? = none
  failed : t.hasFailed = false
  done : t.done = 0
  confirming : t.isConfirming = false
  held : t.held = t.inAnswer

theorem Task.shares_of_quiet {t : Task}
    (h : t.isOver = true ∨ t.role = .worker ∧ t.isWorking = false) : t.Shareless := by
  cases t <;> first | exact ⟨rfl, rfl, rfl, rfl, rfl, rfl⟩ | simp [isOver, role, isWorking] at h

/-- A call with an accepted mutation has counted it or is about to. -/
theorem Task.length_accepted? {first now : Task}
    (h : now.role = .submitter → ∃ s, first = .request s) :
    (first.accepted? now).toList.length = now.hasSubmitted.toNat + now.isConfirming.toNat := by
  cases now with
  | request | offer | confirm =>
    obtain ⟨s, rfl⟩ := h rfl
    rfl
  | submitted r =>
    obtain ⟨s, rfl⟩ := h rfl
    cases r <;> rfl
  | _ => cases first <;> rfl

theorem total_add (share share' : Task → Nat) :
    p.total (fun t => share t + share' t) = p.total share + p.total share' :=
  List.sum_map_add

/-! ## The sum of the counters -/

/-- What has been counted, and what calls are about to count. -/
def counted (p : Pool) : Nat :=
  p.counters.submitted + p.counters.succeeded + p.counters.failed + p.counters.replayed +
    p.total Task.done

theorem Advance.counted_le (h : Advance p task task' q) :
    q.counters.submitted + q.counters.succeeded + q.counters.failed + q.counters.replayed +
        task'.done ≤
      p.counters.submitted + p.counters.succeeded + p.counters.failed + p.counters.replayed +
        task.done + 1 := by
  cases h with
  | takeCharge => split <;> simp [Task.done]
  | _ => simp [Task.done, countReplayed] <;> omega

theorem counted_after? {a : Action} (hafter : p.after? a = some p') :
    p'.counted ≤ p.counted + 1 := by
  rcases after?_cases hafter with ⟨call, -, hcall, rfl⟩ | ⟨i, task, -, htask, hadvances⟩
  · unfold counted
    rw [total_call, (Task.shares_of_call hcall).2.2.2.1]
    dsimp only
    omega
  · obtain ⟨task', q, hadvance, hreaches⟩ := hadvances
    have hstep := hreaches.total_add Task.done htask
    have hcounters : p'.counters = q.counters := by rw [hreaches.data]
    have hle := hadvance.counted_le
    unfold counted
    rw [hcounters]
    omega

/-- Every action counts for one at most. -/
theorem counted_le {actions : List Action} (hrun : p.run? actions = some p') :
    p'.counted ≤ p.counted + actions.length := by
  induction actions generalizing p with
  | nil => exact Nat.le_of_eq (congrArg counted (Option.some.inj hrun).symm)
  | cons a actions ih =>
    rw [run?, List.foldlM_cons] at hrun
    obtain ⟨next, hafter, hrest⟩ := Option.bind_eq_some_iff.mp hrun
    have hfirst := counted_after? hafter
    have hlater := ih hrest
    rw [List.length_cons]
    omega

end Pool

open Pool

namespace Ledger

variable {l : Ledger} {config : Config}

/-- A mutation that was accepted is counted in the next step of its call. -/
theorem length_accepted (hbalanced : l.Balanced) (htallied : l.Tallied) :
    l.accepted.length = l.pool.counters.submitted + l.pool.total fun t => t.isConfirming.toNat := by
  have hlife : ∀ life ∈ l.lives, (life.1.accepted? life.2).toList.length =
      life.2.hasSubmitted.toNat + life.2.isConfirming.toNat :=
    fun life hlife => Task.length_accepted? (hbalanced.eq_request hlife)
  have hsum : l.accepted.length =
      l.pool.total fun t => t.hasSubmitted.toNat + t.isConfirming.toNat := by
    rw [total, ← hbalanced.map_snd_lives, List.map_map, History.accepted,
      List.filterMap_eq_flatMap_toList, List.length_flatMap]
    exact congrArg List.sum (List.map_congr_left hlife)
  rw [hsum, total_add, ← htallied.submitted]

/-- What was submitted has succeeded, or it is in the queue, in the retry list or in the hands of a
thread. -/
theorem submitted_eq (hbalanced : l.Balanced) (htallied : l.Tallied) :
    l.pool.counters.submitted + l.pool.total (fun t => t.isConfirming.toNat) =
      l.pool.counters.succeeded + l.pool.queue.length + l.pool.retries.length +
        l.pool.total fun t => t.held.length := by
  have hplaces : l.accepted.length =
      l.pool.queue.length + l.pool.retries.length + l.succeeded.length +
        l.pool.total fun t => t.held.length := by
    rw [← hbalanced.perm.length_eq, List.length_map, hbalanced.holdings_eq, stock,
      List.length_append, List.length_append, List.length_append, List.length_map,
      List.length_flatMap]
    rfl
  have hcounted := length_accepted hbalanced htallied
  have hsucceeded := htallied.succeeded
  omega

/-- Every submission and every replay leads to one outcome, unless the mutation is still in the
queue, or its execution has not ended or is not counted. -/
theorem outcomes_eq (hbalanced : l.Balanced) (htallied : l.Tallied) (hdocumented : l.Documented) :
    l.pool.counters.succeeded + l.pool.counters.failed + l.pool.queue.length +
        (l.pool.total (fun t => t.executing?.toList.length) +
          l.pool.total (fun t => t.success?.toList.length) +
          l.pool.total fun t => t.hasFailed.toNat) =
      l.pool.counters.submitted + l.pool.total (fun t => t.isConfirming.toNat) +
        (l.pool.counters.replayed + l.pool.total Task.done) := by
  have hends : l.executed.length =
      l.executed.countP (·.2.isOk) + l.executed.countP fun x => !x.2.isOk := by
    simpa using List.length_eq_countP_add_countP (l := l.executed) fun x => x.2.isOk
  have hplaces := submitted_eq hbalanced htallied
  have hrounds := htallied.rounds
  have hsucceeded := htallied.succeeded
  have hsuccesses := hdocumented.succeeded
  have hfailures := htallied.failed
  omega

end Ledger

namespace Pool

variable {p : Pool} {config : Config} {actions : List Action}

/-! ## At rest -/

/-- The tasks of a quiet pool. -/
theorem Quiet.task {l : Ledger} {t : Task} (hquiet : l.pool.Quiet)
    (hrun : (Ledger.start config).run? actions = some l) (ht : t ∈ l.pool.tasks) :
    t.isOver = true ∨ t.role = .worker ∧ t.isWorking = false := by
  rw [← List.take_append_drop l.pool.config.workers l.pool.tasks] at ht
  rcases List.mem_append.mp ht with ht | ht
  · exact Or.inr ⟨Ledger.role_of_mem_take hrun ht, hquiet.workers t ht⟩
  · exact Or.inl (hquiet.callers t ht)

/-- What the statistics of a pool at rest say. -/
structure Accounted (p : Pool) : Prop where
  /-- Every submission and every replay has led to one outcome. -/
  outcomes : p.stats.succeeded + p.stats.failed = p.stats.submitted + p.stats.replayed
  /-- What has not succeeded is in the retry list, or was handed out to a call that has taken it. -/
  succeeded_le : p.stats.succeeded ≤ p.stats.submitted
  remaining : p.stats.submitted - p.stats.succeeded =
    p.stats.retryBacklog + p.total fun t => t.inAnswer.length
  /-- No counter has overflowed. -/
  counters : p.stats.submitted + p.stats.succeeded + p.stats.failed + p.stats.replayed <
    UInt64.size

theorem accounted (hrun : (fresh config).run? actions = some p)
    (hactions : actions.length < UInt64.size) (hquiet : p.Quiet) : p.Accounted := by
  obtain ⟨l, hl, rfl⟩ := Ledger.exists_run? (l := .start config) hrun
  have hbalanced : l.Balanced := Ledger.balanced_of_run? hl
  have htallied : l.Tallied := Ledger.tallied_of_run? hl
  have houtcomes := Ledger.outcomes_eq hbalanced htallied (Ledger.documented_of_run? hl)
  have hplaces := Ledger.submitted_eq hbalanced htallied
  -- No thread has anything but the answer of its call, so the other terms are zero.
  have hshares := fun t (ht : t ∈ l.pool.tasks) => Task.shares_of_quiet (hquiet.task hl ht)
  have hheld : l.pool.total (fun t => t.held.length) = l.pool.total fun t => t.inAnswer.length :=
    congrArg List.sum (List.map_congr_left fun t ht => by rw [(hshares t ht).held])
  have hexecuting : l.pool.total (fun t => t.executing?.toList.length) = 0 :=
    total_eq_zero fun t ht => by rw [(hshares t ht).executing]; rfl
  have hsuccess : l.pool.total (fun t => t.success?.toList.length) = 0 :=
    total_eq_zero fun t ht => by rw [(hshares t ht).success]; rfl
  have hfailed : l.pool.total (fun t => t.hasFailed.toNat) = 0 :=
    total_eq_zero fun t ht => by rw [(hshares t ht).failed]; rfl
  have hdone : l.pool.total Task.done = 0 := total_eq_zero fun t ht => (hshares t ht).done
  have hconfirming : l.pool.total (fun t => t.isConfirming.toNat) = 0 :=
    total_eq_zero fun t ht => by rw [(hshares t ht).confirming]; rfl
  have hqueue : l.pool.queue.length = 0 := congrArg List.length hquiet.queue
  have hbound : l.pool.counted ≤ actions.length := by
    have hstart : (fresh config).counted = 0 := (Nat.zero_add _).trans (total_fresh rfl)
    have hle : l.pool.counted ≤ (fresh config).counted + actions.length := counted_le hrun
    rwa [hstart, Nat.zero_add] at hle
  unfold counted at hbound
  refine ⟨?_, ?_, ?_, ?_⟩ <;> dsimp only [stats] <;> omega

/-- Two mutations are accepted and fail. -/
def twoFailures : List Action :=
  [.call (.request ⟨.set, "a", []⟩), .step 1 0, .step 1 0, .step 1 0,
    .call (.request ⟨.set, "b", []⟩), .step 2 0, .step 2 0, .step 2 0,
    .step 0 0, .finish 0 (.error .cancelled) 5, .step 0 0, .step 0 0, .step 0 0,
    .step 0 0, .finish 0 (.error .cancelled) 6, .step 0 0, .step 0 0, .step 0 0]

/-- A call replays the first mutation, but not the second, because the pool is closed, and the
worker executes it with success and leaves.  Then a mutation is refused, and a call takes the retry
list. -/
def cutShort : List Action :=
  [.call .collect, .step 3 0, .step 3 0, .call .close, .step 4 0, .step 3 0, .step 3 0,
    .step 0 0, .finish 0 (.ok ()) 7, .step 0 0, .step 0 0, .step 0 0,
    .step 4 0, .step 4 0, .step 4 0, .step 4 0,
    .call (.request ⟨.set, "c", []⟩), .step 5 0, .step 5 0, .call .take, .step 6 0]

theorem accounted_cutShort :
    ∃ p, (fresh ⟨1, 2, 3⟩).run? (twoFailures ++ cutShort) = some p ∧ p.Quiet ∧
      p.tasks = [.left, .submitted (.ok 1), .submitted (.ok 2), .replayed (.error .poolClosed),
        .shutDown, .submitted (.error .poolClosed),
        .taken [⟨⟨2, ⟨.set, "b", []⟩, 1⟩, Error.cancelled.message, 6⟩]] ∧
      p.stats = ⟨2, 1, 2, 1, 0, 0, 0⟩ ∧ p.Accounted := by
  have hview : ((fresh ⟨1, 2, 3⟩).run? (twoFailures ++ cutShort)).map
      (fun p => (p.tasks, p.config.workers, p.queue, p.stats)) =
      some ([.left, .submitted (.ok 1), .submitted (.ok 2), .replayed (.error .poolClosed),
        .shutDown, .submitted (.error .poolClosed),
        .taken [⟨⟨2, ⟨.set, "b", []⟩, 1⟩, Error.cancelled.message, 6⟩]], 1, [],
        ⟨2, 1, 2, 1, 0, 0, 0⟩) := rfl
  obtain ⟨p, hrun, hview⟩ := Option.map_eq_some_iff.mp hview
  simp only [Prod.mk.injEq] at hview
  obtain ⟨htasks, hworkers, hqueue, hstats⟩ := hview
  have hquiet : p.Quiet := by
    refine ⟨?_, hqueue, ?_⟩
    · simp [htasks, hworkers, Task.isOver]
    · simp [htasks, hworkers, Task.isWorking]
  exact ⟨p, hrun, hquiet, htasks, hstats, accounted hrun (by decide) hquiet⟩

end Pool

end GraphQuery
