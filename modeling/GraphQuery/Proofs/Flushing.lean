import GraphQuery.Pool.Ledger
import GraphQuery.Proofs.Outcomes
import GraphQuery.Settings

/-!
# Bounds of a pool, and what a flush waits for

`Ledger.paced`, for every run of every pool:

* The queue is never longer than its capacity, because nothing comes into a
  full queue.
* The mutations in flight are as many as the workers that have one, from the
  moment when a worker takes it out of the queue to the moment when it reports
  it as over.  So there are never more of them than workers, and the report
  never takes one off where there is none.
* When a call of flush returns because the pool is idle, every mutation that
  was submitted before the call came in is `Flushed`: it has been executed, all
  outcomes are counted, and if its latest execution failed, an entry of the
  retry list tells of it.

For the last part nothing has to be followed through the run.  A call that has
submitted a mutation stays as it is (`task_of_isOver`), and that all records
are complete can be told from the idle pool alone (`flushed_of_isIdle`).
-/

namespace GraphQuery

namespace Pool

variable {p q p' : Pool} {i : Nat} {task task' : Task}

/-- Nothing comes into a queue without room. -/
theorem Advance.length_queue_le (h : Advance p task task' q)
    (hle : p.queue.length ≤ p.config.capacity) : q.queue.length ≤ q.config.capacity := by
  have hroom : p.isFull = false → ∀ m : Pending, (p.queue ++ [m]).length ≤ p.config.capacity := by
    intro hroom m
    have hless : ¬p.config.capacity ≤ p.queue.length := of_decide_eq_false hroom
    rw [List.length_append, List.length_singleton]
    omega
  cases h with
  | fetch hqueue =>
    rw [hqueue, List.length_cons] at hle
    exact Nat.le_of_succ_le hle
  | accept hopen hfull => exact hroom hfull _
  | resubmit hopen hfull => exact hroom hfull _
  | _ => exact hle

/-- A call that waits returns with success if it finds the pool idle. -/
theorem Advance.isIdle_of_flushed (h : Advance p task (.flushed true) q) :
    p.isIdle = true ∧ q = p := by
  generalize hflushed : Task.flushed true = task' at h
  cases h with
  | park hcondition =>
    subst hflushed
    cases hcondition
  | flushed hidle => exact ⟨hidle, rfl⟩
  | expire => exact ⟨(Task.flushed.inj hflushed).symm, rfl⟩
  | takeCharge => split at hflushed <;> cases hflushed
  | _ => cases hflushed

end Pool

open Pool

namespace Ledger

variable {l l' : Ledger} {config : Config} {i : Nat} {task : Task}

/-! ## Calls that return -/

/-- A call that has returned stays as it is. -/
theorem task_of_isOver {a : Pool.Action} (hover : task.isOver = true)
    (htask : l.pool.tasks[i]? = some task) (hafter : l.after? a = some l') :
    l'.pool.tasks[i]? = some task := by
  rcases after?_cases hafter with
    ⟨call, -, rfl⟩ | ⟨j, other, other', q, hother, hadvance, hreaches, -⟩
  · exact getElem?_tasks_call htask
  · have hne : j ≠ i := by
      rintro rfl
      obtain rfl := Option.some.inj (hother.symm.trans htask)
      rw [hadvance.isOver_eq] at hover
      cases hover
    exact (hreaches.getElem?_of_ne hne).trans htask

/-- When a call of flush returns with success, the pool is idle. -/
theorem isIdle_of_flushed {a : Pool.Action} (htask : l.pool.tasks[i]? = some task)
    (hne : task ≠ .flushed true) (hafter : l.after? a = some l')
    (hflushed : l'.pool.tasks[i]? = some (.flushed true)) : l'.pool.isIdle = true := by
  rcases after?_cases hafter with
    ⟨call, -, rfl⟩ | ⟨j, other, other', q, hother, hadvance, hreaches, -⟩
  · rw [getElem?_tasks_call htask] at hflushed
    exact absurd (Option.some.inj hflushed) hne
  · by_cases hij : j = i
    · subst hij
      obtain rfl := Option.some.inj ((hreaches.getElem?_self hother).symm.trans hflushed)
      obtain ⟨hidle, rfl⟩ := hadvance.isIdle_of_flushed
      rw [hreaches.data]
      exact hidle
    · rw [hreaches.getElem?_of_ne hij, htask] at hflushed
      exact absurd (Option.some.inj hflushed) hne

/-! ## Bounds -/

/-- What the records of a pool say about a mutation once they are complete. -/
structure Flushed (l : Ledger) (e : Entry) : Prop where
  /-- The mutation has been executed. -/
  executed : 0 < l.executions e
  /-- The outcomes of all executions are counted. -/
  succeeded : l.pool.counters.succeeded = l.executed.countP (·.2.isOk)
  failed : l.pool.counters.failed = l.executed.countP fun x => !x.2.isOk
  /-- If the latest execution failed, an entry of the retry list tells of it; it may be in the hands
  of a call that replays the list, or in the answer of a call that has taken it. -/
  recorded : ∀ m err, l.latest? e = some (m, .error err) →
    ∃ f, l.pool.Recorded f ∧ f.mutation = m ∧ f.error = err.message

/-- The records of an idle pool are complete. -/
theorem flushed_of_isIdle {actions : List Pool.Action} {e : Entry}
    (hrun : (start config).run? actions = some l) (hidle : l.pool.isIdle = true)
    (he : e ∈ l.accepted) : l.Flushed e := by
  obtain ⟨hqueue, hinFlight⟩ := isIdle_iff.mp hidle
  have hbalanced : l.Balanced := balanced_of_run? hrun
  have htallied : l.Tallied := tallied_of_run? hrun
  have hdocumented : l.Documented := documented_of_run? hrun
  have hworking : ∀ t ∈ l.pool.tasks, t.isWorking = false := htallied.isWorking_eq hinFlight
  obtain ⟨hsucceeded, hfailed⟩ := counted_of_idle hworking htallied hdocumented
  refine ⟨executed_of_idle hworking hbalanced htallied hqueue he, hsucceeded, hfailed, ?_⟩
  intro m err hlatest
  rcases latest_of_idle hworking hbalanced htallied hdocumented hqueue he with
    ⟨m', hok⟩ | ⟨f, err', hf, hlast, herror⟩
  · rw [hlatest] at hok
    cases hok
  · rw [hlatest] at hlast
    cases hlast
    exact ⟨f, hf, rfl, herror⟩

/-- How a pool with these settings keeps within its bounds. -/
structure Paced (l : Ledger) (s : PoolSettings) : Prop where
  queue : l.pool.queue.length ≤ s.capacity
  /-- The mutations in flight are those in the hands of workers. -/
  inFlight : l.pool.inFlight = (l.pool.tasks.take s.workers.toNat).countP Task.isWorking
  workers : l.pool.inFlight ≤ s.workers.toNat
  /-- A worker that reports an execution as over takes one off. -/
  release : ∀ i choice l', l.pool.tasks[i]? = some .release → l.after? (.step i choice) = some l' →
    l'.pool.inFlight + 1 = l.pool.inFlight
  /-- A flush that comes in now and returns from its wait with success leaves no mutation behind
  that was submitted before. -/
  flush : ∀ (i id : Nat), l.pool.tasks[i]? = some (Task.submitted (.ok id)) →
    ∀ isTimed during (l₁ : Ledger), l.run? (.call (.await isTimed) :: during) = some l₁ →
      l₁.pool.tasks[l.pool.tasks.length]? = some (.await isTimed) →
      ∀ a (l₂ : Ledger), l₁.after? a = some l₂ →
        l₂.pool.tasks[l.pool.tasks.length]? = some (.flushed true) →
          ∃ statement, l₂.begun[i]? = some (Task.request statement) ∧ l₂.Flushed (id, statement)

theorem length_queue_after? {a : Pool.Action}
    (hle : l.pool.queue.length ≤ l.pool.config.capacity) (hafter : l.after? a = some l') :
    l'.pool.queue.length ≤ l'.pool.config.capacity := by
  rcases after?_cases hafter with ⟨call, -, rfl⟩ | ⟨j, task, task', q, -, hadvance, hreaches, -⟩
  · exact hle
  · rw [hreaches.data]
    exact hadvance.length_queue_le hle

/-- Only the first threads, which are the workers, have mutations in flight. -/
theorem inFlight_eq (hbalanced : l.Balanced) (htallied : l.Tallied) :
    l.pool.inFlight = (l.pool.tasks.take l.pool.config.workers).countP Task.isWorking := by
  have hcallers : (l.pool.tasks.drop l.pool.config.workers).countP Task.isWorking = 0 := by
    refine List.countP_eq_zero.mpr fun t ht => ?_
    obtain ⟨k, hk⟩ := List.getElem?_of_mem ht
    rw [List.getElem?_drop] at hk
    have hrole := mt (hbalanced.task_role_iff hk).mp (Nat.not_lt.mpr (Nat.le_add_right _ k))
    rw [Task.isWorking_of_caller hrole]
    exact Bool.false_ne_true
  rw [htallied.inFlight, total_toNat]
  conv_lhs => rw [← List.take_append_drop l.pool.config.workers l.pool.tasks]
  rw [List.countP_append, hcallers, Nat.add_zero]

/-- A report that an execution is over takes one mutation off, since there is one. -/
theorem inFlight_of_release {choice : Nat} (htallied : l.Tallied)
    (htask : l.pool.tasks[i]? = some .release) (hafter : l.after? (.step i choice) = some l') :
    l'.pool.inFlight + 1 = l.pool.inFlight := by
  have hone : 1 ≤ l.pool.inFlight := by
    rw [htallied.inFlight]
    exact le_total (fun t => t.isWorking.toNat) htask
  have hless : l'.pool.inFlight = l.pool.inFlight - 1 := by
    have hperform := perform?_of_step htask hafter
    rw [← Option.some.inj hperform, release]
    dsimp only
    split <;> rfl
  omega

theorem run?_append {start : Ledger} {actions more : List Pool.Action}
    (hrun : start.run? actions = some l) (hmore : l.run? more = some l') :
    start.run? (actions ++ more) = some l' := by
  rw [run?, List.foldlM_append]
  exact Option.bind_eq_some_iff.mpr ⟨l, hrun, hmore⟩

theorem paced {s : PoolSettings} {actions : List Pool.Action}
    (hrun : (start s.config).run? actions = some l) : l.Paced s := by
  have htallied : l.Tallied := tallied_of_run? hrun
  have hconfig : l.pool.config = s.config := config_of_run? hrun
  have hqueue : l.pool.queue.length ≤ l.pool.config.capacity :=
    run?_induction (motive := fun l => l.pool.queue.length ≤ l.pool.config.capacity)
      (Nat.zero_le _) length_queue_after? hrun
  have hinFlight := inFlight_eq (balanced_of_run? hrun) htallied
  rw [hconfig] at hqueue hinFlight
  exact {
    queue := hqueue
    inFlight := hinFlight
    workers := by
      rw [hinFlight]
      exact List.countP_le_length.trans (List.length_take_le _ _)
    release := fun i choice l' htask hafter => inFlight_of_release htallied htask hafter
    flush := by
      intro i id htask isTimed during l₁ hduring hawait a l₂ hreturn hflushed
      have hlast : l₁.run? [a] = some l₂ := by simpa [run?] using hreturn
      have hrun₂ := run?_append (run?_append hrun hduring) hlast
      have htask₁ : l₁.pool.tasks[i]? = some (.submitted (.ok id)) :=
        run?_induction (motive := fun l => l.pool.tasks[i]? = some (.submitted (.ok id))) htask
          (task_of_isOver rfl) hduring
      obtain ⟨statement, hbegun, haccepted⟩ :=
        (balanced_of_run? hrun₂).mem_accepted (task_of_isOver rfl htask₁ hreturn)
      have hidle := isIdle_of_flushed hawait (by simp) hreturn hflushed
      exact ⟨statement, hbegun, flushed_of_isIdle hrun₂ hidle haccepted⟩ }

/-- A mutation is accepted. -/
def submitting : List Pool.Action :=
  [.call (.request ⟨.set, "a", []⟩), .step 1 0, .step 1 0, .step 1 0]

/-- A flush waits while the mutation fails and a call takes it out of the retry list in order to
replay it. -/
def flushing : List Pool.Action :=
  [.step 2 0, .step 0 0, .finish 0 (.error .cancelled) 7, .step 0 0, .step 0 0, .call .collect,
    .step 3 0, .step 0 0]

/-- The flush returns with the entry of the mutation in the hands of the call that replays. -/
theorem paced_flushing :
    ∃ l l₁ l₂, (start (PoolSettings.config ⟨1, 1, 3⟩)).run? submitting = some l ∧
      l.run? (.call (.await false) :: flushing) = some l₁ ∧ l₁.after? (.step 2 0) = some l₂ ∧
      l₂.pool.tasks = [.fetch, .submitted (.ok 1), .flushed true,
        .resubmit 0 [⟨⟨1, ⟨.set, "a", []⟩, 1⟩, Error.cancelled.message, 7⟩]] ∧
      l.Paced ⟨1, 1, 3⟩ ∧ l₂.Flushed (1, ⟨.set, "a", []⟩) := by
  have hview : ((start (PoolSettings.config ⟨1, 1, 3⟩)).run? submitting).bind (fun l =>
      (l.run? (.call (.await false) :: flushing)).bind fun l₁ =>
        (l₁.after? (.step 2 0)).map fun l₂ =>
          (l.pool.tasks, l₁.pool.tasks[2]?, l₂.pool.tasks, l₂.begun[1]?)) =
      some ([.fetch, .submitted (.ok 1)], some (.await false),
        [.fetch, .submitted (.ok 1), .flushed true,
          .resubmit 0 [⟨⟨1, ⟨.set, "a", []⟩, 1⟩, Error.cancelled.message, 7⟩]],
        some (.request ⟨.set, "a", []⟩)) := rfl
  obtain ⟨l, hrun, hview⟩ := Option.bind_eq_some_iff.mp hview
  obtain ⟨l₁, hduring, hview⟩ := Option.bind_eq_some_iff.mp hview
  obtain ⟨l₂, hreturn, hview⟩ := Option.map_eq_some_iff.mp hview
  simp only [Prod.mk.injEq] at hview
  obtain ⟨htasks, hawait, htasks₂, hbegun⟩ := hview
  have hpaced : l.Paced ⟨1, 1, 3⟩ := paced hrun
  obtain ⟨statement, hstatement, hflushed⟩ :=
    hpaced.flush 1 1 (by rw [htasks]; rfl) false flushing l₁ hduring (by rw [htasks]; exact hawait)
      (.step 2 0) l₂ hreturn (by rw [htasks, htasks₂]; rfl)
  obtain rfl : ⟨.set, "a", []⟩ = statement :=
    Task.request.inj (Option.some.inj (hbegun.symm.trans hstatement))
  exact ⟨l, l₁, l₂, hrun, hduring, hreturn, htasks₂, hpaced, hflushed⟩

end Ledger

end GraphQuery
