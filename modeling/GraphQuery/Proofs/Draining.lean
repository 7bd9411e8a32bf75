import GraphQuery.Proofs.Outcomes
import GraphQuery.Proofs.Waking

/-!
# Shutting a pool down

`Ledger.closesCleanly`: when a call of shutdown that waits for the workers
returns, the pool is `Drained`.  Nothing is queued or in flight, the workers
have left, and every mutation that was accepted has been executed.  From the
moment when the pool is closed, nothing comes into its queue.

Of several calls that overlap only the first waits.  The others find the
workers taken and return at once (`ClosesCleanly.turnedAway`), while mutations
may still be queued (`Ledger.returns_before_drained`).

The argument goes from the workers to the queue.  A worker leaves only when
the queue of a closed pool is empty (`Closing.left`), and the call in charge
returns only when all workers have left.  That each mutation was executed
follows from `Ledger.executed_of_idle`, as nothing is queued.  That a call can
take its next turn follows from `Pool.Wakeful.running`: it has nothing to wait
for, so it is not parked.
-/

namespace GraphQuery

namespace Pool

variable {p q p' : Pool} {i : Nat} {task task' : Task}

theorem Task.hasLeft_iff {t : Task} : t.hasLeft = true ↔ t = .left := by
  cases t <;> simp [hasLeft]

theorem allLeft_iff : p.allLeft = true ↔ ∀ t ∈ p.tasks.take p.config.workers, t = .left := by
  simp only [allLeft, tasks, List.all_eq_true, ← List.map_take, List.forall_mem_map,
    Task.hasLeft_iff]

/-- A worker that has left does nothing any more. -/
theorem Advance.ne_left (h : Advance p task task' q) : task ≠ .left := by
  rintro rfl
  cases h with
  | park hcondition => cases hcondition

/-- A worker leaves when a closed pool has an empty queue. -/
theorem Advance.closed_of_left (h : Advance p task .left q) : q.isClosed = true ∧ q.queue = [] := by
  generalize hleft : Task.left = task' at h
  cases h with
  | park hcondition => subst hleft; cases hcondition
  | leave hqueue hclosed => exact ⟨hclosed, hqueue⟩
  | takeCharge => split at hleft <;> cases hleft
  | _ => cases hleft

/-- A closed pool stays closed, and nothing comes into its queue. -/
theorem Advance.suffix_of_closed (h : Advance p task task' q) (hclosed : p.isClosed = true) :
    q.isClosed = true ∧ q.queue <:+ p.queue := by
  cases h with
  | fetch hqueue => exact ⟨hclosed, hqueue ▸ List.suffix_cons _ _⟩
  | accept hopen | resubmit hopen =>
    rw [hclosed] at hopen
    cases hopen
  | close => exact ⟨rfl, List.suffix_rfl⟩
  | _ => exact ⟨hclosed, List.suffix_rfl⟩

/-- A call begins to wait when it takes charge. -/
theorem Advance.joining (h : Advance p task task' q) :
    task'.isJoining.toNat + p.isInCharge.toNat ≤ task.isJoining.toNat + q.isInCharge.toNat := by
  cases h with
  | takeCharge =>
    cases hcharge : p.isInCharge with
    | true => simp [Task.isJoining]
    | false => simp [Task.isJoining]
  | _ => simp [Task.isJoining]

/-- The call in charge goes on waiting, or all workers have left. -/
theorem Advance.inCharge_cases (h : Advance p task task' q) (hcharge : q.isInCharge = true) :
    (p.isInCharge = true ∧ task ≠ .join) ∨ task' = .join ∨ p.allLeft = true := by
  cases h with
  | park hcondition =>
    refine Or.inl ⟨hcharge, ?_⟩
    rintro rfl
    cases hcondition
  | takeCharge =>
    cases hbefore : p.isInCharge with
    | true => exact Or.inl ⟨rfl, Task.noConfusion⟩
    | false => exact Or.inr (Or.inl rfl)
  | join hall => exact Or.inr (Or.inr hall)
  | _ => exact Or.inl ⟨hcharge, Task.noConfusion⟩

theorem Advance.inCharge_mono (h : Advance p task task' q) (hcharge : p.isInCharge = true) :
    q.isInCharge = true := by
  cases h with
  | takeCharge => rfl
  | _ => exact hcharge

/-- A call of shutdown returns when somebody is in charge. -/
theorem Advance.inCharge_of_shutDown (h : Advance p task task' q) (hdown : task' = .shutDown)
    (hjoin : task = .join → p.isInCharge = true) : q.isInCharge = true := by
  cases h with
  | park hcondition => subst hdown; cases hcondition
  | takeCharge => rfl
  | join => exact hjoin rfl
  | _ => cases hdown

theorem Reaches.allLeft (h : Advance p task task' q) (hreaches : Reaches p i task' q p')
    (htask : p.tasks[i]? = some task) (hall : p.allLeft = true) : p'.allLeft = true := by
  rw [allLeft_iff] at hall ⊢
  have hconfig : p'.config = p.config := by rw [hreaches.data, ← h.config_eq]
  have hworker : ¬i < p.config.workers := by
    intro hi
    apply h.ne_left
    apply hall
    exact List.mem_of_getElem? ((List.getElem?_take_of_lt hi).trans htask)
  rw [hconfig, hreaches.tasks, List.take_set_of_le (Nat.le_of_not_lt hworker)]
  exact hall

/-- What holds of a pool between the first call of shutdown and the last. -/
structure Closing (p : Pool) : Prop where
  left : .left ∈ p.tasks → p.isClosed = true ∧ p.queue = []
  /-- At most one call waits for the workers, and it is in charge. -/
  joining : p.total (fun t => t.isJoining.toNat) ≤ p.isInCharge.toNat
  returned : .shutDown ∈ p.tasks → p.isInCharge = true
  charge : p.isInCharge = true → .join ∈ p.tasks ∨ p.allLeft = true

theorem Closing.inCharge_of_join (h : Closing p) (hjoin : .join ∈ p.tasks) :
    p.isInCharge = true := by
  obtain ⟨i, hi⟩ := List.getElem?_of_mem hjoin
  have hle := (le_total (fun t => t.isJoining.toNat) hi).trans h.joining
  cases hcharge : p.isInCharge with
  | true => rfl
  | false => simp [hcharge, Task.isJoining] at hle

theorem closing_fresh (config : Config) : Closing (fresh config) := by
  exact {
    left := fun h => Task.noConfusion (eq_fetch_of_mem_fresh h)
    joining := Nat.le_of_eq (total_fresh rfl)
    returned := fun h => Task.noConfusion (eq_fetch_of_mem_fresh h)
    charge := fun h => Bool.noConfusion h }

theorem Closing.call (h : Closing p) (hcall : task.isCall = true)
    (hworkers : p.config.workers ≤ p.tasks.length) :
    Closing { p with threads := p.threads ++ [.running task] } := by
  have hmem : ∀ t, t.isCall = false →
      t ∈ tasks { p with threads := p.threads ++ [.running task] } → t ∈ p.tasks := by
    intro t ht hmem
    rcases mem_tasks_call.mp hmem with hmem | rfl
    · exact hmem
    · rw [ht] at hcall
      cases hcall
  have hjoining : task.isJoining = false := by cases task <;> first | rfl | cases hcall
  exact {
    left := fun hleft => h.left (hmem _ rfl hleft)
    joining := by
      rw [total_call, hjoining]
      exact h.joining
    returned := fun hdown => h.returned (hmem _ rfl hdown)
    charge := by
      intro hcharge
      refine (h.charge hcharge).imp (fun hjoin => ?_) (fun hall => ?_)
      · exact mem_tasks_call.mpr (Or.inl hjoin)
      · rw [allLeft_iff] at hall ⊢
        rw [tasks_call, List.take_append_of_le_length hworkers]
        exact hall }

theorem Closing.advance (h : Closing p) (htask : p.tasks[i]? = some task)
    (hadvance : Advance p task task' q) (hreaches : Reaches p i task' q p') : Closing p' := by
  have hdata : p' = { q with threads := p'.threads } := hreaches.data
  have hclosed : p'.isClosed = q.isClosed := by rw [hdata]
  have hqueue : p'.queue = q.queue := by rw [hdata]
  have hcharge : p'.isInCharge = q.isInCharge := by rw [hdata]
  have hmem : task ∈ p.tasks := List.mem_of_getElem? htask
  exact {
    left := by
      intro hleft
      rw [hclosed, hqueue]
      rcases hreaches.mem_tasks hleft with hleft | rfl
      · obtain ⟨hbefore, hempty⟩ := h.left hleft
        obtain ⟨hafter, hsuffix⟩ := hadvance.suffix_of_closed hbefore
        exact ⟨hafter, List.suffix_nil.mp (hempty ▸ hsuffix)⟩
      · exact hadvance.closed_of_left
    joining := by
      have hstep := hreaches.total_add (fun t => t.isJoining.toNat) htask
      have hbefore := h.joining
      have hmoved := hadvance.joining
      rw [hcharge]
      omega
    returned := by
      intro hdown
      rw [hcharge]
      rcases hreaches.mem_tasks hdown with hdown | hdown
      · exact hadvance.inCharge_mono (h.returned hdown)
      · exact hadvance.inCharge_of_shutDown hdown.symm fun hjoin =>
          h.inCharge_of_join (hjoin ▸ hmem)
    charge := by
      intro hafter
      rw [hcharge] at hafter
      rcases hadvance.inCharge_cases hafter with ⟨hbefore, hne⟩ | rfl | hall
      · refine (h.charge hbefore).imp (fun hjoin => ?_) (hreaches.allLeft hadvance htask)
        rw [hreaches.tasks]
        exact mem_set_of_ne hjoin htask hne
      · left
        rw [hreaches.tasks]
        exact List.mem_set ((List.getElem?_eq_some_iff.mp htask).1) _
      · exact Or.inr (hreaches.allLeft hadvance htask hall) }

end Pool

open Pool

namespace Ledger

variable {l l' : Ledger} {config : Config}

/-- The pool has done its work and its workers have left. -/
structure Drained (l : Ledger) : Prop where
  isClosed : l.pool.isClosed = true
  queue : l.pool.queue = []
  inFlight : l.pool.inFlight = 0
  left : ∀ i < l.pool.config.workers, l.pool.tasks[i]? = some .left
  executed : ∀ e ∈ l.accepted, 0 < l.executions e

/-- A pool whose workers have left has done all its work. -/
theorem drained_of_allLeft (hbalanced : l.Balanced) (htallied : l.Tallied)
    (hclosing : l.pool.Closing) (hworkers : 0 < l.pool.config.workers)
    (hall : l.pool.allLeft = true) : l.Drained := by
  have hleft : ∀ i < l.pool.config.workers, l.pool.tasks[i]? = some .left := by
    intro i hi
    have hlt : i < l.pool.tasks.length := Nat.lt_of_lt_of_le hi hbalanced.workers_le
    have htask : (l.pool.tasks.take l.pool.config.workers)[i]? = some l.pool.tasks[i] := by
      rw [List.getElem?_take_of_lt hi, List.getElem?_eq_getElem hlt]
    rw [List.getElem?_eq_getElem hlt, allLeft_iff.mp hall _ (List.mem_of_getElem? htask)]
  obtain ⟨hclosed, hqueue⟩ := hclosing.left (List.mem_of_getElem? (hleft 0 hworkers))
  have hidle : ∀ t ∈ l.pool.tasks, t.isWorking = false := by
    intro t ht
    obtain ⟨i, hi⟩ := List.getElem?_of_mem ht
    by_cases hlt : i < l.pool.config.workers
    · rw [Option.some.inj (hi.symm.trans (hleft i hlt))]
      rfl
    · exact Task.isWorking_of_caller (mt (hbalanced.task_role_iff hi).mp hlt)
  have hinFlight : l.pool.inFlight = 0 := by
    rw [htallied.inFlight]
    exact total_eq_zero fun t ht => by rw [hidle t ht]; rfl
  exact ⟨hclosed, hqueue, hinFlight, hleft, fun e he =>
    executed_of_idle hidle hbalanced htallied hqueue he⟩

/-- What the calls of shutdown bring about. -/
structure ClosesCleanly (l : Ledger) : Prop where
  /-- A call that has waited for the workers returns when the pool is drained. -/
  waited : ∀ i choice l', l.pool.tasks[i]? = some .join →
    l.after? (.step i choice) = some l' → l'.pool.tasks[i]? = some .shutDown ∧ l'.Drained
  /-- When a call has returned, the pool is drained, unless another one still waits. -/
  returned : .shutDown ∈ l.pool.tasks → l.Drained ∨ .join ∈ l.pool.tasks
  /-- At most one call waits. -/
  joining : l.pool.tasks.countP Task.isJoining ≤ 1
  /-- The first call that asks for the workers takes charge of them and waits. -/
  charged : l.pool.isInCharge = false → ∀ i choice, l.pool.tasks[i]? = some .takeCharge →
    ∃ l', l.after? (.step i choice) = some l' ∧
      l'.pool = { l.pool.goOn i .join with isInCharge := true }
  /-- A call that finds them taken returns at once, whatever is queued or in flight. -/
  turnedAway : l.pool.isInCharge = true → ∀ i choice, l.pool.tasks[i]? = some .takeCharge →
    ∃ l', l.after? (.step i choice) = some l' ∧ l'.pool = l.pool.goOn i .shutDown
  /-- Nothing comes into the queue of a closed pool. -/
  closed : l.pool.isClosed = true → ∀ actions l', l.run? actions = some l' →
    l'.pool.isClosed = true ∧ l'.pool.queue <:+ l.pool.queue
  /-- A call that comes to submit its mutation to a closed pool is refused. -/
  refused : l.pool.isClosed = true → ∀ i m choice,
    l.pool.threads[i]? = some (.running (.offer m)) → ∃ l', l.after? (.step i choice) = some l' ∧
      l'.pool.queue = l.pool.queue ∧ l'.pool.tasks[i]? = some (.submitted (.error .poolClosed))
  /-- A call that replays stops in a closed pool, and says so. -/
  interrupted : l.pool.isClosed = true → ∀ i n f fs choice,
    l.pool.threads[i]? = some (.running (.resubmit n (f :: fs))) →
      ∃ l', l.after? (.step i choice) = some l' ∧
        l'.pool.queue = l.pool.queue ∧ l'.pool.tasks[i]? = some (.restore n (f :: fs))
  restored : ∀ i n fs choice, l.pool.tasks[i]? = some (.restore n fs) →
    ∃ l', l.after? (.step i choice) = some l' ∧
      l'.pool.queue = l.pool.queue ∧ l'.pool.tasks[i]? = some (.replayed (.error .poolClosed))

theorem Closing.after? {a : Pool.Action} (h : l.pool.Closing) (hbalanced : l.Balanced)
    (hafter : l.after? a = some l') : l'.pool.Closing := by
  rcases after?_cases hafter with
    ⟨task, hcall, rfl⟩ | ⟨i, task, task', q, htask, hadvance, hreaches, -⟩
  · exact h.call hcall hbalanced.workers_le
  · exact h.advance htask hadvance hreaches

theorem closing_of_run? {actions : List Pool.Action}
    (hrun : (start config).run? actions = some l) : l.pool.Closing := by
  have hall : l.pool.Closing ∧ l.Balanced :=
    run?_induction (motive := fun l => l.pool.Closing ∧ l.Balanced)
      ⟨closing_fresh config, History.balanced_start config⟩
      (fun h hafter => ⟨Closing.after? h.1 h.2 hafter, h.2.after? (toHistory_after? hafter)⟩) hrun
  exact hall.1

theorem wakeful_of_run? {actions : List Pool.Action} (hworkers : 0 < config.workers)
    (hrun : (start config).run? actions = some l) : l.pool.Wakeful :=
  run?_induction (motive := fun l => l.pool.Wakeful) (wakeful_fresh hworkers)
    (fun h hafter => h.after? (pool_after? hafter)) hrun

/-! ## Single steps -/

section
variable {i choice : Nat} {task : Task}

/-- A thread that is not parked carries out its task. -/
theorem exists_step {p : Pool} (hthread : l.pool.threads[i]? = some (.running task))
    (hperform : l.pool.perform? i choice task = some p) :
    ∃ l', l.after? (.step i choice) = some l' ∧ l'.pool = p :=
  exists_after? ((after?_step hthread).trans hperform)

/-- A call that enqueues in a closed pool goes on without its mutation. -/
theorem offer_closed {m : Pending} {refused accepted : Task} (hclosed : l.pool.isClosed = true)
    (hthread : l.pool.threads[i]? = some (.running task))
    (hperform : l.pool.perform? i choice task =
      some (l.pool.offer i choice m task refused accepted)) :
    ∃ l', l.after? (.step i choice) = some l' ∧
      l'.pool.queue = l.pool.queue ∧ l'.pool.tasks[i]? = some refused := by
  rw [offer, if_pos hclosed] at hperform
  obtain ⟨l', hafter, hpool⟩ := exists_step hthread hperform
  refine ⟨l', hafter, ?_⟩
  rw [hpool]
  exact ⟨rfl, tasks_goOn (getElem?_tasks hthread)⟩

end

/-! ## The result -/

theorem closesCleanly {actions : List Pool.Action} (hworkers : 0 < config.workers)
    (hrun : (start config).run? actions = some l) : l.ClosesCleanly := by
  have hbalanced : l.Balanced := balanced_of_run? hrun
  have htallied : l.Tallied := tallied_of_run? hrun
  have hclosing : l.pool.Closing := closing_of_run? hrun
  have hwakeful : l.pool.Wakeful := wakeful_of_run? hworkers hrun
  have hconfig : l.pool.config = config := config_of_run? hrun
  exact {
    waited := by
      intro i choice l' htask hafter
      have hperform := perform?_of_step htask hafter
      rw [perform?] at hperform
      split at hperform
      · rename_i hall
        have hpool := Option.some.inj hperform
        have hleft : l'.pool.allLeft = true :=
          hpool ▸ reaches_goOn.allLeft (.join hall) htask hall
        refine ⟨hpool ▸ tasks_goOn htask, ?_⟩
        apply drained_of_allLeft (hbalanced.after? (toHistory_after? hafter))
          (htallied.after? hafter) (Closing.after? hclosing hbalanced hafter) _ hleft
        rwa [config_after? hafter, hconfig]
      · cases hperform
    returned := by
      intro hdown
      refine (hclosing.charge (hclosing.returned hdown)).symm.imp_left fun hall => ?_
      exact drained_of_allLeft hbalanced htallied hclosing (hconfig ▸ hworkers) hall
    joining := by
      have hle := hclosing.joining
      have hone : l.pool.isInCharge.toNat ≤ 1 := Bool.toNat_le _
      rw [total_toNat] at hle
      omega
    charged := by
      intro hfree i choice htask
      obtain ⟨l', hafter, hpool⟩ := exists_step (hwakeful.running htask rfl) rfl
      rw [hfree, if_neg Bool.false_ne_true] at hpool
      exact ⟨l', hafter, hpool⟩
    turnedAway := by
      intro htaken i choice htask
      obtain ⟨l', hafter, hpool⟩ := exists_step (hwakeful.running htask rfl) rfl
      have hsame : { l.pool.goOn i .shutDown with isInCharge := true } =
          l.pool.goOn i .shutDown := by
        rw [← htaken]
        rfl
      rw [htaken, if_pos rfl, hsame] at hpool
      exact ⟨l', hafter, hpool⟩
    closed := by
      intro hclosed more l' hmore
      refine foldlM_induction (motive := fun l' : Ledger =>
        l'.pool.isClosed = true ∧ l'.pool.queue <:+ l.pool.queue)
        ⟨hclosed, List.suffix_rfl⟩ ?_ hmore
      intro l₁ l₂ a h hafter
      rcases after?_cases hafter with
        ⟨task, -, rfl⟩ | ⟨i, task, task', q, -, hadvance, hreaches, -⟩
      · exact h
      · obtain ⟨hafter, hsuffix⟩ := hadvance.suffix_of_closed h.1
        rw [hreaches.data]
        exact ⟨hafter, hsuffix.trans h.2⟩
    refused := fun hclosed i m choice hthread => offer_closed hclosed hthread rfl
    interrupted := fun hclosed i n f fs choice hthread => offer_closed hclosed hthread rfl
    restored := by
      intro i n fs choice htask
      obtain ⟨l', hafter, hpool⟩ := exists_step (hwakeful.running htask rfl) rfl
      refine ⟨l', hafter, ?_⟩
      rw [hpool]
      exact ⟨rfl, tasks_goOn htask⟩ }

/-- A mutation is accepted, and then two calls shut the pool down. The first waits for the worker,
and the second returns. -/
def overlapping : List Pool.Action :=
  [.call (.request ⟨.set, "a", []⟩), .step 1 0, .step 1 0, .step 1 0, .call .close, .step 2 0,
    .step 2 0, .step 2 0, .step 2 0, .call .close, .step 3 0, .step 3 0, .step 3 0, .step 3 0]

/-- A call of shutdown has returned, and the mutation that was accepted is still in the queue. -/
theorem returns_before_drained :
    ∃ l, (start ⟨1, 1, 1⟩).run? overlapping = some l ∧
      l.pool.tasks = [.fetch, .submitted (.ok 1), .join, .shutDown] ∧
      l.accepted = [(1, ⟨.set, "a", []⟩)] ∧ l.pool.queue = [⟨1, ⟨.set, "a", []⟩, 0⟩] ∧
      l.executed = [] := by
  have hview : ((start ⟨1, 1, 1⟩).run? overlapping).map
      (fun l => (l.pool.tasks, l.accepted, l.pool.queue, l.executed)) =
      some ([.fetch, .submitted (.ok 1), .join, .shutDown], [(1, ⟨.set, "a", []⟩)],
        [⟨1, ⟨.set, "a", []⟩, 0⟩], []) := rfl
  obtain ⟨l, hrun, hview⟩ := Option.map_eq_some_iff.mp hview
  simp only [Prod.mk.injEq] at hview
  exact ⟨l, hrun, hview⟩

/-- The worker executes the mutation and leaves, and the call that has waited for it returns. -/
theorem closesCleanly_overlapping :
    ∃ l, (start ⟨1, 1, 1⟩).run? (overlapping ++ [.step 0 0, .finish 0 (.ok ()) 7, .step 0 0,
        .step 0 0, .step 0 0, .step 2 0]) = some l ∧
      l.pool.tasks = [.left, .submitted (.ok 1), .shutDown, .shutDown] ∧ l.ClosesCleanly := by
  have hview : ((start ⟨1, 1, 1⟩).run? (overlapping ++ [.step 0 0, .finish 0 (.ok ()) 7,
      .step 0 0, .step 0 0, .step 0 0, .step 2 0])).map (fun l => l.pool.tasks) =
      some [.left, .submitted (.ok 1), .shutDown, .shutDown] := rfl
  obtain ⟨l, hrun, htasks⟩ := Option.map_eq_some_iff.mp hview
  exact ⟨l, hrun, htasks, closesCleanly (by decide) hrun⟩

end Ledger

end GraphQuery
