import GraphQuery.Proofs.Rounds

/-!
# Every campaign settles

In whichever order its threads take their turns, a campaign comes to an end.

* A run cannot go on for ever (`length_le_potential`).  `Campaign.potential`
  bounds the events that are left: each mutation is good for some turns for
  every round in which it may still be tried, and between two of those every
  thread can park itself once.
* When nothing can happen any more, the caller has made its last call and the
  call has returned (`Reached.settled`).  Otherwise somebody would be awake,
  or wait for something that is already there.
-/

namespace GraphQuery

open Pool

theorem PoolSettings.capacity_pos (s : PoolSettings) : 0 < s.capacity := by
  unfold capacity
  split_ifs with h
  · exact Nat.le_max_left 1 _
  · exact Nat.pos_of_ne_zero fun hnone => h (UInt64.toNat.inj hnone)

namespace Pool

variable {p q : Pool} {task task' : Task} {n : Nat}

/-- How many turns a thread with the task can still bring about, its own and those of the workers
that execute what it puts into the queue, if the retry list has at most so many mutations. -/
def Task.cost (n : Nat) : Task → Nat
  | execute _ => 4
  | account _ _ _ => 3
  | keep _ => 2
  | release => 1
  | request _ => 8
  | offer _ => 7
  | confirm _ => 1
  | collect => 3 + 6 * n
  | giveBack _ fresh => 2 + 6 * fresh.length
  | resubmit _ remaining => 1 + 6 * remaining.length
  | restore _ _ | take | await _ | join => 1
  | close => 5
  | wakeWorkers => 4
  | wakeCallers => 3
  | takeCharge => 2
  | fetch | left | submitted _ | replayed _ | taken _ | flushed _ | shutDown => 0

/-- A thread that goes on uses up a turn. -/
theorem Advance.cost_lt (h : Advance p task task' q) (hne : task' ≠ task)
    (hopen : p.isClosed = false) (hretries : task = .collect → p.retries.length ≤ n) :
    task'.cost n + 5 * q.queue.length < task.cost n + 5 * p.queue.length := by
  have hfresh : (p.retries.filter p.mayRetry).length ≤ p.retries.length :=
    List.length_filter_le _ _
  cases h with
  | park => exact absurd rfl hne
  | fetch hqueue =>
    simp [Task.cost, hqueue]
    omega
  | leave hqueue hclosed =>
    rw [hopen] at hclosed
    cases hclosed
  | accept | resubmit =>
    simp [Task.cost]
    omega
  | collectFresh | collect =>
    have hlist := hretries rfl
    simp [Task.cost]
    omega
  | takeCharge => split <;> simp [Task.cost]
  | interrupt =>
    simp [Task.cost]
  | _ => simp [Task.cost]

end Pool

namespace Campaign

variable {c : Campaign} {k i : Nat} {task task' : Task} {l l' : Ledger} {current : Option Task}
  {q : Pool}

/-! ## A campaign comes to an end -/

/-- How many turns can still be taken in which something happens. -/
def work (c : Campaign) (l : Ledger) : Nat :=
  l.pool.total (Task.cost c.statements.length) + 5 * l.pool.queue.length +
    ((c.calls.drop (l.pool.tasks.length - l.pool.config.workers)).map
      fun t => t.cost c.statements.length + 1).sum

/-- The largest number of threads in a campaign. -/
def threads (c : Campaign) : Nat := c.settings.config.workers + c.calls.length

/-- More events than can still happen. -/
def potential (c : Campaign) (l : Ledger) : Nat :=
  c.work l * (c.threads + 1) + l.pool.threads.countP (!·.isParked)

theorem Reached.length_threads (h : c.Reached l) : l.pool.threads.length ≤ c.threads := by
  obtain ⟨k, current, hunderway⟩ := h.underway
  have hcallers := hunderway.length_callers
  have hbounded := hunderway.bounded
  have hworkers : l.pool.config.workers ≤ l.pool.tasks.length := h.balanced.workers_le
  rw [hunderway.config] at hcallers hworkers
  rw [tasks, List.length_map] at hcallers hworkers
  unfold threads
  omega

/-- The retry list has no more mutations than were submitted when a call takes it. -/
theorem Reached.length_retries (h : c.Reached l) (htask : l.pool.tasks[i]? = some .collect) :
    l.pool.retries.length ≤ c.statements.length := by
  obtain ⟨k, current, hunderway⟩ := h.underway
  have hcaller : ¬i < l.pool.config.workers := by
    rw [← h.balanced.task_role_iff htask]
    exact Role.noConfusion
  obtain ⟨rfl, -⟩ := hunderway.eq_current hcaller htask rfl
  have hle : c.statements.length ≤ k := by
    rcases calls_cases (hunderway.course .collect rfl) with ⟨s, -, hother, -⟩ | ⟨hle, -⟩
    · cases hother
    · exact hle
  have hperm := hunderway.perm_entries h.balanced h.tallied hle (hunderway.calm (Or.inl rfl))
    fun t ht => by
      obtain rfl := Option.some.inj ht
      rfl
  have hlength := hperm.length_eq
  rw [List.length_map, List.length_append, List.length_map, length_entries] at hlength
  omega

theorem potential_lt_of_work (hthreads : l'.pool.threads.length ≤ c.threads)
    (hwork : c.work l' < c.work l) : c.potential l' < c.potential l := by
  have hawake : l'.pool.threads.countP (!·.isParked) ≤ c.threads :=
    List.countP_le_length.trans hthreads
  have hmul : (c.work l' + 1) * (c.threads + 1) ≤ c.work l * (c.threads + 1) :=
    Nat.mul_le_mul_right _ hwork
  rw [Nat.add_mul, Nat.one_mul] at hmul
  unfold potential
  omega

/-- The work of a call that comes in was counted before. -/
theorem work_call (hworkers : l.pool.config.workers ≤ l.pool.tasks.length)
    (hcall : c.calls[l.pool.tasks.length - l.pool.config.workers]? = some task) :
    c.work { l with
      pool := { l.pool with threads := l.pool.threads ++ [.running task] }
      begun := l.begun ++ [task] } < c.work l := by
  obtain ⟨hk, hget⟩ := List.getElem?_eq_some_iff.mp hcall
  have hlength : (l.pool.tasks ++ [task]).length - l.pool.config.workers =
      l.pool.tasks.length - l.pool.config.workers + 1 := by
    rw [List.length_append, List.length_singleton]
    omega
  show total _ { l.pool with threads := _ } + 5 * l.pool.queue.length +
    ((c.calls.drop ((tasks { l.pool with threads := _ }).length - l.pool.config.workers)).map
      _).sum < c.work l
  rw [tasks_call, hlength, total_call, work, List.drop_eq_getElem_cons hk, List.map_cons,
    List.sum_cons, hget]
  omega

/-- A thread that parks itself has its work still before it. -/
theorem work_park (hthread : l.pool.threads[i]? = some (.running task)) :
    c.work { l with pool := l.pool.park i task } = c.work l := by
  show (total _ (l.pool.park i task)) + 5 * l.pool.queue.length +
    ((c.calls.drop ((l.pool.park i task).tasks.length - l.pool.config.workers)).map _).sum = _
  rw [total, tasks_park hthread]
  rfl

theorem work_lt (htask : l.pool.tasks[i]? = some task) (hadvance : Advance l.pool task task' q)
    (hreaches : Reaches l.pool i task' q l'.pool)
    (hcost : task'.cost c.statements.length + 5 * q.queue.length <
      task.cost c.statements.length + 5 * l.pool.queue.length) : c.work l' < c.work l := by
  have hqueue : l'.pool.queue = q.queue := by rw [hreaches.data]
  have hconfig : l'.pool.config = l.pool.config := by rw [hreaches.data, ← hadvance.config_eq]
  have htotal := hreaches.total_add (Task.cost c.statements.length) htask
  have hlength := congrArg List.length hreaches.tasks
  rw [List.length_set] at hlength
  rw [work, work, hqueue, hlength, hconfig]
  omega

theorem Reached.potential_lt {event : Event} (h : c.Reached l)
    (hafter : c.after? l event = some l') : c.potential l' < c.potential l := by
  have hthreads := (h.after? hafter).length_threads
  rcases after?_cases hafter with ⟨task, -, hcall, rfl⟩ |
    ⟨i, task, hthread, ⟨hcondition, rfl⟩ | ⟨task', q, choice, hadvance, hne, -, rfl⟩⟩
  · exact potential_lt_of_work hthreads (work_call h.balanced.workers_le hcall)
  · have hparked : (l.pool.threads.set i ⟨task, true⟩).countP (!·.isParked) + 1 =
        l.pool.threads.countP (!·.isParked) := countP_set hthread
    show c.work { l with pool := l.pool.park i task } * (c.threads + 1) +
      (l.pool.threads.set i ⟨task, true⟩).countP (!·.isParked) < c.potential l
    rw [work_park hthread, potential]
    omega
  · refine potential_lt_of_work hthreads ?_
    have htask : l.pool.tasks[i]? = some task := getElem?_tasks hthread
    obtain ⟨k, current, hunderway⟩ := h.underway
    exact work_lt htask hadvance reaches_wake <|
      hadvance.cost_lt hne hunderway.isOpen fun hcollect => h.length_retries (hcollect ▸ htask)

theorem length_le_potential {events : List Event} (h : c.Reached l)
    (hrun : events.foldlM c.after? l = some l') :
    events.length + c.potential l' ≤ c.potential l := by
  induction events generalizing l with
  | nil =>
    obtain rfl := Option.some.inj hrun
    exact Nat.le_of_eq (Nat.zero_add _)
  | cons event events ih =>
    rw [List.foldlM_cons] at hrun
    obtain ⟨next, hnext, hrest⟩ := Option.bind_eq_some_iff.mp hrun
    have hlater := ih (h.after? hnext) hrest
    have hfirst := h.potential_lt hnext
    rw [List.length_cons]
    omega

/-! ## The end of a campaign -/

/-- When no event is possible, every thread is at rest. -/
theorem isAtRest_of_stuck (hstuck : ∀ event, c.after? l event = none) :
    ∀ t ∈ l.pool.threads, t.isAtRest = true := by
  intro t ht
  obtain ⟨i, hi⟩ := List.getElem?_of_mem ht
  have hstep : l.pool.after? (.step i 0) = none := by
    simpa [after?, action?, Ledger.after?, History.after?] using hstuck (.step i 0)
  refine (isAtRest_of_step hi hstep).resolve_right ?_
  rintro ⟨m, rfl⟩
  have htask : l.pool.tasks[i]? = some (.execute m) := getElem?_tasks hi
  have hfinish := hstuck (.finish i 0)
  simp [after?, action?, htask, Ledger.after?, History.after?, Pool.after?, hi, Thread.running]
    at hfinish

/-- The caller is awake, or it waits for room or for the end of the work. -/
theorem Course.not_isAtRest {t : Thread} (h : c.Course k t.task)
    (hparked : t.isParked = true → t.task.condition?.isSome)
    (hspace : t.waitsFor .space = false) (hidle : t.waitsFor .idle = false) :
    ¬t.isAtRest = true := by
  obtain ⟨task, isParked⟩ := t
  cases isParked with
  | false => cases task <;> first | exact Bool.false_ne_true | cases h
  | true =>
    cases task with
    | offer m => cases hspace
    | await isTimed => cases hidle
    | resubmit done remaining =>
      cases remaining with
      | nil => cases hparked rfl
      | cons f remaining => cases hspace
    | request s | confirm id | collect | giveBack exhausted fresh => cases hparked rfl
    | _ => cases h

/-- When every thread is at rest and nobody waits for the pool, no call is going on. -/
theorem Underway.eq_none_of_atRest (h : c.Underway k current l) (hwakeful : l.pool.Wakeful)
    (hrest : ∀ t ∈ l.pool.threads, t.isAtRest = true)
    (hspace : waiting .space l.pool.threads = 0) (hidle : waiting .idle l.pool.threads = 0) :
    current = none := by
  cases current with
  | none => rfl
  | some task =>
    have htask : task ∈ l.pool.tasks := by
      refine List.mem_of_mem_drop (i := l.pool.config.workers) ?_
      rw [h.answers]
      exact List.mem_append_right _ (List.mem_singleton_self task)
    obtain ⟨t, ht, rfl⟩ := List.mem_map.mp htask
    have hcourse : c.Course k t.task := h.course t.task rfl
    have hasleep : ∀ condition, waiting condition l.pool.threads = 0 →
        t.waitsFor condition = false := fun condition hnone =>
      Bool.eq_false_iff.mpr (List.countP_eq_zero.mp hnone t ht)
    exact absurd (hrest t ht) (hcourse.not_isAtRest (hwakeful.parked t ht)
      (hasleep .space hspace) (hasleep .idle hidle))

/-- When the caller can make no call, it has made all. -/
theorem Underway.length_calls_le (h : c.Underway k none l)
    (hmutations : ∀ s ∈ c.statements, s.isMutation = true) (hstuck : c.after? l .call = none) :
    c.calls.length ≤ k := by
  have hover : (l.pool.tasks.drop l.pool.config.workers).all Task.isOver = true := by
    rw [h.answers, List.all_eq_true]
    intro t ht
    exact (isOver_of_answers (List.mem_of_mem_take (by simpa using ht))).1
  have hposition : l.pool.tasks.length - l.pool.config.workers = k := h.length_callers
  by_contra hmore
  have hnext : c.calls[k]? = some c.calls[k] := List.getElem?_eq_getElem (Nat.lt_of_not_le hmore)
  have hisCall : (c.calls[k]).isCall = true := by
    rcases calls_cases hnext with ⟨s, hs, heq, -⟩ | ⟨-, ⟨-, heq, -⟩ | ⟨-, heq, -⟩⟩
    · rw [heq]
      exact hmutations s (List.mem_of_getElem? hs)
    · rw [heq]
      rfl
    · rw [heq]
      rfl
  rw [Campaign.after?, action?, if_pos hover, hposition, hnext] at hstuck
  simp [Ledger.after?, History.after?, Pool.after?, hisCall] at hstuck

/-- When no event is possible, all calls have returned and the pool is idle. -/
theorem Reached.settled (h : c.Reached l) (hmutations : ∀ s ∈ c.statements, s.isMutation = true)
    (hstuck : ∀ event, c.after? l event = none) :
    c.Underway c.calls.length none l ∧ l.pool.isIdle = true := by
  obtain ⟨k, current, hunderway⟩ := h.underway
  have hrest := isAtRest_of_stuck hstuck
  have hcapacity : 0 < l.pool.config.capacity := by
    rw [hunderway.config]
    exact c.settings.capacity_pos
  obtain ⟨hqueue, hworking, hspace⟩ := h.wakeful.atRest hcapacity hrest
  have hinFlight : l.pool.inFlight = 0 := by
    rw [h.tallied.inFlight]
    refine total_eq_zero fun task htask => ?_
    obtain ⟨t, ht, rfl⟩ := List.mem_map.mp htask
    rw [hworking t ht]
    rfl
  have hidle : l.pool.isIdle = true := isIdle_iff.mpr ⟨hqueue, hinFlight⟩
  obtain rfl : current = none :=
    hunderway.eq_none_of_atRest h.wakeful hrest hspace (h.wakeful.idle hidle)
  have hk : k = c.calls.length :=
    Nat.le_antisymm hunderway.bounded (hunderway.length_calls_le hmutations (hstuck .call))
  exact ⟨hk ▸ hunderway, hidle⟩

end Campaign

end GraphQuery
