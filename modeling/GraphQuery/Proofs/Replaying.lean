import GraphQuery.Proofs.Tallies

/-!
# What a replay does with the retry list

A call of replay takes the whole retry list.  The entries that were tried too
often it puts back; the others it puts into the queue one by one, as far as
the pool is not closed, and the rest it puts back as well.  Meanwhile other
threads use the queue and the retry list, too.

`Contributes` picks out what one thread adds to the queue, the retry list and
the counter of replays, whatever happens between its turns.  `Pool.replays`
says that a replay contributes a partition of the list that it took: a first
part of the fresh entries goes to the queue and everything else, unchanged, to
the retry list, and the call counts and reports the length of that part.  The
run leaves no choice as to what these parts are (`Contributes.unique`).

`Yields` says the same of the task at which the call is, so that each advance
of the call takes one step of it (`Advance.yields`).

A mutation in the queue has tries left, and one outside of it has had at most
all of them (`Limited`).
-/

namespace GraphQuery.Pool

variable {p q p' : Pool} {i : Nat} {task task' : Task} {queued : List Pending}
  {kept : List Failed} {counted : Nat} {result : Except Error Nat}

/-! ## What one thread adds -/

/-- On the way to the last pool, the thread puts the mutations into the queue and the entries into
the retry list, each behind what is there, and counts so many replays. -/
inductive Contributes (i : Nat) (last : Pool) :
    Pool → List Action → List Pending → List Failed → Nat → Prop where
  | nil : Contributes i last last [] [] [] 0
  | own {p p' : Pool} {a : Action} {actions : List Action} {ms queued : List Pending}
      {fs kept : List Failed} {n counted : Nat} (ha : a.thread? = some i)
      (hafter : p.after? a = some p') (hqueue : p'.queue = p.queue ++ ms)
      (hretries : p'.retries = p.retries ++ fs) (hcounters : p'.counters = p.countReplayed n)
      (h : Contributes i last p' actions queued kept counted) :
      Contributes i last p (a :: actions) (ms ++ queued) (fs ++ kept) (n + counted)
  | other {p p' : Pool} {a : Action} {actions : List Action} {queued : List Pending}
      {kept : List Failed} {counted : Nat} (ha : a.thread? ≠ some i)
      (hafter : p.after? a = some p') (h : Contributes i last p' actions queued kept counted) :
      Contributes i last p (a :: actions) queued kept counted

/-- A run leaves no choice as to what a thread adds. -/
theorem Contributes.unique {last : Pool} {actions : List Action} {queued' : List Pending}
    {kept' : List Failed} {counted' : Nat} (h : Contributes i last p actions queued kept counted)
    (h' : Contributes i last p actions queued' kept' counted') :
    queued = queued' ∧ kept = kept' ∧ counted = counted' := by
  induction h generalizing queued' kept' counted' with
  | nil =>
    cases h'
    exact ⟨rfl, rfl, rfl⟩
  | own ha hafter hqueue hretries hcounters h ih =>
    cases h' with
    | own ha' hafter' hqueue' hretries' hcounters' h' =>
      obtain rfl := Option.some.inj (hafter.symm.trans hafter')
      obtain ⟨rfl, rfl, rfl⟩ := ih h'
      have hms := List.append_cancel_left (hqueue.symm.trans hqueue')
      have hfs := List.append_cancel_left (hretries.symm.trans hretries')
      have hn := Nat.add_left_cancel
        (congrArg Counters.replayed (hcounters.symm.trans hcounters'))
      exact ⟨by rw [hms], by rw [hfs], by rw [hn]⟩
    | other ha' => exact absurd ha ha'
  | other ha hafter h ih =>
    cases h' with
    | own ha' => exact absurd ha' ha
    | other ha' hafter' h' =>
      obtain rfl := Option.some.inj (hafter.symm.trans hafter')
      exact ih h'

/-- A call of replay that is at the task still adds these before it returns. -/
inductive Yields : Task → List Pending → List Failed → Nat → Except Error Nat → Prop where
  | giveBack {exhausted fresh kept : List Failed} {queued : List Pending} {counted : Nat}
      {result : Except Error Nat} (h : Yields (.resubmit 0 fresh) queued kept counted result) :
      Yields (.giveBack exhausted fresh) queued (exhausted ++ kept) counted result
  | resubmit {done : Nat} {f : Failed} {remaining kept : List Failed} {queued : List Pending}
      {counted : Nat} {result : Except Error Nat}
      (h : Yields (.resubmit (done + 1) remaining) queued kept counted result) :
      Yields (.resubmit done (f :: remaining)) (f.mutation :: queued) kept counted result
  | interrupt {done : Nat} {f : Failed} {remaining : List Failed} :
      Yields (.resubmit done (f :: remaining)) [] (f :: remaining) done (.error .poolClosed)
  | complete {done : Nat} : Yields (.resubmit done []) [] [] done (.ok done)
  | restore {done : Nat} {remaining : List Failed} :
      Yields (.restore done remaining) [] remaining done (.error .poolClosed)
  | replayed {result : Except Error Nat} : Yields (.replayed result) [] [] 0 result

/-- A call that puts entries into the queue gets through with a first part of them. -/
theorem Yields.of_resubmit {done : Nat} {remaining : List Failed}
    (h : Yields (.resubmit done remaining) queued kept counted result) :
    ∃ k ≤ remaining.length, queued = (remaining.take k).map Failed.mutation ∧
      kept = remaining.drop k ∧ counted = done + k ∧
        result = if k = remaining.length then .ok (done + k) else .error .poolClosed := by
  induction remaining generalizing done queued with
  | nil =>
    cases h with
    | complete => exact ⟨0, Nat.le_refl 0, rfl, rfl, rfl, rfl⟩
  | cons f remaining ih =>
    cases h with
    | interrupt => exact ⟨0, Nat.zero_le _, rfl, rfl, rfl, rfl⟩
    | resubmit h =>
      obtain ⟨k, hk, hqueued, hkept, hcounted, hresult⟩ := ih h
      refine ⟨k + 1, Nat.succ_le_succ hk, by rw [hqueued]; rfl, hkept, by omega, ?_⟩
      rw [hresult, List.length_cons, Nat.add_right_comm done 1 k, Nat.add_assoc]
      simp

/-- What a call of replay does with the retry list that it has taken. -/
def collected (p : Pool) : Task :=
  if (p.retries.filter (!p.mayRetry ·)).isEmpty then .resubmit 0 (p.retries.filter p.mayRetry)
  else .giveBack (p.retries.filter (!p.mayRetry ·)) (p.retries.filter p.mayRetry)

theorem collected_role : p.collected.role = .replayer := by
  unfold collected
  split <;> rfl

theorem collected_ne : p.collected ≠ .collect := by
  unfold collected
  split <;> exact Task.noConfusion

/-- Besides what a call gets through with, it puts back the entries that were tried too often. -/
theorem Yields.of_collected (h : Yields p.collected queued kept counted result) :
    ∃ k ≤ (p.retries.filter p.mayRetry).length,
      queued = ((p.retries.filter p.mayRetry).take k).map Failed.mutation ∧
      kept = p.retries.filter (!p.mayRetry ·) ++ (p.retries.filter p.mayRetry).drop k ∧
      counted = k ∧
        result =
          if k = (p.retries.filter p.mayRetry).length then .ok k else .error .poolClosed := by
  unfold collected at h
  split at h
  · rename_i hnone
    obtain ⟨k, hk, hqueued, hkept, hcounted, hresult⟩ := h.of_resubmit
    rw [Nat.zero_add] at hcounted hresult
    exact ⟨k, hk, hqueued, by rw [List.isEmpty_iff.mp hnone, hkept, List.nil_append], hcounted,
      hresult⟩
  · cases h with
    | giveBack h =>
      obtain ⟨k, hk, hqueued, hkept, hcounted, hresult⟩ := h.of_resubmit
      rw [Nat.zero_add] at hcounted hresult
      exact ⟨k, hk, hqueued, by rw [hkept], hcounted, hresult⟩

/-- An advance of a call of replay adds something, and what the call still adds after it is the
rest. -/
theorem Advance.yields (h : Advance p task task' q) (hrole : task.role = .replayer)
    (hne : task ≠ .collect) (hyields : Yields task' queued kept counted result) :
    ∃ ms fs n, q.queue = p.queue ++ ms ∧ q.retries = p.retries ++ fs ∧
      q.counters = p.countReplayed n ∧
        Yields task (ms ++ queued) (fs ++ kept) (n + counted) result := by
  have hnothing : p.queue = p.queue ++ [] ∧ p.retries = p.retries ++ [] ∧
      p.counters = p.countReplayed 0 := by simp [countReplayed]
  obtain ⟨hqueue, hretries, hcounters⟩ := hnothing
  cases h with
  | park => exact ⟨[], [], 0, hqueue, hretries, hcounters, by simpa using hyields⟩
  | collectFresh | collect => exact absurd rfl hne
  | @giveBack exhausted fresh =>
    exact ⟨[], exhausted, 0, hqueue, rfl, hcounters, by simpa using hyields.giveBack⟩
  | @resubmit done f remaining =>
    exact ⟨[f.mutation], [], 0, rfl, hretries, hcounters, by simpa using hyields.resubmit⟩
  | interrupt =>
    cases hyields
    exact ⟨[], [], 0, hqueue, hretries, hcounters, by simpa using .interrupt⟩
  | @replayed done =>
    cases hyields
    exact ⟨[], [], done, hqueue, hretries, rfl, .complete⟩
  | @restore done remaining =>
    cases hyields
    exact ⟨[], remaining, done, hqueue, rfl, rfl, by simpa using .restore⟩
  | _ => cases hrole

theorem Advance.ne_collect (h : Advance p task task' q) (hne : task ≠ .collect) :
    task' ≠ .collect := by
  cases h with
  | park => exact hne
  | takeCharge => split <;> exact Task.noConfusion
  | _ => exact Task.noConfusion

/-- Until it returns, a call of replay adds what its task yields, whatever other threads do. -/
theorem contributes_of_run? {last : Pool} {actions : List Action}
    (hrun : p.run? actions = some last) (htask : p.tasks[i]? = some task)
    (hrole : task.role = .replayer) (hne : task ≠ .collect)
    (hreturned : last.tasks[i]? = some (.replayed result)) :
    ∃ queued kept counted, Contributes i last p actions queued kept counted ∧
      Yields task queued kept counted result := by
  induction actions generalizing p task with
  | nil =>
    obtain rfl : p = last := Option.some.inj hrun
    obtain rfl : task = .replayed result := Option.some.inj (htask.symm.trans hreturned)
    exact ⟨[], [], 0, .nil, .replayed⟩
  | cons a actions ih =>
    rw [run?, List.foldlM_cons] at hrun
    obtain ⟨next, hafter, hrest⟩ := Option.bind_eq_some_iff.mp hrun
    rcases after?_cases hafter with ⟨call, rfl, -, rfl⟩ | ⟨j, other, ha, hother, hadvances⟩
    · obtain ⟨queued, kept, counted, hcontributes, hyields⟩ :=
        ih hrest (getElem?_tasks_call htask) hrole hne
      exact ⟨queued, kept, counted, .other (by simp [Action.thread?]) hafter hcontributes, hyields⟩
    · obtain ⟨task', q, hadvance, hreaches⟩ := hadvances
      by_cases hij : j = i
      · subst hij
        obtain rfl : other = task := Option.some.inj (hother.symm.trans htask)
        obtain ⟨queued, kept, counted, hcontributes, hyields⟩ := ih hrest
          (hreaches.getElem?_self htask) (hadvance.role_eq.trans hrole) (hadvance.ne_collect hne)
        obtain ⟨ms, fs, n, hqueue, hretries, hcounters, hmore⟩ := hadvance.yields hrole hne hyields
        have hdata := hreaches.data
        exact ⟨_, _, _, .own ha hafter (by rw [hdata, ← hqueue]) (by rw [hdata, ← hretries])
          (by rw [hdata, ← hcounters]) hcontributes, hmore⟩
      · obtain ⟨queued, kept, counted, hcontributes, hyields⟩ :=
          ih hrest ((hreaches.getElem?_of_ne hij).trans htask) hrole hne
        exact ⟨queued, kept, counted,
          .other (by rw [ha]; exact fun h => hij (Option.some.inj h)) hafter hcontributes, hyields⟩

/-! ## Attempts -/

/-- The mutations that a call is about to put into the queue. -/
def Task.toQueue : Task → List Pending
  | offer m => [m]
  | giveBack _ fresh => fresh.map Failed.mutation
  | resubmit _ remaining => remaining.map Failed.mutation
  | _ => []

/-- Whatever holds of new mutations and of those that may be tried once more holds of all that come
into the queue. -/
theorem Advance.forall_queued (holds : Pending → Prop) (h : Advance p task task' q)
    (hnew : ∀ id s, holds ⟨id, s, 0⟩) (hretry : ∀ f, p.mayRetry f = true → holds f.mutation)
    (hqueue : ∀ m ∈ p.queue, holds m) (htask : ∀ m ∈ task.toQueue, holds m) :
    (∀ m ∈ q.queue, holds m) ∧ ∀ m ∈ task'.toQueue, holds m := by
  have hfresh : ∀ m ∈ (p.retries.filter p.mayRetry).map Failed.mutation, holds m := by
    intro m hm
    obtain ⟨f, hf, rfl⟩ := List.mem_map.mp hm
    exact hretry f (List.of_mem_filter hf)
  cases h with
  | park => exact ⟨hqueue, htask⟩
  | fetch hfirst =>
    rw [hfirst] at hqueue
    exact ⟨(List.forall_mem_cons.mp hqueue).2, List.forall_mem_nil _⟩
  | request => exact ⟨hqueue, List.forall_mem_singleton.mpr (hnew _ _)⟩
  | accept => exact ⟨List.forall_mem_append.mpr ⟨hqueue, htask⟩, List.forall_mem_nil _⟩
  | collectFresh => exact ⟨hqueue, hfresh⟩
  | collect => exact ⟨hqueue, hfresh⟩
  | giveBack => exact ⟨hqueue, htask⟩
  | resubmit =>
    obtain ⟨hfirst, hrest⟩ := List.forall_mem_cons.mp htask
    exact ⟨List.forall_mem_append.mpr ⟨hqueue, List.forall_mem_singleton.mpr hfirst⟩, hrest⟩
  | takeCharge => split <;> exact ⟨hqueue, List.forall_mem_nil _⟩
  | _ => exact ⟨hqueue, List.forall_mem_nil _⟩

/-- Mutations in the queue and on their way to it have tries left, and no mutation has had more
than there are. -/
structure Limited (limit : Nat) (p : Pool) : Prop where
  queue : ∀ m ∈ p.queue, m.attempts < limit
  toQueue : ∀ t ∈ p.tasks, ∀ m ∈ t.toQueue, m.attempts < limit
  retries : ∀ f ∈ p.retries, f.mutation.attempts ≤ limit
  held : ∀ t ∈ p.tasks, ∀ m ∈ t.held, m.attempts ≤ limit

theorem limited_fresh (config : Config) (limit : Nat) : Limited limit (fresh config) := by
  exact {
    queue := List.forall_mem_nil _
    toQueue := fun t ht => by
      rw [eq_fetch_of_mem_fresh ht]
      exact List.forall_mem_nil _
    retries := List.forall_mem_nil _
    held := fun t ht => by
      rw [eq_fetch_of_mem_fresh ht]
      exact List.forall_mem_nil _ }

theorem Limited.call {limit : Nat} (h : Limited limit p) (hcall : task.isCall = true) :
    Limited limit { p with threads := p.threads ++ [.running task] } where
  queue := h.queue
  toQueue := by
    refine forall_tasks_call h.toQueue ?_
    cases task <;> first | exact List.forall_mem_nil _ | cases hcall
  retries := h.retries
  held := by
    refine forall_tasks_call h.held ?_
    rw [(Task.shares_of_call hcall).2.2.1]
    exact List.forall_mem_nil _

theorem Limited.advance (h : Limited (max 1 p.config.maxAttempts) p)
    (htask : p.tasks[i]? = some task) (hadvance : Advance p task task' q)
    (hreaches : Reaches p i task' q p') : Limited (max 1 p.config.maxAttempts) p' := by
  have hmem : task ∈ p.tasks := List.mem_of_getElem? htask
  obtain ⟨hqueue, htoQueue⟩ := hadvance.forall_queued (·.attempts < max 1 p.config.maxAttempts)
    (fun _ _ => Nat.lt_of_lt_of_le Nat.zero_lt_one (Nat.le_max_left _ _))
    (fun f hf => of_decide_eq_true hf) h.queue (h.toQueue task hmem)
  obtain ⟨hretries, hheld, -⟩ := hadvance.forall_tried (·.attempts ≤ max 1 p.config.maxAttempts)
    (fun m hm => h.queue m hm) h.retries (h.held task hmem)
  exact {
    queue := by
      rw [hreaches.data]
      exact hqueue
    toQueue := hreaches.forall_tasks h.toQueue htoQueue
    retries := by
      rw [hreaches.data]
      exact hretries
    held := hreaches.forall_tasks h.held hheld }

theorem Limited.after? {a : Action} (h : Limited (max 1 p.config.maxAttempts) p)
    (hafter : p.after? a = some p') : Limited (max 1 p'.config.maxAttempts) p' := by
  rcases after?_cases hafter with
    ⟨call, -, hcall, rfl⟩ | ⟨i, task, -, htask, task', q, hadvance, hreaches⟩
  · exact h.call hcall
  · have hconfig : p'.config = p.config := by rw [hreaches.data, ← hadvance.config_eq]
    rw [hconfig]
    exact h.advance htask hadvance hreaches

theorem limited_of_run? {config : Config} {actions : List Action}
    (hrun : (fresh config).run? actions = some p) : Limited (max 1 p.config.maxAttempts) p :=
  foldlM_induction (motive := fun p => Limited (max 1 p.config.maxAttempts) p)
    (limited_fresh config _) Limited.after? hrun

/-! ## The result -/

/-- How a pool keeps and replays what has failed. -/
structure Replays (p : Pool) : Prop where
  /-- No mutation has been tried more often than it may be. -/
  queue : ∀ m ∈ p.queue, m.attempts ≤ max 1 p.config.maxAttempts
  retries : ∀ f ∈ p.retries, f.mutation.attempts ≤ max 1 p.config.maxAttempts
  held : ∀ t ∈ p.tasks, ∀ m ∈ t.held, m.attempts ≤ max 1 p.config.maxAttempts
  /-- A call takes the whole retry list and nothing else.  Of those entries that may be tried once
  more it queues the first ones, and everything else it puts back; it succeeds if it has queued all
  of them. -/
  call : ∀ i choice p₁, p.tasks[i]? = some .collect → p.after? (.step i choice) = some p₁ →
    p₁.retries = [] ∧ p₁.queue = p.queue ∧ p₁.counters = p.counters ∧
      ∀ actions p₂ result, p₁.run? actions = some p₂ → p₂.tasks[i]? = some (.replayed result) →
        ∃ k ≤ (p.retries.filter p.mayRetry).length,
          Contributes i p₂ p₁ actions (((p.retries.filter p.mayRetry).take k).map Failed.mutation)
            (p.retries.filter (!p.mayRetry ·) ++ (p.retries.filter p.mayRetry).drop k) k ∧
          result =
            if k = (p.retries.filter p.mayRetry).length then .ok k else .error .poolClosed

theorem replays {config : Config} {actions : List Action}
    (hrun : (fresh config).run? actions = some p) : p.Replays := by
  have hlimited := limited_of_run? hrun
  refine ⟨fun m hm => (hlimited.queue m hm).le, hlimited.retries, hlimited.held, ?_⟩
  intro i choice p₁ htask hafter
  obtain rfl : p.collect i = p₁ := Option.some.inj (perform?_of_step htask hafter)
  refine ⟨rfl, rfl, rfl, fun actions p₂ result hrun₂ hreturned => ?_⟩
  have htask₁ : (p.collect i).tasks[i]? = some (p.collected) := tasks_goOn htask
  obtain ⟨queued, kept, counted, hcontributes, hyields⟩ :=
    contributes_of_run? hrun₂ htask₁ collected_role collected_ne hreturned
  obtain ⟨k, hk, rfl, rfl, rfl, hresult⟩ := hyields.of_collected
  exact ⟨counted, hk, hcontributes, hresult⟩

/-- A call submits the mutation and returns. -/
def submission (thread : Nat) (uid : String) : List Action :=
  [.call (.request ⟨.set, uid, []⟩), .step thread 0, .step thread 0, .step thread 0]

/-- The only worker executes a mutation, which fails. -/
def failure (time : Time) : List Action :=
  [.step 0 0, .finish 0 (.error .cancelled) time, .step 0 0, .step 0 0, .step 0 0]

/-- The first mutation fails, is replayed and fails again; two others fail once. -/
def failing : List Action :=
  submission 1 "a" ++ failure 3 ++ [.call .collect, .step 2 0, .step 2 0, .step 2 0] ++
    submission 3 "b" ++ submission 4 "c" ++ failure 5 ++ failure 6 ++ failure 7 ++ [.call .collect]

/-- The pool is closed when the call has put one mutation into the queue. -/
def interrupted : List Action :=
  [.step 5 0, .step 5 0, .call .close, .step 6 0, .step 5 0, .step 5 0]

/-- Of three entries one was tried too often.  The call gets through with the first of the others,
and both the exhausted entry and the last one are in the retry list again. -/
theorem replays_interrupted :
    ∃ p p₁ p₂, (fresh ⟨1, 3, 2⟩).run? failing = some p ∧ p.after? (.step 5 0) = some p₁ ∧
      p₁.run? interrupted = some p₂ ∧
      p.retries = [⟨⟨1, ⟨.set, "a", []⟩, 2⟩, Error.cancelled.message, 5⟩,
        ⟨⟨2, ⟨.set, "b", []⟩, 1⟩, Error.cancelled.message, 6⟩,
        ⟨⟨3, ⟨.set, "c", []⟩, 1⟩, Error.cancelled.message, 7⟩] ∧
      p₂.tasks[5]? = some (.replayed (.error .poolClosed)) ∧
      p₂.queue = [⟨2, ⟨.set, "b", []⟩, 1⟩] ∧
      p₂.retries = [⟨⟨1, ⟨.set, "a", []⟩, 2⟩, Error.cancelled.message, 5⟩,
        ⟨⟨3, ⟨.set, "c", []⟩, 1⟩, Error.cancelled.message, 7⟩] ∧
      p.Replays := by
  have hview : ((fresh ⟨1, 3, 2⟩).run? failing).bind (fun p =>
      (p.after? (.step 5 0)).bind fun p₁ => (p₁.run? interrupted).map fun p₂ =>
        (p.retries, p₂.tasks[5]?, p₂.queue, p₂.retries)) =
      some ([⟨⟨1, ⟨.set, "a", []⟩, 2⟩, Error.cancelled.message, 5⟩,
          ⟨⟨2, ⟨.set, "b", []⟩, 1⟩, Error.cancelled.message, 6⟩,
          ⟨⟨3, ⟨.set, "c", []⟩, 1⟩, Error.cancelled.message, 7⟩],
        some (.replayed (.error .poolClosed)), [⟨2, ⟨.set, "b", []⟩, 1⟩],
        [⟨⟨1, ⟨.set, "a", []⟩, 2⟩, Error.cancelled.message, 5⟩,
          ⟨⟨3, ⟨.set, "c", []⟩, 1⟩, Error.cancelled.message, 7⟩]) := rfl
  obtain ⟨p, hrun, hview⟩ := Option.bind_eq_some_iff.mp hview
  obtain ⟨p₁, hcollect, hview⟩ := Option.bind_eq_some_iff.mp hview
  obtain ⟨p₂, hrest, hview⟩ := Option.map_eq_some_iff.mp hview
  simp only [Prod.mk.injEq] at hview
  obtain ⟨hbefore, hreturned, hqueue, hafter⟩ := hview
  exact ⟨p, p₁, p₂, hrun, hcollect, hrest, hbefore, hreturned, hqueue, hafter, replays hrun⟩

end GraphQuery.Pool
