import GraphQuery.Proofs.Tallies

/-!
# Who is parked and who is awake

A thread that cannot go on parks itself and does nothing until another thread
notifies it.  `Pool.Wakeful` says that whoever could go on is awake, or that
somebody is awake who will notify it:

* when something is queued, a worker is awake;
* when a caller waits for room, the free places of the queue are outnumbered
  by the callers that are awake and about to look for room;
* when a caller waits for the pool to be idle, the pool is not idle.

`Pool.Wakeful.atRest` draws the consequence: when no thread can carry out its
task, nothing is queued and nobody waits for room or for the end of the work.

The invariant counts threads.  A turn replaces one thread and then wakes some
of those that wait for a condition (`Woken`), so each part of the invariant
comes down to equations between counts, one set for each kind of advance.
-/

namespace GraphQuery.Pool

variable {p p' q : Pool} {i choice n : Nat} {task task' : Task} {t t' : Thread}
  {ts ts' : List Thread} {c : Condition} {k : Condition → Nat}

/-- A worker with the task has not left. -/
def Task.isAtWork : Task → Bool
  | fetch | execute _ | account _ _ _ | keep _ | release => true
  | _ => false

/-- The call waits until the workers have left. -/
def Task.isJoining : Task → Bool
  | join => true
  | _ => false

/-- A thread with the task looks at the condition in its next turn. -/
def Task.looksAt (c : Condition) (task : Task) : Bool := task.condition? == some c

/-- The number of threads that are awake and look at the condition in their next turn. -/
def awake (c : Condition) (threads : List Thread) : Nat :=
  threads.countP fun t => !t.isParked && t.task.looksAt c

/-- The number of workers that are awake. -/
def busy (threads : List Thread) : Nat :=
  threads.countP fun t => !t.isParked && t.task.isAtWork

/-! ## Threads that are woken -/

theorem countP_set {f : Thread → Bool} (h : ts[i]? = some t) :
    (ts.set i t').countP f + (f t).toNat = ts.countP f + (f t').toNat := by
  have hcount := (perm_set (y := t') h).countP_eq f
  simp only [List.countP_cons] at hcount
  cases hf : f t <;> cases hf' : f t' <;> simp [hf, hf'] at hcount ⊢ <;> omega

/-- For each condition, so many threads that waited for it are awake; the others are as before. -/
structure Woken (k : Condition → Nat) (ts ts' : List Thread) : Prop where
  waiting : ∀ c, waiting c ts' + k c = waiting c ts
  awake : ∀ c, awake c ts' = awake c ts + k c
  busy : busy ts' = busy ts + k .ready
  parked : ∀ t ∈ ts', t.isParked = true → t ∈ ts

theorem woken_zero : Woken (fun _ => 0) ts ts where
  waiting _ := rfl
  awake _ := rfl
  busy := rfl
  parked _ ht _ := ht

theorem Woken.of_eq {k' : Condition → Nat} (h : Woken k ts ts') (hk : ∀ c, k c = k' c) :
    Woken k' ts ts' :=
  funext hk ▸ h

/-- Of the threads with a condition, workers look whether something is queued, and only they. -/
theorem Task.isAtWork_of_condition (h : task.condition? = some c) :
    task.isAtWork = (c == .ready) := by
  cases task with
  | fetch | offer m | await isTimed =>
    obtain rfl := Option.some.inj h
    rfl
  | resubmit done remaining =>
    cases remaining with
    | nil => cases h
    | cons f remaining =>
      obtain rfl := Option.some.inj h
      rfl
  | _ => cases h

theorem woken_set (ht : ts[i]? = some t) (hwaits : t.waitsFor c = true) :
    Woken (fun c' => (c == c').toNat) ts (ts.set i { t with isParked := false }) := by
  obtain ⟨task, isParked⟩ := t
  simp only [Thread.waitsFor, Bool.and_eq_true, beq_iff_eq] at hwaits
  obtain ⟨rfl, hcondition⟩ := hwaits
  have hcount : ∀ f : Thread → Bool, (ts.set i ⟨task, false⟩).countP f + (f ⟨task, true⟩).toNat =
      ts.countP f + (f ⟨task, false⟩).toNat := fun f => countP_set ht
  exact {
    waiting := by
      intro c'
      have hset := hcount (·.waitsFor c')
      simpa [Pool.waiting, Thread.waitsFor, hcondition] using hset
    awake := by
      intro c'
      have hset := hcount fun t => !t.isParked && t.task.looksAt c'
      simpa [Pool.awake, Task.looksAt, hcondition] using hset
    busy := by
      have hset := hcount fun t => !t.isParked && t.task.isAtWork
      simpa [Pool.busy, Task.isAtWork_of_condition hcondition] using hset
    parked := by
      intro t ht' hparked
      rcases List.mem_or_eq_of_mem_set ht' with ht' | rfl
      · exact ht'
      · cases hparked }

theorem woken_cons (h : Woken k ts ts') : Woken k (t :: ts) (t :: ts') where
  waiting c := by
    have hrest := h.waiting c
    simp only [Pool.waiting, List.countP_cons] at hrest ⊢
    omega
  awake c := by
    have hrest := h.awake c
    simp only [Pool.awake, List.countP_cons] at hrest ⊢
    omega
  busy := by
    have hrest := h.busy
    simp only [Pool.busy, List.countP_cons] at hrest ⊢
    omega
  parked t' ht' hparked := by
    rcases List.mem_cons.mp ht' with rfl | ht'
    · exact List.mem_cons_self
    · exact List.mem_cons_of_mem t (h.parked t' ht' hparked)

theorem Woken.trans {k' : Condition → Nat} {ts'' : List Thread} (h : Woken k ts ts')
    (h' : Woken k' ts' ts'') : Woken (fun c => k c + k' c) ts ts'' where
  waiting c := by
    have hfirst := h.waiting c
    have hsecond := h'.waiting c
    omega
  awake c := by rw [h'.awake, h.awake, Nat.add_assoc]
  busy := by rw [h'.busy, h.busy, Nat.add_assoc]
  parked t ht hparked := h.parked t (h'.parked t ht hparked) hparked

theorem notifyNth_of_none (h : waiting c ts = 0) : notifyNth c n ts = ts := by
  induction ts with
  | nil => rfl
  | cons t ts ih =>
    have hparts : waiting c ts = 0 ∧ t.waitsFor c = false := by
      simpa [waiting, List.countP_cons] using h
    simp [notifyNth, hparts.2, ih hparts.1]

theorem woken_notifyNth (h : n < waiting c ts) :
    Woken (fun c' => (c == c').toNat) ts (notifyNth c n ts) := by
  induction ts generalizing n with
  | nil => exact absurd h (Nat.not_lt_zero n)
  | cons t ts ih =>
    cases hwaits : t.waitsFor c with
    | false =>
      have hrest : n < waiting c ts := by simpa [waiting, hwaits] using h
      simpa [notifyNth, hwaits] using woken_cons (ih hrest)
    | true =>
      cases n with
      | zero =>
        have hhead : (t :: ts)[0]? = some t := rfl
        simpa [notifyNth, hwaits] using woken_set hhead hwaits
      | succ n =>
        have hrest : n < waiting c ts := by simpa [waiting, hwaits] using h
        simpa [notifyNth, hwaits] using woken_cons (ih hrest)

/-- How many threads a signal wakes that wait for the condition, if so many wait. -/
def Signal.count (waiting : Condition → Nat) (c : Condition) : Signal → Nat
  | silent => 0
  | one c' => if c' = c then min 1 (waiting c) else 0
  | all c' => if c' = c then waiting c else 0

theorem woken_notifyOne :
    Woken (Signal.count (waiting · ts) · (.one c)) ts (notifyOne c choice ts) := by
  unfold notifyOne
  rcases Nat.eq_zero_or_pos (waiting c ts) with hnone | hsome
  · rw [notifyNth_of_none hnone]
    refine woken_zero.of_eq fun c' => ?_
    by_cases hc : c = c'
    · simp [Signal.count, ← hc, hnone]
    · simp [Signal.count, hc]
  · refine (woken_notifyNth (Nat.mod_lt choice hsome)).of_eq fun c' => ?_
    by_cases hc : c = c'
    · simp [Signal.count, ← hc, Nat.min_eq_left hsome]
    · simp [Signal.count, hc, beq_false_of_ne hc]

theorem woken_notifyAll :
    Woken (Signal.count (waiting · ts) · (.all c)) ts (notifyAll c ts) := by
  induction ts with
  | nil => exact woken_zero.of_eq fun c' => by simp [Signal.count, waiting]
  | cons t ts ih =>
    have hrest := woken_cons (t := t) ih
    cases hwaits : t.waitsFor c with
    | false =>
      have hall : notifyAll c (t :: ts) = t :: notifyAll c ts := by simp [notifyAll, hwaits]
      rw [hall]
      refine hrest.of_eq fun c' => ?_
      by_cases hc : c = c'
      · simp [Signal.count, waiting, ← hc, hwaits]
      · simp [Signal.count, hc]
    | true =>
      have hfirst : Woken (fun c' => (c == c').toNat) (t :: notifyAll c ts)
          ({ t with isParked := false } :: notifyAll c ts) := woken_set (i := 0) rfl hwaits
      have hall : notifyAll c (t :: ts) = { t with isParked := false } :: notifyAll c ts := by
        simp [notifyAll, hwaits]
      rw [hall]
      refine (hrest.trans hfirst).of_eq fun c' => ?_
      by_cases hc : c = c'
      · simp [Signal.count, waiting, ← hc, hwaits]
      · simp [Signal.count, hc, beq_false_of_ne hc]

theorem woken_wake {s : Signal} :
    Woken (Signal.count (waiting · ts) · s) ts (s.wake choice ts) := by
  cases s with
  | silent => exact woken_zero
  | one c => exact woken_notifyOne
  | all c => exact woken_notifyAll

/-! ## Turns -/

/-- What a turn that goes on does to the numbers of threads. -/
structure Census (signal : Signal) (task task' : Task) (ts ts' : List Thread) : Prop where
  waiting : ∀ c, waiting c ts' + signal.count (waiting · ts) c = waiting c ts
  awake : ∀ c, awake c ts' + (task.looksAt c).toNat =
    awake c ts + (task'.looksAt c).toNat + signal.count (Pool.waiting · ts) c
  busy : busy ts' + task.isAtWork.toNat =
    busy ts + task'.isAtWork.toNat + signal.count (Pool.waiting · ts) .ready
  parked : ∀ t ∈ ts', t.isParked = true → t ∈ ts

theorem census_wake {signal : Signal} (h : ts[i]? = some (.running task)) :
    Census signal task task' ts (signal.wake choice (ts.set i (.running task'))) := by
  have hset : ∀ f : Thread → Bool, (ts.set i (.running task')).countP f +
      (f (.running task)).toNat = ts.countP f + (f (.running task')).toNat := fun f => countP_set h
  have hwaiting : ∀ c, waiting c (ts.set i (.running task')) = waiting c ts := fun c =>
    hset (·.waitsFor c)
  have hawake : ∀ c, Pool.awake c (ts.set i (.running task')) + (task.looksAt c).toNat =
      Pool.awake c ts + (task'.looksAt c).toNat := fun c => hset _
  have hbusy : Pool.busy (ts.set i (.running task')) + task.isAtWork.toNat =
      Pool.busy ts + task'.isAtWork.toNat := hset _
  have hwoken : Woken (Signal.count (waiting · (ts.set i (.running task'))) · signal)
      (ts.set i (.running task')) (signal.wake choice (ts.set i (.running task'))) := woken_wake
  simp only [hwaiting] at hwoken
  exact {
    waiting := fun c => (hwoken.waiting c).trans (hwaiting c)
    awake := by
      intro c
      have hset := hawake c
      have hwake := hwoken.awake c
      omega
    busy := by
      have hwake := hwoken.busy
      omega
    parked := by
      intro t ht hparked
      rcases List.mem_or_eq_of_mem_set (hwoken.parked t ht hparked) with ht | rfl
      · exact ht
      · cases hparked }

/-- The task tells those that wait for the condition that the pool is closed. -/
def Task.announces : Condition → Task → Bool
  | .ready, wakeWorkers | .space, wakeWorkers | .space, wakeCallers => true
  | _, _ => false

/-- Whoever could go on is awake, or somebody is awake who will notify it. -/
structure Wakeful (p : Pool) : Prop where
  parked : ∀ t ∈ p.threads, t.isParked = true → t.task.condition?.isSome
  manned : p.isClosed = false → 0 < busy p.threads + waiting .ready p.threads
  queued : p.queue = [] ∨ 0 < busy p.threads
  room : p.isClosed = false → waiting .space p.threads = 0 ∨
    p.config.capacity ≤ p.queue.length + awake .space p.threads
  idle : p.isIdle = true → waiting .idle p.threads = 0
  announced : p.isClosed = true → ∀ c, c ≠ .idle → waiting c p.threads = 0 ∨
    ∃ t ∈ p.tasks, t.announces c = true

/-- New threads do no harm, nor do those that stop waiting for the end of the work, as long as
whoever will announce something still does. -/
theorem Wakeful.mono (h : Wakeful p) (hparked : ∀ t ∈ ts, t.isParked = true → t ∈ p.threads)
    (hwaiting : ∀ c, c ≠ .idle → waiting c ts = waiting c p.threads)
    (hidle : waiting .idle ts ≤ waiting .idle p.threads) (hbusy : busy p.threads ≤ busy ts)
    (hawake : awake .space p.threads ≤ awake .space ts)
    (htells : ∀ t ∈ p.tasks, ∀ c, t.announces c = true → t ∈ ts.map Thread.task) :
    Wakeful { p with threads := ts } where
  parked t ht hparkedt := h.parked t (hparked t ht hparkedt) hparkedt
  manned := by
    intro hopen
    have hbefore : 0 < busy p.threads + waiting .ready p.threads := h.manned hopen
    have hready : waiting .ready ts = waiting .ready p.threads :=
      hwaiting .ready Condition.noConfusion
    show 0 < busy ts + waiting .ready ts
    omega
  queued := h.queued.imp_right fun hbefore => Nat.lt_of_lt_of_le hbefore hbusy
  room := by
    intro hopen
    show waiting .space ts = 0 ∨ p.config.capacity ≤ p.queue.length + awake .space ts
    rw [hwaiting .space Condition.noConfusion]
    exact (h.room hopen).imp_right fun hbefore => hbefore.trans (Nat.add_le_add_left hawake _)
  idle := by
    intro hresting
    have hnone : waiting .idle p.threads = 0 := h.idle hresting
    show waiting .idle ts = 0
    omega
  announced := by
    intro hclosed c hc
    show waiting c ts = 0 ∨ ∃ t ∈ ts.map Thread.task, t.announces c = true
    rw [hwaiting c hc]
    refine (h.announced hclosed c hc).imp_right ?_
    rintro ⟨t, ht, hannounces⟩
    exact ⟨t, htells t ht c hannounces, hannounces⟩

theorem Wakeful.call (h : Wakeful p) :
    Wakeful { p with threads := p.threads ++ [.running task] } := by
  have hsublist : p.threads.Sublist (p.threads ++ [.running task]) := List.sublist_append_left _ _
  have hwaiting : ∀ c, waiting c (p.threads ++ [.running task]) = waiting c p.threads := by
    simp [waiting, Thread.waitsFor, Thread.running]
  refine h.mono ?_ (fun c _ => hwaiting c) (Nat.le_of_eq (hwaiting .idle)) hsublist.countP_le
    hsublist.countP_le fun t ht c _ => (hsublist.map Thread.task).subset ht
  intro t ht hparked
  rcases List.mem_append.mp ht with ht | ht
  · exact ht
  · rw [List.mem_singleton.mp ht] at hparked
    cases hparked

theorem Wakeful.park (h : Wakeful p) (hthread : p.threads[i]? = some (.running task))
    (hcondition : task.condition? = some c) (hwithheld : p.withholds c = true) :
    Wakeful (p.park i task) := by
  have hset : ∀ f : Thread → Bool, (p.threads.set i ⟨task, true⟩).countP f +
      (f (.running task)).toNat = p.threads.countP f + (f ⟨task, true⟩).toNat :=
    fun f => countP_set hthread
  have hwaiting : ∀ c', waiting c' (p.threads.set i ⟨task, true⟩) =
      waiting c' p.threads + (c == c').toNat := by
    intro c'
    have hcount := hset (·.waitsFor c')
    simpa [waiting, Thread.waitsFor, Thread.running, hcondition] using hcount
  have hbusy : busy (p.threads.set i ⟨task, true⟩) + (c == .ready).toNat = busy p.threads := by
    rw [← Task.isAtWork_of_condition hcondition]
    exact hset fun t => !t.isParked && t.task.isAtWork
  have hawake : awake .space (p.threads.set i ⟨task, true⟩) + (c == .space).toNat =
      awake .space p.threads := by
    have hcount := hset fun t => !t.isParked && t.task.looksAt .space
    simpa [awake, Task.looksAt, Thread.running, hcondition] using hcount
  exact {
    parked := by
      intro t ht hparked
      rcases List.mem_or_eq_of_mem_set ht with ht | rfl
      · exact h.parked t ht hparked
      · simp [hcondition]
    manned := by
      intro hopen
      have hbefore : 0 < busy p.threads + waiting .ready p.threads := h.manned hopen
      show 0 < busy (p.threads.set i _) + waiting .ready (p.threads.set i _)
      rw [hwaiting]
      omega
    queued := by
      show p.queue = [] ∨ 0 < busy (p.threads.set i _)
      cases c with
      | ready =>
        simp only [withholds, Bool.and_eq_true, List.isEmpty_iff] at hwithheld
        exact Or.inl hwithheld.1
      | space | idle =>
        have hsame : busy (p.threads.set i ⟨task, true⟩) = busy p.threads := hbusy
        rw [hsame]
        exact h.queued
    room := by
      intro hopen
      show waiting .space (p.threads.set i _) = 0 ∨
        p.config.capacity ≤ p.queue.length + awake .space (p.threads.set i _)
      rw [hwaiting]
      cases c with
      | space =>
        simp only [withholds, isFull, Bool.and_eq_true, decide_eq_true_eq] at hwithheld
        exact Or.inr (Nat.le_add_right_of_le hwithheld.1)
      | ready | idle =>
        have hsame : awake .space (p.threads.set i ⟨task, true⟩) = awake .space p.threads := hawake
        rw [hsame]
        exact h.room hopen
    idle := by
      intro hidle
      show waiting .idle (p.threads.set i _) = 0
      rw [hwaiting]
      cases c with
      | idle =>
        have hbusy : p.isIdle = false := by simpa [withholds] using hwithheld
        exact absurd hidle (Bool.eq_false_iff.mp hbusy)
      | ready | space => exact h.idle hidle
    announced := by
      intro hclosed c' hc'
      show waiting c' (p.threads.set i _) = 0 ∨ ∃ t ∈ (p.park i task).tasks, t.announces c' = true
      have hsame : (c == c') = false := by
        refine beq_false_of_ne fun hc => ?_
        subst hc
        cases c with
        | idle => exact hc' rfl
        | ready | space =>
          simp only [withholds, Bool.and_eq_true, Bool.not_eq_true'] at hwithheld
          exact absurd hclosed (Bool.eq_false_iff.mp hwithheld.2)
      rw [hwaiting, hsame, tasks_park hthread]
      exact h.announced hclosed c' hc' }

/-! ## What an advance signals -/

/-- A worker goes on working, unless there is nothing left to do in a closed pool. -/
theorem Advance.isAtWork (h : Advance p task task' q) (hwork : task.isAtWork = true) :
    task'.isAtWork = true ∨ q.isClosed = true ∧ q.queue = [] := by
  cases h with
  | leave hqueue hclosed => exact Or.inr ⟨hclosed, hqueue⟩
  | park => exact Or.inl hwork
  | takeCharge => cases hwork
  | _ => first | exact Or.inl rfl | cases hwork

theorem Advance.isOpen (h : Advance p task task' q) (hopen : q.isClosed = false) :
    p.isClosed = false := by
  cases h with
  | close => cases hopen
  | _ => exact hopen

/-- Who puts something into the queue notifies a worker. -/
theorem Advance.queued (h : Advance p task task' q) (hqueue : q.queue ≠ []) :
    p.queue ≠ [] ∨ p.isClosed = false ∧ task.signal q task' = .one .ready := by
  cases h with
  | fetch hbefore => exact Or.inl (by simp [hbefore])
  | accept hopen | resubmit hopen => exact Or.inr ⟨hopen, rfl⟩
  | _ => exact Or.inl hqueue

/-- Who makes room notifies a caller; who had looked for room has filled it or looks again. -/
theorem Advance.room (h : Advance p task task' q) (hopen : q.isClosed = false) :
    p.queue.length + (task.looksAt .space).toNat ≤ q.queue.length + (task'.looksAt .space).toNat ∨
      task.signal q task' = .one .space ∧ p.queue.length = q.queue.length + 1 ∧
        task.looksAt .space = false := by
  cases h with
  | fetch hqueue => exact Or.inr ⟨rfl, by simp [hqueue], rfl⟩
  | accept => exact Or.inl (by simp [Task.looksAt, Task.condition?])
  | resubmit => exact Or.inl (by simp [Task.looksAt, Task.condition?])
  | refuse hclosed | interrupt hclosed =>
    rw [hclosed] at hopen
    cases hopen
  | park => exact Or.inl (Nat.le_refl _)
  | takeCharge => exact Or.inl (by simp [Task.looksAt, Task.condition?])
  | _ => exact Or.inl (by simp [Task.looksAt, Task.condition?])

/-- Who is the last to finish tells those that wait for the end of the work. -/
theorem Advance.idle (h : Advance p task task' q) (hne : task' ≠ task) (hidle : q.isIdle = true) :
    p.isIdle = true ∨ task.signal q task' = .all .idle := by
  cases h with
  | release => exact Or.inr (if_pos hidle)
  | fetch | accept | resubmit => simp [isIdle] at hidle
  | _ => exact Or.inl hidle

/-- Who closes the pool tells it to those that wait for something else than the end of the work. -/
theorem Advance.announced (h : Advance p task task' q) (hne : task' ≠ task)
    (hclosed : q.isClosed = true) (hc : c ≠ .idle) :
    task'.announces c = true ∨ p.isClosed = true ∧
      (task.announces c = true → task.signal q task' = .all c) := by
  have hsilent : task.announces c = false → q.isClosed = p.isClosed → p.isClosed = true ∧
      (task.announces c = true → task.signal q task' = .all c) := fun hnot hsame =>
    ⟨hsame ▸ hclosed, fun htells => absurd htells (Bool.eq_false_iff.mp hnot)⟩
  cases h with
  | park => exact absurd rfl hne
  | close => cases c <;> first | exact Or.inl rfl | exact absurd rfl hc
  | wakeWorkers =>
    cases c with
    | ready => exact Or.inr ⟨hclosed, fun _ => rfl⟩
    | space => exact Or.inl rfl
    | idle => exact absurd rfl hc
  | wakeCallers =>
    cases c with
    | ready => exact Or.inr (hsilent rfl rfl)
    | space => exact Or.inr ⟨hclosed, fun _ => rfl⟩
    | idle => exact absurd rfl hc
  | _ => exact Or.inr (hsilent (by cases c <;> rfl) rfl)

theorem Wakeful.goOn (h : Wakeful p) (hthread : p.threads[i]? = some (.running task))
    (hadvance : Advance p task task' q) (hne : task' ≠ task)
    (hthreads : Census (task.signal q task') task task' p.threads ts)
    (htasks : ts.map Thread.task = p.tasks.set i task') : Wakeful { q with threads := ts } := by
  have htask : p.tasks[i]? = some task := getElem?_tasks hthread
  have hbusy := hthreads.busy
  -- A worker goes on working, or nothing of what it is needed for is left.
  have hwork : task.isAtWork.toNat ≤ task'.isAtWork.toNat ∨ q.isClosed = true ∧ q.queue = [] := by
    cases hbefore : task.isAtWork with
    | false => exact Or.inl (Nat.zero_le _)
    | true => exact (hadvance.isAtWork hbefore).imp_left fun hafter => by rw [hafter]
  exact {
    parked := fun t ht hparked => h.parked t (hthreads.parked t ht hparked) hparked
    manned := by
      intro hopen
      show 0 < busy ts + waiting .ready ts
      have hready := hthreads.waiting .ready
      have hbefore := h.manned (hadvance.isOpen hopen)
      rcases hwork with hwork | ⟨hclosed, -⟩
      · omega
      · exact absurd hclosed (Bool.eq_false_iff.mp hopen)
    queued := by
      show q.queue = [] ∨ 0 < busy ts
      by_cases hqueue : q.queue = []
      · exact Or.inl hqueue
      right
      have hwork : task.isAtWork.toNat ≤ task'.isAtWork.toNat :=
        hwork.resolve_right fun hnothing => hqueue hnothing.2
      rcases hadvance.queued hqueue with hbefore | ⟨hopen, hsignal⟩
      · have hawake := h.queued.resolve_left hbefore
        omega
      · have hmanned := h.manned hopen
        simp only [hsignal, Signal.count, if_true] at hbusy
        omega
    room := by
      intro hopen
      show waiting .space ts = 0 ∨ q.config.capacity ≤ q.queue.length + awake .space ts
      have hspace := hthreads.waiting .space
      have hawake := hthreads.awake .space
      rw [hadvance.config_eq]
      rcases h.room (hadvance.isOpen hopen) with hnone | hroom
      · left
        omega
      · rcases hadvance.room hopen with hkept | ⟨hsignal, hlength, hlooks⟩
        · right
          omega
        · simp only [hsignal, Signal.count, if_true, hlooks, Bool.toNat_false] at hspace hawake
          omega
    idle := by
      intro hidle
      show waiting .idle ts = 0
      have hwaiting := hthreads.waiting .idle
      rcases hadvance.idle hne hidle with hbefore | hsignal
      · have hnone := h.idle hbefore
        omega
      · simp only [hsignal, Signal.count, if_true] at hwaiting
        omega
    announced := by
      intro hclosed c hc
      show waiting c ts = 0 ∨ ∃ t ∈ ts.map Thread.task, t.announces c = true
      have hwaiting := hthreads.waiting c
      rw [htasks]
      rcases hadvance.announced hne hclosed hc with htells | ⟨hbefore, htells⟩
      · exact Or.inr ⟨task', List.mem_set (List.getElem?_eq_some_iff.mp htask).1 _, htells⟩
      · rcases h.announced hbefore c hc with hnone | ⟨t, ht, hannounces⟩
        · left
          omega
        · by_cases hsame : task = t
          · have hsignal := htells (hsame ▸ hannounces)
            simp only [hsignal, Signal.count, if_true] at hwaiting
            left
            omega
          · exact Or.inr ⟨t, mem_set_of_ne ht htask hsame, hannounces⟩ }

/-- A thread that has waited long enough goes on by itself. -/
theorem Wakeful.expire {isIdle : Bool} (h : Wakeful p)
    (hthread : p.threads[i]? = some ⟨.await true, true⟩) :
    Wakeful (p.goOn i (.flushed isIdle)) := by
  have hset : ∀ f : Thread → Bool, (p.threads.set i (.running (.flushed isIdle))).countP f +
      (f ⟨.await true, true⟩).toNat = p.threads.countP f + (f (.running (.flushed isIdle))).toNat :=
    fun f => countP_set hthread
  have hwaiting : ∀ c, c ≠ .idle → waiting c (p.threads.set i (.running (.flushed isIdle))) =
      waiting c p.threads := by
    intro c hc
    have hcount := hset (·.waitsFor c)
    cases c with
    | ready | space => exact hcount
    | idle => exact absurd rfl hc
  have hidle : waiting .idle (p.threads.set i (.running (.flushed isIdle))) + 1 =
      waiting .idle p.threads := hset (·.waitsFor .idle)
  have hbusy : busy (p.threads.set i (.running (.flushed isIdle))) = busy p.threads :=
    hset fun t => !t.isParked && t.task.isAtWork
  have hawake : awake .space (p.threads.set i (.running (.flushed isIdle))) =
      awake .space p.threads := hset fun t => !t.isParked && t.task.looksAt .space
  refine h.mono ?_ hwaiting (by omega) (Nat.le_of_eq hbusy.symm) (Nat.le_of_eq hawake.symm) ?_
  · intro t ht hparked
    rcases List.mem_or_eq_of_mem_set ht with ht | rfl
    · exact ht
    · cases hparked
  · intro t ht c htells
    rw [List.map_set]
    refine mem_set_of_ne ht (getElem?_tasks hthread) ?_
    rintro rfl
    cases c <;> cases htells

theorem Wakeful.after? {a : Action} (h : Wakeful p) (hafter : p.after? a = some p') :
    Wakeful p' := by
  rcases after?_turns hafter with
    ⟨task, -, -, rfl⟩ | ⟨i, choice, task, -, hthread, hturn⟩ | ⟨i, -, hthread, rfl⟩
  · exact h.call
  · cases hturn with
    | park hcondition hwithheld => exact h.park hthread hcondition hwithheld
    | goOn hadvance hne =>
      exact h.goOn hthread hadvance hne (census_wake hthread)
        ((map_task_wake _ _).trans List.map_set)
  · exact h.expire hthread

theorem wakeful_fresh {config : Config} (hworkers : 0 < config.workers) :
    Wakeful (fresh config) := by
  have hwaiting : ∀ c, waiting c (fresh config).threads = 0 := fun c => by
    simp [waiting, fresh, Thread.waitsFor, Thread.running]
  exact {
    parked := by
      intro t ht hparked
      rw [List.eq_of_mem_replicate ht] at hparked
      cases hparked
    manned := by
      intro _
      have hbusy : busy (fresh config).threads = config.workers := by
        simp only [busy, fresh, List.countP_replicate, Thread.running]
        rfl
      omega
    queued := Or.inl rfl
    room := fun _ => Or.inl (hwaiting .space)
    idle := fun _ => hwaiting .idle
    announced := fun _ c _ => Or.inl (hwaiting c) }

/-- A thread whose task has no condition is not parked. -/
theorem Wakeful.running (h : Wakeful p) (htask : p.tasks[i]? = some task)
    (hnone : task.condition? = none) : p.threads[i]? = some (.running task) := by
  obtain ⟨⟨task', isParked⟩, hthread, rfl⟩ : ∃ t, p.threads[i]? = some t ∧ t.task = task := by
    simpa [tasks] using htask
  cases isParked with
  | false => exact hthread
  | true =>
    have hsome := h.parked _ (List.mem_of_getElem? hthread) rfl
    rw [hnone] at hsome
    cases hsome

/-! ## When no thread can go on -/

/-- A thread does not carry out its task: it is parked, or its call has returned, or it waits for
the workers to leave. -/
def Thread.isAtRest (t : Thread) : Bool :=
  t.isParked || t.task.isOver || t.task.isJoining

theorem Task.resting (h : (task.isOver || task.isJoining) = true) :
    task.isAtWork = false ∧ task.isWorking = false ∧ task.looksAt .space = false ∧
      ∀ c, task.announces c = false := by
  cases task <;> (try cases h) <;> exact ⟨rfl, rfl, rfl, fun c => by cases c <;> rfl⟩

theorem Task.waits (h : task.condition? = some c) :
    task.isWorking = false ∧ ∀ c, task.announces c = false := by
  cases task <;> (try cases h) <;> exact ⟨rfl, fun c => by cases c <;> rfl⟩

/-- A thread that cannot carry out its task is at rest, or executes a mutation. -/
theorem perform?_eq_none (h : p.perform? i choice task = none) :
    (task.isOver || task.isJoining) = true ∨ ∃ m, task = .execute m := by
  cases task with
  | execute m => exact Or.inr ⟨m, rfl⟩
  | left | submitted result | replayed result | taken failed | flushed isIdle | shutDown | join =>
    exact Or.inl rfl
  | resubmit done remaining => cases remaining <;> cases h
  | _ => cases h

/-- A thread that cannot take a turn is at rest, or executes a mutation. -/
theorem isAtRest_of_step (ht : p.threads[i]? = some t) (hstep : p.after? (.step i choice) = none) :
    t.isAtRest = true ∨ ∃ m, t = .running (.execute m) := by
  obtain ⟨task, isParked⟩ := t
  cases isParked with
  | true => exact Or.inl rfl
  | false =>
    have hperform : p.perform? i choice task = none := by simpa [Pool.after?, ht] using hstep
    rcases perform?_eq_none hperform with hrest | ⟨m, rfl⟩
    · exact Or.inl (by simpa [Thread.isAtRest] using hrest)
    · exact Or.inr ⟨m, rfl⟩

/-- A thread that is at rest neither works nor tells anybody that the pool is closed. -/
theorem Wakeful.silent (h : Wakeful p) (ht : t ∈ p.threads) (hrest : t.isAtRest = true) :
    t.task.isWorking = false ∧ ∀ c, t.task.announces c = false := by
  cases hparked : t.isParked with
  | true =>
    obtain ⟨c, hc⟩ := Option.isSome_iff_exists.mp (h.parked t ht hparked)
    exact Task.waits hc
  | false =>
    rw [Thread.isAtRest, hparked, Bool.false_or] at hrest
    obtain ⟨-, hworking, -, hannounces⟩ := Task.resting hrest
    exact ⟨hworking, hannounces⟩

/-- When no thread can go on in a closed pool, everybody has been told that it is closed. -/
theorem Wakeful.told (h : Wakeful p) (hrest : ∀ t ∈ p.threads, t.isAtRest = true)
    (hclosed : p.isClosed = true) (hc : c ≠ .idle) : waiting c p.threads = 0 := by
  refine (h.announced hclosed c hc).resolve_right ?_
  rintro ⟨task, htask, htells⟩
  obtain ⟨t, ht, rfl⟩ := List.mem_map.mp htask
  rw [(h.silent ht (hrest t ht)).2] at htells
  cases htells

/-- When no thread can go on, all that was queued has been worked off, and nobody waits for room
or for the end of the work. -/
theorem Wakeful.atRest (h : Wakeful p) (hcapacity : 0 < p.config.capacity)
    (hrest : ∀ t ∈ p.threads, t.isAtRest = true) :
    p.queue = [] ∧ (∀ t ∈ p.threads, t.task.isWorking = false) ∧
      waiting .space p.threads = 0 := by
  have hresting : ∀ t ∈ p.threads, t.isParked = false →
      (t.task.isOver || t.task.isJoining) = true := by
    intro t ht hparked
    have hall := hrest t ht
    rwa [Thread.isAtRest, hparked, Bool.false_or] at hall
  have hbusy : busy p.threads = 0 := by
    refine List.countP_eq_zero.mpr fun t ht => ?_
    cases hparked : t.isParked with
    | true => simp
    | false => simp [(Task.resting (hresting t ht hparked)).1]
  have hawake : awake .space p.threads = 0 := by
    refine List.countP_eq_zero.mpr fun t ht => ?_
    cases hparked : t.isParked with
    | true => simp
    | false => simp [(Task.resting (hresting t ht hparked)).2.2.1]
  have hqueue : p.queue = [] := by
    have hqueued := h.queued
    rw [hbusy] at hqueued
    exact hqueued.resolve_right (Nat.lt_irrefl 0)
  refine ⟨hqueue, fun t ht => (h.silent ht (hrest t ht)).1, ?_⟩
  cases hclosed : p.isClosed with
  | false =>
    refine (h.room hclosed).resolve_right fun hroom => ?_
    rw [hqueue, hawake] at hroom
    exact absurd hroom (Nat.not_le.mpr hcapacity)
  | true => exact h.told hrest hclosed Condition.noConfusion

end GraphQuery.Pool
