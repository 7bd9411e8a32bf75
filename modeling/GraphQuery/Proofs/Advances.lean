import GraphQuery.Pool.History
import Mathlib.Tactic.SplitIfs

/-!
# What one action does to a pool

`Advance p task task' q` lists what a thread can do: it goes on from one task
to another and leaves the pool `p` with the data of `q`.  Parking and
notifications are left out, because they change no task and no data.
`after?_cases` says that an action is either a call that comes in or an
advance of one thread, and `History.after?_cases` says the same of a pool
with its past.

An invariant of tasks and data therefore needs one case for each constructor
of `Advance`; `History.run?_induction` carries it through a run.

An invariant of parked threads looks at a `Turn`: the thread parks itself
because its condition withholds it (`withholds`), or it advances and sends the
`Signal` of its task.  `after?_turns` is `after?_cases` with turns.
-/

namespace GraphQuery

/-- What holds at the start and after every possible step holds after all steps. -/
theorem foldlM_induction {σ α : Type} {next? : σ → α → Option σ} {motive : σ → Prop}
    {start s : σ} (hstart : motive start)
    (hstep : ∀ {s s' a}, motive s → next? s a = some s' → motive s') {steps : List α}
    (hrun : steps.foldlM next? start = some s) : motive s := by
  induction steps generalizing start with
  | nil => exact Option.some.inj hrun ▸ hstart
  | cons a steps ih =>
    rw [List.foldlM_cons] at hrun
    obtain ⟨next, hnext, hrest⟩ := Option.bind_eq_some_iff.mp hrun
    exact ih (hstep hstart hnext) hrest

namespace Pool

/-- A thread goes on from one task to another, and the data of the pool become those of the last
pool. -/
inductive Advance (p : Pool) : Task → Task → Pool → Prop where
  | park {task : Task} (h : task.condition?.isSome) : Advance p task task p
  | fetch {m : Pending} {queue : List Pending} (h : p.queue = m :: queue) :
      Advance p .fetch (.execute { m with attempts := m.attempts + 1 })
        { p with queue, inFlight := p.inFlight + 1 }
  | leave (hqueue : p.queue = []) (hclosed : p.isClosed = true) : Advance p .fetch .left p
  | finish {m : Pending} (outcome : Except Error Unit) (time : Time) :
      Advance p (.execute m) (.account m outcome time) p
  | succeed {m : Pending} {u : Unit} {time : Time} :
      Advance p (.account m (.ok u) time) .release
        { p with counters := { p.counters with succeeded := p.counters.succeeded + 1 } }
  | fail {m : Pending} {e : Error} {time : Time} :
      Advance p (.account m (.error e) time) (.keep ⟨m, e.message, time⟩)
        { p with counters := { p.counters with failed := p.counters.failed + 1 } }
  | keep {f : Failed} : Advance p (.keep f) .release { p with retries := p.retries ++ [f] }
  | release : Advance p .release .fetch { p with inFlight := p.inFlight - 1 }
  | request {s : Statement} :
      Advance p (.request s) (.offer ⟨p.nextId, s, 0⟩) { p with nextId := p.nextId + 1 }
  | refuse {m : Pending} (h : p.isClosed = true) :
      Advance p (.offer m) (.submitted (.error .poolClosed)) p
  | accept {m : Pending} (hopen : p.isClosed = false) (hroom : p.isFull = false) :
      Advance p (.offer m) (.confirm m.id) { p with queue := p.queue ++ [m] }
  | confirm {id : Nat} :
      Advance p (.confirm id) (.submitted (.ok id))
        { p with counters := { p.counters with submitted := p.counters.submitted + 1 } }
  | collectFresh (h : p.retries.filter (!p.mayRetry ·) = []) :
      Advance p .collect (.resubmit 0 (p.retries.filter p.mayRetry)) { p with retries := [] }
  | collect (h : p.retries.filter (!p.mayRetry ·) ≠ []) :
      Advance p .collect
        (.giveBack (p.retries.filter (!p.mayRetry ·)) (p.retries.filter p.mayRetry))
        { p with retries := [] }
  | giveBack {exhausted fresh : List Failed} :
      Advance p (.giveBack exhausted fresh) (.resubmit 0 fresh)
        { p with retries := p.retries ++ exhausted }
  | resubmit {done : Nat} {f : Failed} {remaining : List Failed} (hopen : p.isClosed = false)
      (hroom : p.isFull = false) :
      Advance p (.resubmit done (f :: remaining)) (.resubmit (done + 1) remaining)
        { p with queue := p.queue ++ [f.mutation] }
  | interrupt {done : Nat} {f : Failed} {remaining : List Failed} (h : p.isClosed = true) :
      Advance p (.resubmit done (f :: remaining)) (.restore done (f :: remaining)) p
  | replayed {done : Nat} :
      Advance p (.resubmit done []) (.replayed (.ok done))
        { p with counters := p.countReplayed done }
  | restore {done : Nat} {remaining : List Failed} :
      Advance p (.restore done remaining) (.replayed (.error .poolClosed))
        { p with retries := p.retries ++ remaining, counters := p.countReplayed done }
  | take : Advance p .take (.taken p.retries) { p with retries := [] }
  | flushed {isTimed : Bool} (h : p.isIdle = true) : Advance p (.await isTimed) (.flushed true) p
  | expire : Advance p (.await true) (.flushed p.isIdle) p
  | close : Advance p .close .wakeWorkers { p with isClosed := true }
  | wakeWorkers : Advance p .wakeWorkers .wakeCallers p
  | wakeCallers : Advance p .wakeCallers .takeCharge p
  | takeCharge :
      Advance p .takeCharge (if p.isInCharge then .shutDown else .join)
        { p with isInCharge := true }
  | join (h : p.allLeft = true) : Advance p .join .shutDown p

/-- A thread whose call has returned does nothing any more. -/
theorem Advance.isOver_eq {p q : Pool} {task task' : Task} (h : Advance p task task' q) :
    task.isOver = false := by
  cases h with
  | park hcondition => cases task <;> first | rfl | cases hcondition
  | _ => rfl

theorem isIdle_iff {p : Pool} : p.isIdle = true ↔ p.queue = [] ∧ p.inFlight = 0 := by
  simp [isIdle]

/-! ## Turns -/

/-- Whom a thread notifies when it goes on. -/
inductive Signal where
  | silent
  | one (c : Condition)
  | all (c : Condition)

/-- The threads after a signal; if one of several is notified, the number says which. -/
def Signal.wake (choice : Nat) : Signal → List Thread → List Thread
  | silent => id
  | one c => notifyOne c choice
  | all c => notifyAll c

/-- The signal of a thread that goes on from one task to another and leaves the pool behind. -/
def Task.signal (q : Pool) : Task → Task → Signal
  | fetch, execute _ => .one .space
  | offer _, confirm _ | resubmit _ (_ :: _), resubmit _ _ => .one .ready
  | release, _ => if q.isIdle then .all .idle else .silent
  | wakeWorkers, _ => .all .ready
  | wakeCallers, _ => .all .space
  | _, _ => .silent

/-- A thread that waits for the condition has to go on waiting. -/
def withholds (p : Pool) : Condition → Bool
  | .ready => p.queue.isEmpty && !p.isClosed
  | .space => p.isFull && !p.isClosed
  | .idle => !p.isIdle

section
variable {p p' q : Pool} {i choice : Nat} {task task' : Task}

/-- The thread `i` with the task takes its turn: it parks itself, or goes on to another task. -/
inductive Turn (p : Pool) (i choice : Nat) (task : Task) : Pool → Prop where
  | park {c : Condition} (hcondition : task.condition? = some c) (hblocked : p.withholds c = true) :
      Turn p i choice task (p.park i task)
  | goOn {task' : Task} {q : Pool} (h : Advance p task task' q) (hne : task' ≠ task) :
      Turn p i choice task
        { q with threads := (task.signal q task').wake choice (p.threads.set i (.running task')) }

theorem turn_fetch : Turn p i choice .fetch (p.fetch i choice) := by
  unfold fetch
  split
  · rename_i m queue hqueue
    exact .goOn (.fetch hqueue) Task.noConfusion
  · rename_i hqueue
    split_ifs with hclosed
    · exact .goOn (.leave hqueue hclosed) Task.noConfusion
    · exact .park rfl (by simp [withholds, hqueue, hclosed])

theorem turn_account {m : Pending} {outcome : Except Error Unit} {time : Time} :
    Turn p i choice (.account m outcome time) (p.account i m outcome time) := by
  cases outcome with
  | ok u => exact .goOn .succeed Task.noConfusion
  | error e => exact .goOn .fail Task.noConfusion

theorem turn_release : Turn p i choice .release (p.release i) := by
  have hturn : Turn p i choice .release _ := .goOn .release Task.noConfusion
  unfold release
  dsimp only
  split_ifs with hidle
  · have hsignal : Task.signal { p with inFlight := p.inFlight - 1 } .release .fetch =
        .all .idle := if_pos hidle
    rwa [hsignal] at hturn
  · have hsignal : Task.signal { p with inFlight := p.inFlight - 1 } .release .fetch =
        .silent := if_neg hidle
    rwa [hsignal] at hturn

theorem turn_offer {m : Pending} {refused accepted : Task}
    (hcondition : task.condition? = some .space)
    (hrefused : task.signal p refused = .silent ∧ refused ≠ task)
    (haccepted : task.signal { p with queue := p.queue ++ [m] } accepted = .one .ready ∧
      accepted ≠ task)
    (hrefuse : p.isClosed = true → Advance p task refused p)
    (haccept : p.isClosed = false → p.isFull = false →
      Advance p task accepted { p with queue := p.queue ++ [m] }) :
    Turn p i choice task (p.offer i choice m task refused accepted) := by
  unfold offer
  split_ifs with hclosed hfull
  · have hturn : Turn p i choice task _ := .goOn (hrefuse hclosed) hrefused.2
    rwa [hrefused.1] at hturn
  · exact .park hcondition (by simp [withholds, hclosed, hfull])
  · have hturn : Turn p i choice task _ :=
      .goOn (haccept (Bool.eq_false_iff.mpr hclosed) (Bool.eq_false_iff.mpr hfull)) haccepted.2
    rwa [haccepted.1] at hturn

theorem turn_collect : Turn p i choice .collect (p.collect i) := by
  unfold collect
  dsimp only
  split_ifs with h
  · exact .goOn (.collectFresh (List.isEmpty_iff.mp h)) Task.noConfusion
  · exact .goOn (.collect (mt List.isEmpty_iff.mpr h)) Task.noConfusion

theorem turn_takeCharge :
    Turn p i choice .takeCharge
      { p.goOn i (if p.isInCharge then .shutDown else .join) with isInCharge := true } :=
  .goOn .takeCharge (by split_ifs <;> exact Task.noConfusion)

/-- A thread that carries out its task takes its turn. -/
theorem turn_perform? (h : p.perform? i choice task = some p') : Turn p i choice task p' := by
  cases task with
  | fetch => exact Option.some.inj h ▸ turn_fetch
  | account m outcome time => exact Option.some.inj h ▸ turn_account
  | keep f => exact Option.some.inj h ▸ .goOn .keep Task.noConfusion
  | release => exact Option.some.inj h ▸ turn_release
  | request s => exact Option.some.inj h ▸ .goOn .request Task.noConfusion
  | offer m =>
    exact Option.some.inj h ▸
      turn_offer rfl ⟨rfl, Task.noConfusion⟩ ⟨rfl, Task.noConfusion⟩ .refuse .accept
  | confirm id => exact Option.some.inj h ▸ .goOn .confirm Task.noConfusion
  | collect => exact Option.some.inj h ▸ turn_collect
  | giveBack exhausted fresh => exact Option.some.inj h ▸ .goOn .giveBack Task.noConfusion
  | resubmit done remaining =>
    cases remaining with
    | nil => exact Option.some.inj h ▸ .goOn .replayed Task.noConfusion
    | cons f remaining =>
      exact Option.some.inj h ▸
        turn_offer rfl ⟨rfl, Task.noConfusion⟩ ⟨rfl, by simp⟩ .interrupt .resubmit
  | restore done remaining => exact Option.some.inj h ▸ .goOn .restore Task.noConfusion
  | take => exact Option.some.inj h ▸ .goOn .take Task.noConfusion
  | await isTimed =>
    obtain rfl := Option.some.inj h
    split_ifs with hidle
    · exact .goOn (.flushed hidle) Task.noConfusion
    · exact .park rfl (by simp [withholds, hidle])
  | close => exact Option.some.inj h ▸ .goOn .close Task.noConfusion
  | wakeWorkers =>
    have hturn : Turn p i choice .wakeWorkers _ := .goOn (q := p) .wakeWorkers Task.noConfusion
    exact Option.some.inj h ▸ hturn
  | wakeCallers =>
    have hturn : Turn p i choice .wakeCallers _ := .goOn (q := p) .wakeCallers Task.noConfusion
    exact Option.some.inj h ▸ hturn
  | takeCharge => exact Option.some.inj h ▸ turn_takeCharge
  | join =>
    rw [perform?] at h
    split_ifs at h with hleft
    exact Option.some.inj h ▸ .goOn (.join hleft) Task.noConfusion
  | execute m | left | submitted r | replayed r | taken fs | flushed b | shutDown => cases h

/-! ## Tasks and data -/

theorem map_task_notifyAll (c : Condition) (threads : List Thread) :
    (notifyAll c threads).map Thread.task = threads.map Thread.task := by
  rw [notifyAll, List.map_map]
  refine List.map_congr_left fun t _ => ?_
  show (if t.waitsFor c then { t with isParked := false } else t).task = t.task
  split <;> rfl

theorem map_task_notifyNth (c : Condition) (n : Nat) (threads : List Thread) :
    (notifyNth c n threads).map Thread.task = threads.map Thread.task := by
  induction threads generalizing n with
  | nil => rfl
  | cons t rest ih =>
    cases hwaits : t.waitsFor c with
    | false => simp [notifyNth, hwaits, ih]
    | true => cases n <;> simp [notifyNth, hwaits, ih]

theorem map_task_wake (s : Signal) (threads : List Thread) :
    (s.wake choice threads).map Thread.task = threads.map Thread.task := by
  cases s with
  | silent => rfl
  | one c => exact map_task_notifyNth c _ threads
  | all c => exact map_task_notifyAll c threads

theorem getElem?_tasks {t : Thread} (h : p.threads[i]? = some t) : p.tasks[i]? = some t.task := by
  simp [tasks, h]

/-- The thread of a call that comes in stands behind the others. -/
theorem tasks_call :
    tasks { p with threads := p.threads ++ [.running task] } = p.tasks ++ [task] := by
  simp [tasks, Thread.running]

theorem mem_tasks_call {t : Task} :
    t ∈ tasks { p with threads := p.threads ++ [.running task] } ↔ t ∈ p.tasks ∨ t = task := by
  rw [tasks_call, List.mem_append, List.mem_singleton]

/-- What holds of the tasks of all threads holds with a call that it holds of. -/
theorem forall_tasks_call {holds : Task → Prop} (hothers : ∀ t ∈ p.tasks, holds t)
    (hcall : holds task) :
    ∀ t ∈ tasks { p with threads := p.threads ++ [.running task] }, holds t := by
  rw [tasks_call]
  exact List.forall_mem_append.mpr ⟨hothers, List.forall_mem_singleton.mpr hcall⟩

theorem getElem?_tasks_call (htask : p.tasks[i]? = some task') :
    (tasks { p with threads := p.threads ++ [.running task] })[i]? = some task' := by
  rw [tasks_call, List.getElem?_append_left (List.getElem?_eq_some_iff.mp htask).1, htask]

/-- At first all threads are workers without a mutation. -/
theorem eq_fetch_of_mem_fresh {config : Config} {t : Task} (ht : t ∈ (fresh config).tasks) :
    t = .fetch := by
  simp only [fresh, tasks, Thread.running, List.map_replicate] at ht
  exact List.eq_of_mem_replicate ht

/-- A thread that parks itself keeps its task. -/
theorem tasks_park (h : p.threads[i]? = some (.running task)) :
    (p.park i task).tasks = p.tasks := by
  obtain ⟨hi, hget⟩ : ∃ hi : i < p.tasks.length, p.tasks[i] = task :=
    List.getElem?_eq_some_iff.mp (getElem?_tasks h)
  have hset : (p.park i task).tasks = p.tasks.set i task := List.map_set
  rw [hset, ← hget, List.set_getElem_self]

/-- The thread `i` went on to the task, and the data are those of `q`. -/
structure Reaches (p : Pool) (i : Nat) (task' : Task) (q p' : Pool) : Prop where
  tasks : p'.tasks = p.tasks.set i task'
  data : p' = { q with threads := p'.threads }

theorem Reaches.mem_tasks {t : Task} (h : Reaches p i task' q p') (ht : t ∈ p'.tasks) :
    t ∈ p.tasks ∨ t = task' :=
  List.mem_or_eq_of_mem_set (h.tasks ▸ ht)

/-- What held of the tasks of all threads still does if it holds of the one that is new. -/
theorem Reaches.forall_tasks {holds : Task → Prop} (h : Reaches p i task' q p')
    (hothers : ∀ t ∈ p.tasks, holds t) (hmoved : holds task') : ∀ t ∈ p'.tasks, holds t := by
  intro t ht
  rcases h.mem_tasks ht with ht | rfl
  · exact hothers t ht
  · exact hmoved

theorem Reaches.getElem?_self (h : Reaches p i task' q p') (htask : p.tasks[i]? = some task) :
    p'.tasks[i]? = some task' := by
  rw [h.tasks, List.getElem?_set_self (List.getElem?_eq_some_iff.mp htask).1]

theorem Reaches.getElem?_of_ne {j : Nat} (h : Reaches p i task' q p') (hne : i ≠ j) :
    p'.tasks[j]? = p.tasks[j]? := by
  rw [h.tasks, List.getElem?_set_ne hne]

theorem reaches_goOn : Reaches p i task' p (p.goOn i task') :=
  ⟨List.map_set, rfl⟩

theorem reaches_park : Reaches p i task' p (p.park i task') :=
  ⟨List.map_set, rfl⟩

theorem reaches_wake {s : Signal} :
    Reaches p i task' q { q with threads := s.wake choice (p.threads.set i (.running task')) } :=
  ⟨(map_task_wake _ _).trans List.map_set, rfl⟩

/-- The thread `i` with the task makes an advance to `p'`. -/
def Advances (p : Pool) (i : Nat) (task : Task) (p' : Pool) : Prop :=
  ∃ task' q, Advance p task task' q ∧ Reaches p i task' q p'

theorem Turn.advances (h : Turn p i choice task p') : Advances p i task p' := by
  cases h with
  | park hcondition => exact ⟨_, _, .park (by simp [hcondition]), reaches_park⟩
  | goOn h => exact ⟨_, _, h, reaches_wake⟩

/-- An action is a call that comes in, a turn of the thread that acts, or the end of its
patience. -/
theorem after?_turns {a : Action} (h : p.after? a = some p') :
    (∃ task, a = .call task ∧ task.isCall ∧
        p' = { p with threads := p.threads ++ [.running task] }) ∨
      (∃ i choice task, a.thread? = some i ∧ p.threads[i]? = some (.running task) ∧
        Turn p i choice task p') ∨
      ∃ i, a = .timeout i ∧ p.threads[i]? = some ⟨.await true, true⟩ ∧
        p' = p.goOn i (.flushed p.isIdle) := by
  cases a with
  | call task =>
    rw [after?] at h
    split_ifs at h with hcall
    exact Or.inl ⟨task, rfl, hcall, (Option.some.inj h).symm⟩
  | step i choice =>
    rw [after?] at h
    split at h
    · rename_i task hthread
      exact Or.inr (Or.inl ⟨i, choice, task, rfl, hthread, turn_perform? h⟩)
    · cases h
  | finish i outcome time =>
    rw [after?] at h
    split at h
    · rename_i m hthread
      have hturn : Turn p i 0 (.execute m) _ := .goOn (.finish outcome time) Task.noConfusion
      exact Or.inr (Or.inl ⟨i, 0, .execute m, rfl, hthread, Option.some.inj h ▸ hturn⟩)
    · cases h
  | timeout i =>
    rw [after?] at h
    split at h
    · rename_i hthread
      exact Or.inr (Or.inr ⟨i, rfl, hthread, (Option.some.inj h).symm⟩)
    · cases h

/-- An action is a call that comes in, or an advance of the thread that acts. -/
theorem after?_cases {a : Action} (h : p.after? a = some p') :
    (∃ task, a = .call task ∧ task.isCall ∧
        p' = { p with threads := p.threads ++ [.running task] }) ∨
      ∃ i task, a.thread? = some i ∧ p.tasks[i]? = some task ∧ Advances p i task p' := by
  rcases after?_turns h with
    hcall | ⟨i, choice, task, ha, hthread, hturn⟩ | ⟨i, rfl, hthread, rfl⟩
  · exact Or.inl hcall
  · exact Or.inr ⟨i, task, ha, getElem?_tasks hthread, hturn.advances⟩
  · exact Or.inr ⟨i, .await true, rfl, getElem?_tasks hthread, _, _, .expire, reaches_goOn⟩

/-! ## Single steps -/

/-- A thread that is not parked carries out its task. -/
theorem after?_step (hthread : p.threads[i]? = some (.running task)) :
    p.after? (.step i choice) = p.perform? i choice task := by
  simp [after?, hthread, Thread.running]

theorem perform?_of_step (htask : p.tasks[i]? = some task)
    (hafter : p.after? (.step i choice) = some p') : p.perform? i choice task = some p' := by
  rw [after?] at hafter
  split at hafter
  · rename_i other hthread
    have hother : other = task := by simpa [tasks, hthread] using htask
    rwa [hother] at hafter
  · cases hafter

theorem tasks_goOn (htask : p.tasks[i]? = some task) :
    (p.goOn i task').tasks[i]? = some task' :=
  reaches_goOn.getElem?_self htask

end

end Pool

open Pool

namespace History

variable {h h' : History}

/-- A pool with its past after an action: the past of a thread is that it began, or that it has
counted a success. -/
theorem after?_cases {a : Action} (hafter : h.after? a = some h') :
    (∃ task, task.isCall ∧
        h' = { h with
          pool := { h.pool with threads := h.pool.threads ++ [.running task] }
          begun := h.begun ++ [task] }) ∨
      ∃ i task, h.pool.tasks[i]? = some task ∧ Advances h.pool i task h'.pool ∧
        h' = { h with pool := h'.pool, succeeded := h.succeeded ++ task.success?.toList } := by
  obtain ⟨p', hp', rfl⟩ := Option.map_eq_some_iff.mp hafter
  rcases Pool.after?_cases hp' with ⟨task, rfl, hcall, rfl⟩ | ⟨i, task, hi, htask, hadvance⟩
  · exact Or.inl ⟨task, hcall, by simp [Action.begun?, task?, Action.thread?]⟩
  · have hbegun : a.begun? = none := by cases a <;> simp_all [Action.thread?, Action.begun?]
    exact Or.inr ⟨i, task, htask, hadvance, by simp [hbegun, task?, hi, htask]⟩

/-- What holds at the start and after every action holds after every run. -/
theorem run?_induction {motive : History → Prop} {start : History} (hstart : motive start)
    (hstep : ∀ {h h' a}, motive h → h.after? a = some h' → motive h') {actions : List Action}
    (hrun : start.run? actions = some h) : motive h :=
  foldlM_induction hstart hstep hrun

end History

end GraphQuery
