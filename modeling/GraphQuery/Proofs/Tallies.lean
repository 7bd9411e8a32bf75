import GraphQuery.Pool.Ledger
import GraphQuery.Proofs.Conservation
import Mathlib

/-!
# The counts of a pool tally

Besides the mutations themselves, a pool keeps numbers: the attempts of each
mutation, the number of mutations in flight, the counters.  `Ledger.Tallied`
says what these numbers have to do with what has happened, at every moment of
every run.

* A mutation has been tried as often as it was executed, with one more try for
  an execution that has not ended.
* The number in flight is the number of workers with a mutation.
* An execution is either the first of its mutation or one after a replay.
* The counters are the numbers of ended submissions, successes and failures.

A thread has a share in each of these numbers, which is told by its task
(`Pool.total`).  Each law has one lemma about `Advance`: what the data of the
pool gain on one side is what the share of the thread loses or what is gained
on the other side.
-/

namespace GraphQuery

namespace Pool

namespace Task

/-- A worker with the task has a mutation that it has not yet reported as over. -/
def isWorking : Task → Bool
  | execute _ | account _ _ _ | keep _ | release => true
  | _ => false

/-- The mutation that is being executed. -/
def executing? : Task → Option Pending
  | execute m => some m
  | _ => none

/-- The execution that ends between the two tasks. -/
def ended? : Task → Task → Option (Pending × Except Error Unit)
  | execute m, account _ outcome _ => some (m, outcome)
  | _, _ => none

/-- The number of mutations that a call has replayed and not yet counted. -/
def done : Task → Nat
  | resubmit done _ | restore done _ => done
  | _ => 0

/-- The call has submitted its mutation. -/
def hasSubmitted : Task → Bool
  | submitted (.ok _) => true
  | _ => false

/-- A failure is still to be counted. -/
def hasFailed : Task → Bool
  | account _ (.error _) _ => true
  | _ => false

/-- A call that has just come in has no share in anything. -/
theorem shares_of_call {t : Task} (h : t.isCall = true) :
    t.isWorking = false ∧ t.executing? = none ∧ t.held = [] ∧ t.done = 0 ∧
      t.hasSubmitted = false ∧ t.hasFailed = false := by
  cases t <;> first | exact ⟨rfl, rfl, rfl, rfl, rfl, rfl⟩ | cases h

/-- A thread that parks itself has no share in an execution. -/
theorem shares_of_condition {t : Task} (h : t.condition?.isSome) :
    t.executing? = none ∧ t.success? = none ∧ t.ended? t = none := by
  cases t <;> first | exact ⟨rfl, rfl, rfl⟩ | cases h

/-- A call has no mutation in flight. -/
theorem isWorking_of_caller {t : Task} (h : t.role ≠ .worker) : t.isWorking = false := by
  cases t <;> first | rfl | exact absurd rfl h

end Task

/-- How often the mutation was tried, according to the given ones. -/
def tries (e : Entry) (ms : List Pending) : Nat :=
  (ms.map fun m => if m.entry = e then m.attempts else 0).sum

/-! ## Shares of threads -/

variable {p q p' : Pool} {i : Nat} {task task' : Task} {e : Entry}

/-- What all threads together have of a number. -/
def total (share : Task → Nat) (p : Pool) : Nat := (p.tasks.map share).sum

theorem Reaches.total_add (share : Task → Nat) (h : Reaches p i task' q p')
    (htask : p.tasks[i]? = some task) :
    p'.total share + share task = p.total share + share task' := by
  have hperm : (task :: p'.tasks).Perm (task' :: p.tasks) := h.tasks ▸ perm_set htask
  have hsum := (hperm.map share).sum_eq
  simp only [List.map_cons, List.sum_cons] at hsum
  unfold total
  omega

theorem total_call (share : Task → Nat) :
    total share { p with threads := p.threads ++ [.running task] } =
      p.total share + share task := by
  simp [total, tasks_call]

theorem total_fresh {config : Config} {share : Task → Nat} (h : share .fetch = 0) :
    (fresh config).total share = 0 := by
  simp [total, fresh, tasks, Thread.running, h]

theorem le_total (share : Task → Nat) (htask : p.tasks[i]? = some task) :
    share task ≤ p.total share :=
  List.single_le_sum (by simp) _ (List.mem_map_of_mem (List.mem_of_getElem? htask))

theorem total_eq_zero {share : Task → Nat} (h : ∀ t ∈ p.tasks, share t = 0) :
    p.total share = 0 := by
  unfold total
  exact List.sum_eq_zero (List.forall_mem_map.mpr h)

theorem total_toNat {f : Task → Bool} : p.total (fun t => (f t).toNat) = p.tasks.countP f := by
  unfold total
  induction p.tasks with
  | nil => rfl
  | cons t ts ih =>
    rw [List.map_cons, List.sum_cons, ih, List.countP_cons, Nat.add_comm]
    cases f t <;> rfl

@[simp] theorem tries_nil : tries e [] = 0 := rfl

@[simp] theorem tries_cons {m : Pending} {ms : List Pending} :
    tries e (m :: ms) = (if m.entry = e then m.attempts else 0) + tries e ms := by
  simp [tries]

@[simp] theorem tries_append {ms ms' : List Pending} :
    tries e (ms ++ ms') = tries e ms + tries e ms' := by
  simp [tries]

theorem tries_perm {ms ms' : List Pending} (h : ms.Perm ms') : tries e ms = tries e ms' :=
  (h.map _).sum_eq

/-- Retry list entries that may and that may not be tried once more. -/
theorem perm_mayRetry (fs : List Failed) :
    (fs.filter p.mayRetry ++ fs.filter (!p.mayRetry ·)).Perm fs :=
  List.filter_append_perm p.mayRetry fs

/-! ## One advance -/

/-- Workers come in flight with a mutation and leave when they report it as over. -/
theorem Advance.inFlight (h : Advance p task task' q)
    (hle : task.isWorking.toNat ≤ p.inFlight) :
    q.inFlight + task.isWorking.toNat = p.inFlight + task'.isWorking.toNat := by
  cases h with
  | takeCharge => split <;> rfl
  | release =>
    have hpos : 1 ≤ p.inFlight := hle
    simp [Task.isWorking]
    omega
  | _ => simp [Task.isWorking]

/-- A mutation has one more try when its execution begins, and keeps its tries where it goes. -/
theorem Advance.tries (h : Advance p task task' q)
    (hnew : ∀ m, task = .offer m → m.attempts = 0) :
    (task.ended? task').toList.countP (·.1.entry = e) +
        task'.executing?.toList.countP (·.entry = e) +
        (Pool.tries e p.stock + Pool.tries e task.held) =
      task.executing?.toList.countP (·.entry = e) +
        (Pool.tries e q.stock + Pool.tries e task.success?.toList + Pool.tries e task'.held) := by
  have hparts : Pool.tries e ((p.retries.filter p.mayRetry).map Failed.mutation) +
      Pool.tries e ((p.retries.filter (!p.mayRetry ·)).map Failed.mutation) =
        Pool.tries e (p.retries.map Failed.mutation) := by
    rw [← tries_append, ← List.map_append]
    exact tries_perm ((perm_mayRetry p.retries).map _)
  cases h with
  | park hcondition =>
    simp [Task.shares_of_condition hcondition]
  | @fetch m queue hqueue =>
    by_cases he : m.entry = e
    · have hentry : ({ m with attempts := m.attempts + 1 } : Pending).entry = e := he
      simp [stock, hqueue, Task.held, Task.success?, Task.executing?, Task.ended?, he, hentry]
      omega
    · have hentry : ({ m with attempts := m.attempts + 1 } : Pending).entry ≠ e := he
      simp [stock, hqueue, Task.held, Task.success?, Task.executing?, Task.ended?, he, hentry]
  | @accept m =>
    have hzero := hnew m rfl
    simp [stock, Task.held, Task.success?, Task.executing?, Task.ended?, hzero]
  | collectFresh hempty =>
    rw [hempty] at hparts
    simp [stock, Task.held, Task.success?, Task.executing?, Task.ended?] at hparts ⊢
    omega
  | collect =>
    simp [stock, Task.held, Task.success?, Task.executing?, Task.ended?] at hparts ⊢
    omega
  | takeCharge => split <;> simp [stock, Task.held, Task.success?, Task.executing?, Task.ended?]
  | keep | giveBack | resubmit | restore =>
    simp [stock, Task.held, Task.success?, Task.executing?, Task.ended?]
    omega
  | _ => simp [stock, Task.held, Task.success?, Task.executing?, Task.ended?]

/-- What leaves the queue is executed, and what comes back to it was replayed. -/
theorem Advance.rounds (h : Advance p task task' q) :
    (task.ended? task').toList.length + task'.executing?.toList.length +
        (p.counters.replayed + task.done + (p.retries.length + task.held.length)) =
      task.executing?.toList.length +
        (q.counters.replayed + task'.done +
          (q.retries.length + task.success?.toList.length + task'.held.length)) := by
  have hparts : (p.retries.filter p.mayRetry).length + (p.retries.filter (!p.mayRetry ·)).length =
      p.retries.length := by
    rw [← List.length_append]
    exact (perm_mayRetry p.retries).length_eq
  cases h with
  | park hcondition =>
    simp [Task.shares_of_condition hcondition]
  | collectFresh hempty =>
    have hfresh : (p.retries.filter p.mayRetry).length = p.retries.length := by
      simpa [hempty] using hparts
    simp [Task.held, Task.success?, Task.executing?, Task.ended?, Task.done, hfresh]
  | takeCharge => split <;> simp [Task.held, Task.success?, Task.executing?, Task.ended?, Task.done]
  | fetch | collect | giveBack | resubmit =>
    simp [Task.held, Task.success?, Task.executing?, Task.ended?, Task.done]
    omega
  | _ => simp [Task.held, Task.success?, Task.executing?, Task.ended?, Task.done, countReplayed]

theorem Advance.submitted (h : Advance p task task' q) :
    q.counters.submitted + task.hasSubmitted.toNat =
      p.counters.submitted + task'.hasSubmitted.toNat := by
  cases h with
  | takeCharge => split <;> rfl
  | _ => simp [Task.hasSubmitted, countReplayed]

theorem Advance.succeeded (h : Advance p task task' q) :
    q.counters.succeeded = p.counters.succeeded + task.success?.toList.length := by
  cases h with
  | park hcondition => simp [Task.shares_of_condition hcondition]
  | _ => simp [Task.success?, countReplayed]

theorem Advance.failed (h : Advance p task task' q) :
    q.counters.failed + task'.hasFailed.toNat =
      p.counters.failed + task.hasFailed.toNat +
        (task.ended? task').toList.countP fun x => !x.2.isOk := by
  cases h with
  | park => cases task <;> rfl
  | finish outcome time =>
    cases outcome <;> simp [Task.hasFailed, Task.ended?, Except.isOk, Except.toBool]
  | takeCharge => split <;> rfl
  | _ => simp [Task.hasFailed, Task.ended?, countReplayed]

/-- Whatever holds of the mutations of the queue once they are tried holds of all mutations outside
of it. -/
theorem Advance.forall_tried (holds : Pending → Prop) (h : Advance p task task' q)
    (htried : ∀ m ∈ p.queue, holds { m with attempts := m.attempts + 1 })
    (hretries : ∀ f ∈ p.retries, holds f.mutation) (hheld : ∀ m ∈ task.held, holds m) :
    (∀ f ∈ q.retries, holds f.mutation) ∧ (∀ m ∈ task'.held, holds m) ∧
      ∀ m ∈ task.success?, holds m := by
  cases h with
  | park hcondition =>
    exact ⟨hretries, hheld, by simp [Task.shares_of_condition hcondition]⟩
  | @fetch m queue hqueue =>
    have hfirst := htried m (hqueue ▸ List.mem_cons_self)
    exact ⟨hretries, by simpa [Task.held] using hfirst, by simp [Task.success?]⟩
  | succeed =>
    exact ⟨hretries, by simp [Task.held], by simpa [Task.success?, Task.held] using hheld⟩
  | takeCharge => exact ⟨hretries, by split <;> simp [Task.held], by simp [Task.success?]⟩
  | collect =>
    refine ⟨by simp, fun m hm => ?_, by simp [Task.success?]⟩
    obtain ⟨f, hf, rfl⟩ := List.mem_map.mp hm
    rw [List.mem_append, or_comm, ← List.mem_append] at hf
    exact hretries f ((perm_mayRetry p.retries).mem_iff.mp hf)
  | keep | giveBack | restore =>
    simp only [Task.held, List.mem_append, List.map_append, List.mem_map, List.mem_singleton,
      forall_eq, or_imp, forall_and, forall_exists_index, and_imp, forall_apply_eq_imp_iff₂]
      at hheld ⊢
    simp_all [Task.success?]
  | _ => simp_all [Task.held, Task.success?]

/-- A mutation that is offered for the first time is a new one. -/
theorem Advance.offer_attempts {m : Pending} (h : Advance p task task' q)
    (hnew : ∀ m, task = .offer m → m.attempts = 0) (hm : task' = .offer m) : m.attempts = 0 := by
  cases h with
  | park => exact hnew m hm
  | request =>
    obtain rfl := Task.offer.inj hm
    rfl
  | takeCharge => split at hm <;> cases hm
  | _ => cases hm

end Pool

open Pool

namespace Ledger

variable {l l' : Ledger} {config : Config}

/-! ## Actions and runs -/

/-- The execution that an action ends is told by the tasks before and after it. -/
theorem execution?_eq {p p' q : Pool} {a : Pool.Action} {i : Nat} {task task' : Task}
    (ha : a.thread? = some i) (hafter : p.after? a = some p') (htask : p.tasks[i]? = some task)
    (hadvance : Advance p task task' q) (hreaches : Reaches p i task' q p') :
    p.execution? a = task.ended? task' := by
  have hother : (∀ m, task ≠ .execute m) → task.ended? task' = none := by
    intro hne
    cases task <;> first | rfl | exact absurd rfl (hne _)
  cases a with
  | call first => cases ha
  | step j choice =>
    obtain rfl := Option.some.inj ha
    refine (hother fun m hm => ?_).symm
    subst hm
    rw [Pool.after?] at hafter
    split at hafter
    · rename_i hthread
      simp only [tasks, List.getElem?_map, hthread, Option.map_some, Option.some.injEq] at htask
      subst htask
      cases hafter
    · cases hafter
  | finish j outcome time =>
    obtain rfl := Option.some.inj ha
    rw [Pool.after?] at hafter
    split at hafter
    · rename_i m hthread
      have hexecute : task = .execute m := by
        simpa [tasks, hthread, eq_comm] using htask
      subst hexecute
      obtain rfl := Option.some.inj hafter
      have hlt : j < p.tasks.length := (List.getElem?_eq_some_iff.mp htask).1
      have hset : p.tasks.set j (.account m outcome time) = p.tasks.set j task' :=
        (reaches_goOn.tasks).symm.trans hreaches.tasks
      have htask' : Task.account m outcome time = task' := by
        simpa [hlt] using congrArg (fun ts => ts[j]?) hset
      simp [execution?, htask, ← htask', Task.ended?]
    · cases hafter
  | timeout j =>
    obtain rfl := Option.some.inj ha
    refine (hother fun m hm => ?_).symm
    subst hm
    rw [Pool.after?] at hafter
    split at hafter
    · rename_i hthread
      simp [tasks, hthread] at htask
    · cases hafter

/-- An action is a call that comes in, or an advance of one thread. -/
theorem after?_cases {a : Pool.Action} (hafter : l.after? a = some l') :
    (∃ task, task.isCall ∧
        l' = { l with
          pool := { l.pool with threads := l.pool.threads ++ [.running task] }
          begun := l.begun ++ [task] }) ∨
      ∃ i task task' q, l.pool.tasks[i]? = some task ∧ Advance l.pool task task' q ∧
        Reaches l.pool i task' q l'.pool ∧
        l' = { l with
          pool := l'.pool
          succeeded := l.succeeded ++ task.success?.toList
          executed := l.executed ++ (task.ended? task').toList } := by
  obtain ⟨h, hh, rfl⟩ := Option.map_eq_some_iff.mp hafter
  obtain ⟨p', hp', rfl⟩ := Option.map_eq_some_iff.mp hh
  rcases Pool.after?_cases hp' with
    ⟨task, rfl, hcall, rfl⟩ | ⟨i, task, hi, htask, task', q, hadvance, hreaches⟩
  · exact Or.inl ⟨task, hcall, by simp [Action.begun?, task?, Action.thread?, execution?]⟩
  · have hbegun : a.begun? = none := by cases a <;> simp_all [Action.thread?, Action.begun?]
    refine Or.inr ⟨i, task, task', q, htask, hadvance, hreaches, ?_⟩
    simp [hbegun, task?, hi, htask, execution?_eq hi hp' htask hadvance hreaches]

/-- What holds at the start and after every action holds after every run. -/
theorem run?_induction {motive : Ledger → Prop} {start : Ledger} (hstart : motive start)
    (hstep : ∀ {l l' a}, motive l → l.after? a = some l' → motive l') {actions : List Pool.Action}
    (hrun : start.run? actions = some l) : motive l :=
  foldlM_induction hstart hstep hrun

theorem toHistory_after? {a : Pool.Action} (hafter : l.after? a = some l') :
    l.toHistory.after? a = some l'.toHistory := by
  obtain ⟨h, hh, rfl⟩ := Option.map_eq_some_iff.mp hafter
  exact hh

/-- The history of a ledger stays balanced. -/
theorem balanced_of_run? {actions : List Pool.Action}
    (hrun : (start config).run? actions = some l) : l.Balanced :=
  run?_induction (motive := fun l => l.Balanced) (History.balanced_start config)
    (fun hbalanced hafter => hbalanced.after? (toHistory_after? hafter)) hrun

/-- An action of a ledger is one of its pool. -/
theorem pool_after? {a : Pool.Action} (hafter : l.after? a = some l') :
    l.pool.after? a = some l'.pool := by
  obtain ⟨p', hp', hh⟩ := Option.map_eq_some_iff.mp (toHistory_after? hafter)
  rw [hp', ← hh]

/-- What a pool does in one action, its ledger can record. -/
theorem exists_after? {p : Pool} {a : Pool.Action} (hafter : l.pool.after? a = some p) :
    ∃ l', l.after? a = some l' ∧ l'.pool = p := by
  simp [Ledger.after?, History.after?, hafter]

/-- What a pool does, its ledger can record. -/
theorem exists_run? {p : Pool} {actions : List Pool.Action}
    (hrun : l.pool.run? actions = some p) : ∃ l', l.run? actions = some l' ∧ l'.pool = p := by
  induction actions generalizing l with
  | nil => exact ⟨l, rfl, Option.some.inj hrun⟩
  | cons a actions ih =>
    rw [Pool.run?, List.foldlM_cons] at hrun
    obtain ⟨next, hnext, hrest⟩ := Option.bind_eq_some_iff.mp hrun
    obtain ⟨l₁, hafter, rfl⟩ := exists_after? hnext
    obtain ⟨l', hlater, hpool⟩ := ih hrest
    refine ⟨l', ?_, hpool⟩
    rw [Ledger.run?, List.foldlM_cons, hafter]
    exact hlater

/-- The first threads of a pool are its workers. -/
theorem role_of_mem_take {actions : List Pool.Action} {task : Pool.Task}
    (hrun : (start config).run? actions = some l)
    (htask : task ∈ l.pool.tasks.take l.pool.config.workers) : task.role = .worker := by
  obtain ⟨i, hi⟩ := List.getElem?_of_mem htask
  rw [List.getElem?_take] at hi
  split_ifs at hi with hlt
  exact ((balanced_of_run? hrun).task_role_iff hi).mpr hlt

theorem config_after? {a : Pool.Action} (hafter : l.after? a = some l') :
    l'.pool.config = l.pool.config := by
  rcases after?_cases hafter with ⟨task, -, rfl⟩ | ⟨i, task, task', q, -, hadvance, hreaches, -⟩
  · rfl
  · rw [hreaches.data, ← hadvance.config_eq]

theorem config_of_run? {actions : List Pool.Action}
    (hrun : (start config).run? actions = some l) : l.pool.config = config :=
  run?_induction (motive := fun l => l.pool.config = config) rfl
    (fun h hafter => (config_after? hafter).trans h) hrun

theorem perform?_of_step {i choice : Nat} {task : Task} (htask : l.pool.tasks[i]? = some task)
    (hafter : l.after? (.step i choice) = some l') :
    l.pool.perform? i choice task = some l'.pool :=
  Pool.perform?_of_step htask (pool_after? hafter)

/-! ## Every moment -/

/-- What the numbers of a pool have to do with its past. -/
structure Tallied (l : Ledger) : Prop where
  /-- The mutations in flight are in the hands of workers. -/
  inFlight : l.pool.inFlight = l.pool.total fun t => t.isWorking.toNat
  /-- A mutation that is offered for the first time has not been tried. -/
  untried : ∀ m, .offer m ∈ l.pool.tasks → m.attempts = 0
  /-- Outside of the queue there are only mutations that have been tried. -/
  retries : ∀ f ∈ l.pool.retries, 0 < f.mutation.attempts
  held : ∀ t ∈ l.pool.tasks, ∀ m ∈ t.held, 0 < m.attempts
  successes : ∀ m ∈ l.succeeded, 0 < m.attempts
  /-- A mutation is tried when its execution begins. -/
  tries : ∀ e, l.executions e + l.pool.total (fun t => t.executing?.toList.countP (·.entry = e)) =
    Pool.tries e l.pool.stock + Pool.tries e l.succeeded + l.pool.total fun t => Pool.tries e t.held
  /-- A mutation comes out of the queue to be executed, and into it again to be replayed. -/
  rounds : l.executed.length + l.pool.total (fun t => t.executing?.toList.length) =
    l.pool.counters.replayed + l.pool.total Task.done +
      (l.pool.retries.length + l.succeeded.length + l.pool.total fun t => t.held.length)
  submitted : l.pool.counters.submitted = l.pool.total fun t => t.hasSubmitted.toNat
  succeeded : l.pool.counters.succeeded = l.succeeded.length
  failed : l.pool.counters.failed + l.pool.total (fun t => t.hasFailed.toNat) =
    l.executed.countP fun x => !x.2.isOk

theorem tallied_start (config : Config) : Tallied (start config) := by
  have hfetch : ∀ t ∈ (start config).pool.tasks, t = .fetch := fun _ => eq_fetch_of_mem_fresh
  have hnone : ∀ {share : Task → Nat}, share .fetch = 0 → (start config).pool.total share = 0 :=
    total_fresh
  exact {
    inFlight := (hnone rfl).symm
    untried := fun m hm => by cases hfetch _ hm
    retries := fun f hf => absurd hf List.not_mem_nil
    held := fun t ht m hm => by
      rw [hfetch t ht] at hm
      cases hm
    successes := fun m hm => absurd hm List.not_mem_nil
    tries := fun e => by
      rw [hnone rfl, hnone rfl]
      rfl
    rounds := by
      rw [hnone rfl, hnone rfl, hnone rfl]
      rfl
    submitted := (hnone rfl).symm
    succeeded := rfl
    failed := by
      rw [hnone rfl]
      rfl }

theorem Tallied.call {task : Task} (h : l.Tallied) (hcall : task.isCall = true) :
    Tallied { l with
      pool := { l.pool with threads := l.pool.threads ++ [.running task] }
      begun := l.begun ++ [task] } := by
  obtain ⟨hworking, hexecuting, hheld, hdone, hsubmitted, hfailed⟩ := Task.shares_of_call hcall
  exact {
    inFlight := by
      rw [total_call, hworking]
      exact h.inFlight
    untried := by
      intro m hm
      rcases mem_tasks_call.mp hm with hm | rfl
      · exact h.untried m hm
      · cases hcall
    retries := h.retries
    held := by
      refine forall_tasks_call h.held ?_
      rw [hheld]
      exact List.forall_mem_nil _
    successes := h.successes
    tries := by
      intro e
      rw [total_call, total_call, hexecuting, hheld]
      exact h.tries e
    rounds := by
      rw [total_call, total_call, total_call, hexecuting, hheld, hdone]
      exact h.rounds
    submitted := by
      rw [total_call, hsubmitted]
      exact h.submitted
    succeeded := h.succeeded
    failed := by
      rw [total_call, hfailed]
      exact h.failed }

theorem Tallied.advance {i : Nat} {task task' : Task} {q : Pool} (h : l.Tallied)
    (htask : l.pool.tasks[i]? = some task) (hadvance : Advance l.pool task task' q)
    (hreaches : Reaches l.pool i task' q l'.pool)
    (hsucceeded : l'.succeeded = l.succeeded ++ task.success?.toList)
    (hexecuted : l'.executed = l.executed ++ (task.ended? task').toList) : l'.Tallied := by
  have hdata : l'.pool = { q with threads := l'.pool.threads } := hreaches.data
  have hretries : l'.pool.retries = q.retries := by rw [hdata]
  have hcounters : l'.pool.counters = q.counters := by rw [hdata]
  have hmem : task ∈ l.pool.tasks := List.mem_of_getElem? htask
  have hshare := fun share => hreaches.total_add share htask
  have hnew : ∀ m, task = .offer m → m.attempts = 0 := fun m hm => h.untried m (hm ▸ hmem)
  obtain ⟨hkept, hheld, hsuccess⟩ :=
    hadvance.forall_tried (fun m => 0 < m.attempts) (fun _ _ => Nat.succ_pos _) h.retries
      (h.held task hmem)
  exact {
    inFlight := by
      have hstep := hshare fun t => t.isWorking.toNat
      have hle := le_total (fun t => t.isWorking.toNat) htask
      rw [← h.inFlight] at hstep hle
      have hflight : l'.pool.inFlight = q.inFlight := by rw [hdata]
      have hmoved := hadvance.inFlight hle
      omega
    untried := by
      intro m hm
      rcases hreaches.mem_tasks hm with hm | hm
      · exact h.untried m hm
      · exact hadvance.offer_attempts hnew hm.symm
    retries := hretries ▸ hkept
    held := hreaches.forall_tasks h.held hheld
    successes := by
      intro m hm
      rw [hsucceeded, List.mem_append, Option.mem_toList] at hm
      exact hm.elim (h.successes m) (hsuccess m)
    tries := by
      intro e
      have hmoved := hadvance.tries (e := e) hnew
      have hexecuting := hshare fun t => t.executing?.toList.countP (·.entry = e)
      have hholding := hshare fun t => Pool.tries e t.held
      have hstock : l'.pool.stock = q.stock := by rw [hdata]; rfl
      have hbefore := h.tries e
      simp only [executions, hexecuted, hsucceeded, hstock, List.countP_append, tries_append]
        at hbefore ⊢
      omega
    rounds := by
      have hmoved := hadvance.rounds
      have hexecuting := hshare fun t => t.executing?.toList.length
      have hdone := hshare Task.done
      have hholding := hshare fun t => t.held.length
      have hbefore := h.rounds
      rw [hexecuted, hsucceeded, hretries, hcounters, List.length_append, List.length_append]
      omega
    submitted := by
      have hmoved := hadvance.submitted
      have hstep := hshare fun t => t.hasSubmitted.toNat
      have hbefore := h.submitted
      rw [hcounters]
      omega
    succeeded := by
      rw [hcounters, hsucceeded, hadvance.succeeded, h.succeeded, List.length_append]
    failed := by
      have hmoved := hadvance.failed
      have hstep := hshare fun t => t.hasFailed.toNat
      have hbefore := h.failed
      rw [hcounters, hexecuted, List.countP_append]
      omega }

theorem Tallied.after? {a : Pool.Action} (h : l.Tallied) (hafter : l.after? a = some l') :
    l'.Tallied := by
  rcases after?_cases hafter with
    ⟨task, hcall, rfl⟩ | ⟨i, task, task', q, htask, hadvance, hreaches, hl⟩
  · exact h.call hcall
  · exact h.advance htask hadvance hreaches (by rw [hl]) (by rw [hl])

theorem tallied_of_run? {actions : List Pool.Action}
    (hrun : (start config).run? actions = some l) : l.Tallied :=
  run?_induction (tallied_start config) Tallied.after? hrun

end Ledger

end GraphQuery
