import GraphQuery.Proofs.Tallies

/-!
# What a pool knows of its executions

An execution ends with an outcome.  The worker first counts it, then puts a
failed mutation into the retry list, and only then reports that the execution
is over.  `Ledger.Documented` says, for every moment of every run, how far
these records have come.

* What is to be counted is the outcome of an execution, and so is the reason
  that stands beside a failed mutation, wherever the mutation has got to
  (`Failed.TellsOf`).
* The executions of one mutation are numbered from one on by its attempts.

An entry therefore tells of the latest execution of its mutation if its
attempts are as many as there were executions (`Documented.latest?_eq`).  That
they are follows from the counts of the pool, because a mutation is in one
place only (`attempts_eq`).

While no worker has a mutation, the records are complete: every outcome is
counted (`counted_of_idle`), a mutation that was accepted and is not in the
queue has been executed (`executed_of_idle`), and its latest execution was a
success or is told of by an entry (`latest_of_idle`).
-/

namespace GraphQuery

namespace Pool

variable {p q p' : Pool} {i : Nat} {task task' : Task} {e : Entry}

/-- The retry list entries that a call has in its hands or has returned. -/
def Task.carried : Task → List Failed
  | giveBack exhausted fresh => exhausted ++ fresh
  | resubmit _ failed | restore _ failed | taken failed => failed
  | _ => []

/-- What a thread holds that has no execution to report was in the retry list. -/
theorem Task.held_eq_carried {t : Task} (h : t.isWorking = false) :
    t.held = t.carried.map Failed.mutation := by
  cases t <;> first | rfl | cases h

/-- A worker without a mutation has nothing to execute or to count. -/
theorem Task.shares_of_idle {t : Task} (h : t.isWorking = false) :
    t.executing? = none ∧ t.success? = none ∧ t.hasFailed = false := by
  cases t <;> first | exact ⟨rfl, rfl, rfl⟩ | cases h

/-- The entry gives the reason of an execution that failed. -/
def Failed.TellsOf (f : Failed) (executed : List (Pending × Except Error Unit)) : Prop :=
  ∃ err, (f.mutation, .error err) ∈ executed ∧ f.error = err.message

/-- The entry is in the retry list, or a call has taken it out. -/
def Recorded (p : Pool) (f : Failed) : Prop :=
  f ∈ p.retries ∨ ∃ t ∈ p.tasks, f ∈ t.carried

/-! ## One advance -/

/-- A worker counts the outcome of the execution that has ended. -/
theorem Advance.ended_of_account {m : Pending} {outcome : Except Error Unit} {time : Time}
    (h : Advance p task (.account m outcome time) q) :
    task.ended? (.account m outcome time) = some (m, outcome) := by
  generalize haccount : Task.account m outcome time = task' at h
  cases h with
  | park hcondition =>
    subst haccount
    cases hcondition
  | finish outcome' time' =>
    cases haccount
    rfl
  | takeCharge => split at haccount <;> cases haccount
  | _ => cases haccount

/-- A success is still to be counted when the execution has ended with it. -/
theorem Advance.successes (h : Advance p task task' q) :
    task'.success?.toList.length = (task.ended? task').toList.countP (·.2.isOk) := by
  cases h with
  | park hcondition =>
    obtain ⟨-, hsuccess, hended⟩ := Task.shares_of_condition hcondition
    rw [hsuccess, hended]
    rfl
  | finish outcome time => cases outcome <;> rfl
  | takeCharge => split <;> rfl
  | _ => rfl

/-- The execution that ends is that of the mutation at which the thread has worked. -/
theorem execute_of_ended {x : Pending × Except Error Unit} (h : task.ended? task' = some x) :
    task = .execute x.1 := by
  unfold Task.ended? at h
  split at h
  · rw [← Option.some.inj h]
  · cases h

/-- Whatever holds of a new entry holds of every entry, wherever a call carries it. -/
theorem Advance.forall_failed (tells : Failed → Prop) (h : Advance p task task' q)
    (hnew : ∀ m err time, task = .account m (.error err) time → tells ⟨m, err.message, time⟩)
    (hkeep : ∀ f, task = .keep f → tells f) (hretries : ∀ f ∈ p.retries, tells f)
    (hcarried : ∀ f ∈ task.carried, tells f) :
    (∀ f, task' = .keep f → tells f) ∧ (∀ f ∈ q.retries, tells f) ∧
      ∀ f ∈ task'.carried, tells f := by
  cases h with
  | park => exact ⟨hkeep, hretries, hcarried⟩
  | fail =>
    refine ⟨fun f hf => ?_, hretries, List.forall_mem_nil _⟩
    rw [← Task.keep.inj hf]
    exact hnew _ _ _ rfl
  | keep =>
    refine ⟨fun _ hf => Task.noConfusion hf, ?_, List.forall_mem_nil _⟩
    exact List.forall_mem_append.mpr ⟨hretries, List.forall_mem_singleton.mpr (hkeep _ rfl)⟩
  | collectFresh =>
    refine ⟨fun _ hf => Task.noConfusion hf, List.forall_mem_nil _, fun f hf => ?_⟩
    exact hretries f (List.mem_of_mem_filter hf)
  | collect =>
    refine ⟨fun _ hf => Task.noConfusion hf, List.forall_mem_nil _, fun f hf => ?_⟩
    rcases List.mem_append.mp hf with hf | hf
    · exact hretries f (List.mem_of_mem_filter hf)
    · exact hretries f (List.mem_of_mem_filter hf)
  | giveBack =>
    obtain ⟨hexhausted, hfresh⟩ := List.forall_mem_append.mp hcarried
    exact ⟨fun _ hf => Task.noConfusion hf, List.forall_mem_append.mpr ⟨hretries, hexhausted⟩,
      hfresh⟩
  | resubmit =>
    exact ⟨fun _ hf => Task.noConfusion hf, hretries, (List.forall_mem_cons.mp hcarried).2⟩
  | interrupt => exact ⟨fun _ hf => Task.noConfusion hf, hretries, hcarried⟩
  | restore =>
    exact ⟨fun _ hf => Task.noConfusion hf, List.forall_mem_append.mpr ⟨hretries, hcarried⟩,
      List.forall_mem_nil _⟩
  | take => exact ⟨fun _ hf => Task.noConfusion hf, List.forall_mem_nil _, hretries⟩
  | takeCharge =>
    split <;> exact ⟨fun _ hf => Task.noConfusion hf, hretries, List.forall_mem_nil _⟩
  | _ => exact ⟨fun _ hf => Task.noConfusion hf, hretries, List.forall_mem_nil _⟩

/-! ## Sums over places -/

theorem total_le_total {share share' : Task → Nat} (h : ∀ t, share t ≤ share' t) :
    p.total share ≤ p.total share' :=
  List.sum_le_sum fun t _ => h t

theorem tries_flatMap_held :
    tries e (p.tasks.flatMap Task.held) = p.total fun t => tries e t.held := by
  unfold total
  induction p.tasks with
  | nil => rfl
  | cons t ts ih => rw [List.flatMap_cons, tries_append, List.map_cons, List.sum_cons, ih]

/-- Of mutations that are told apart by their entries, only the one itself counts. -/
theorem tries_entry {m : Pending} {ms : List Pending} (hnodup : (ms.map Pending.entry).Nodup)
    (hm : m ∈ ms) : tries m.entry ms = m.attempts := by
  induction ms with
  | nil => cases hm
  | cons m' ms ih =>
    obtain ⟨hnew, hrest⟩ := List.nodup_cons.mp hnodup
    rw [tries_cons]
    rcases List.mem_cons.mp hm with rfl | hm
    · have hnone : tries m.entry ms = 0 := by
        refine List.sum_eq_zero (List.forall_mem_map.mpr fun m' hm' => ?_)
        refine if_neg fun hentry => hnew ?_
        exact hentry ▸ List.mem_map_of_mem hm'
      rw [if_pos rfl, hnone, Nat.add_zero]
    · have hne : m'.entry ≠ m.entry := by
        intro hentry
        exact hnew (hentry ▸ List.mem_map_of_mem hm)
      rw [if_neg hne, ih hrest hm, Nat.zero_add]

end Pool

open Pool

namespace History

variable {h : History} {m : Pending}

theorem Balanced.holdings_eq (hbalanced : Balanced h) :
    h.holdings = h.pool.stock ++ h.succeeded ++ h.pool.tasks.flatMap Task.held := by
  rw [holdings, ← hbalanced.map_snd_lives, List.flatMap_map]

theorem Balanced.entries_nodup (hbalanced : Balanced h) : (h.holdings.map Pending.entry).Nodup :=
  hbalanced.perm.nodup_iff.mpr (List.Nodup.of_map _ hbalanced.accepted_nodup)

/-- A mutation is in the hands of one thread at most. -/
theorem Balanced.total_held_le {e : Entry} (hbalanced : Balanced h) :
    h.pool.total (fun t => t.held.countP (·.entry = e)) ≤ 1 := by
  have hone : h.holdings.countP (·.entry = e) ≤ 1 := by
    have hcount := List.nodup_iff_count_le_one.mp hbalanced.entries_nodup e
    rw [List.count, List.countP_map] at hcount
    simpa [Function.comp_def, beq_eq_decide] using hcount
  rw [hbalanced.holdings_eq, List.countP_append, List.countP_flatMap] at hone
  exact (Nat.le_add_left _ _).trans hone

end History

namespace Ledger

variable {l l' : Ledger} {config : Config}

/-! ## Attempts -/

theorem tries_holdings (hbalanced : l.Balanced) (htallied : l.Tallied) (e : Entry) :
    Pool.tries e l.holdings =
      l.executions e + l.pool.total fun t => t.executing?.toList.countP (·.entry = e) := by
  rw [htallied.tries, hbalanced.holdings_eq, tries_append, tries_append, tries_flatMap_held]

/-- Wherever a mutation is, it has been tried as often as it was executed, with one more try while
it is being executed. -/
theorem attempts_eq {m : Pending} (hbalanced : l.Balanced) (htallied : l.Tallied)
    (hm : m ∈ l.holdings) :
    m.attempts = l.executions m.entry +
      l.pool.total fun t => t.executing?.toList.countP (·.entry = m.entry) := by
  rw [← tries_holdings hbalanced htallied, tries_entry hbalanced.entries_nodup hm]

theorem mem_holdings_of_held {t : Task} {m : Pending} (hbalanced : l.Balanced)
    (ht : t ∈ l.pool.tasks) (hm : m ∈ t.held) : m ∈ l.holdings := by
  rw [hbalanced.holdings_eq]
  exact List.mem_append_right _ (List.mem_flatMap.mpr ⟨t, ht, hm⟩)

/-- The try that is going on is the next after all executions that have ended. -/
theorem attempts_of_execute {m : Pending} (hbalanced : l.Balanced) (htallied : l.Tallied)
    (hexecute : .execute m ∈ l.pool.tasks) : m.attempts = l.executions m.entry + 1 := by
  have hattempts := attempts_eq hbalanced htallied
    (mem_holdings_of_held hbalanced hexecute (List.mem_singleton_self m))
  have hmost : l.pool.total (fun t => t.executing?.toList.countP (·.entry = m.entry)) ≤ 1 := by
    refine (total_le_total fun t => ?_).trans (hbalanced.total_held_le (e := m.entry))
    cases t <;> simp [Task.executing?, Task.held]
  obtain ⟨i, hi⟩ := List.getElem?_of_mem hexecute
  have hleast : 1 ≤ l.pool.total fun t => t.executing?.toList.countP (·.entry = m.entry) := by
    have hone : [m].countP (·.entry = m.entry) = 1 := by simp
    exact hone ▸ le_total (fun t => t.executing?.toList.countP (·.entry = m.entry)) hi
  omega

/-! ## Every moment -/

/-- How far the records of a pool have come. -/
structure Documented (l : Ledger) : Prop where
  /-- What a worker counts is the outcome of an execution. -/
  accounts : ∀ m outcome time, .account m outcome time ∈ l.pool.tasks → (m, outcome) ∈ l.executed
  /-- Every entry of the retry list tells of an execution that failed. -/
  keeps : ∀ f, .keep f ∈ l.pool.tasks → f.TellsOf l.executed
  retries : ∀ f ∈ l.pool.retries, f.TellsOf l.executed
  carried : ∀ t ∈ l.pool.tasks, ∀ f ∈ t.carried, f.TellsOf l.executed
  /-- What is listed as a success was executed with success. -/
  successes : ∀ m ∈ l.succeeded, (m, .ok ()) ∈ l.executed
  succeeded : l.succeeded.length + l.pool.total (fun t => t.success?.toList.length) =
    l.executed.countP (·.2.isOk)
  /-- The executions of a mutation are numbered by its attempts. -/
  numbered : ∀ e, (l.executed.filter (·.1.entry = e)).map (·.1.attempts) =
    List.range' 1 (l.executions e)

theorem documented_start (config : Config) : Documented (start config) := by
  have hfetch : ∀ t ∈ (start config).pool.tasks, t = .fetch := fun _ => eq_fetch_of_mem_fresh
  exact {
    accounts := fun m outcome time h => by cases hfetch _ h
    keeps := fun f h => by cases hfetch _ h
    retries := fun f hf => absurd hf List.not_mem_nil
    carried := fun t ht f hf => by
      rw [hfetch t ht] at hf
      cases hf
    successes := fun m hm => absurd hm List.not_mem_nil
    succeeded := (Nat.zero_add _).trans (total_fresh rfl)
    numbered := fun e => rfl }

theorem Documented.call {task : Task} (h : l.Documented) (hcall : task.isCall = true) :
    Documented { l with
      pool := { l.pool with threads := l.pool.threads ++ [.running task] }
      begun := l.begun ++ [task] } := by
  exact {
    accounts := by
      intro m outcome time ht
      rcases mem_tasks_call.mp ht with ht | rfl
      · exact h.accounts m outcome time ht
      · cases hcall
    keeps := by
      intro f ht
      rcases mem_tasks_call.mp ht with ht | rfl
      · exact h.keeps f ht
      · cases hcall
    retries := h.retries
    carried := by
      refine forall_tasks_call h.carried ?_
      cases task <;> first | exact List.forall_mem_nil _ | cases hcall
    successes := h.successes
    succeeded := by
      have hnone : task.success? = none := by cases task <;> first | rfl | cases hcall
      rw [total_call, hnone]
      exact h.succeeded
    numbered := h.numbered }

theorem Documented.advance {i : Nat} {task task' : Task} {q : Pool} (h : l.Documented)
    (hbalanced : l.Balanced) (htallied : l.Tallied) (htask : l.pool.tasks[i]? = some task)
    (hadvance : Advance l.pool task task' q) (hreaches : Reaches l.pool i task' q l'.pool)
    (hsucceeded : l'.succeeded = l.succeeded ++ task.success?.toList)
    (hexecuted : l'.executed = l.executed ++ (task.ended? task').toList) : l'.Documented := by
  have hmem : task ∈ l.pool.tasks := List.mem_of_getElem? htask
  have hretries : l'.pool.retries = q.retries := by rw [hreaches.data]
  have hgrow : ∀ {x}, x ∈ l.executed → x ∈ l'.executed := by
    intro x hx
    rw [hexecuted]
    exact List.mem_append_left _ hx
  have htell : ∀ {f : Failed}, f.TellsOf l.executed → f.TellsOf l'.executed :=
    fun ⟨err, hexecution, herror⟩ => ⟨err, hgrow hexecution, herror⟩
  obtain ⟨hkeeps, hkept, hcarried⟩ := hadvance.forall_failed (·.TellsOf l'.executed)
    (fun m err time haccount => ⟨err, hgrow (h.accounts m _ time (haccount ▸ hmem)), rfl⟩)
    (fun f hf => htell (h.keeps f (hf ▸ hmem))) (fun f hf => htell (h.retries f hf))
    (fun f hf => htell (h.carried task hmem f hf))
  exact {
    accounts := by
      intro m outcome time ht
      rcases hreaches.mem_tasks ht with ht | rfl
      · exact hgrow (h.accounts m outcome time ht)
      · rw [hexecuted, hadvance.ended_of_account]
        exact List.mem_append_right _ (List.mem_singleton_self _)
    keeps := by
      intro f ht
      rcases hreaches.mem_tasks ht with ht | ht
      · exact htell (h.keeps f ht)
      · exact hkeeps f ht.symm
    retries := hretries ▸ hkept
    carried :=
      hreaches.forall_tasks (fun t ht f hf => htell (h.carried t ht f hf)) hcarried
    successes := by
      intro m hm
      rw [hsucceeded, List.mem_append, Option.mem_toList] at hm
      rcases hm with hm | hm
      · exact hgrow (h.successes m hm)
      · cases task with
        | account m' outcome time =>
          cases outcome with
          | ok u =>
            obtain rfl := Option.some.inj hm
            exact hgrow (h.accounts m' (.ok u) time hmem)
          | error err => cases hm
        | _ => cases hm
    succeeded := by
      have hmoved := hadvance.successes
      have hstep := hreaches.total_add (fun t => t.success?.toList.length) htask
      have hbefore := h.succeeded
      rw [hsucceeded, hexecuted, List.length_append, List.countP_append]
      omega
    numbered := by
      intro e
      have hbefore := h.numbered e
      cases hended : task.ended? task' with
      | none => simpa [hexecuted, hended, executions] using hbefore
      | some x =>
        have hattempts := attempts_of_execute hbalanced htallied (execute_of_ended hended ▸ hmem)
        simp only [executions, hexecuted, hended, Option.toList_some, List.filter_append,
          List.map_append, List.countP_append] at hbefore hattempts ⊢
        -- The last execution counts for its own mutation only.
        by_cases he : x.1.entry = e
        · subst he
          simp [hbefore, hattempts, List.range'_concat, Nat.add_comm 1]
        · simp [hbefore, he] }

theorem Documented.after? {a : Pool.Action} (h : l.Documented) (hbalanced : l.Balanced)
    (htallied : l.Tallied) (hafter : l.after? a = some l') : l'.Documented := by
  rcases after?_cases hafter with
    ⟨task, hcall, rfl⟩ | ⟨i, task, task', q, htask, hadvance, hreaches, hl⟩
  · exact h.call hcall
  · exact h.advance hbalanced htallied htask hadvance hreaches (by rw [hl]) (by rw [hl])

theorem documented_of_run? {actions : List Pool.Action}
    (hrun : (start config).run? actions = some l) : l.Documented := by
  have hall : l.Documented ∧ l.Balanced ∧ l.Tallied :=
    run?_induction (motive := fun l => l.Documented ∧ l.Balanced ∧ l.Tallied)
      ⟨documented_start config, History.balanced_start config, tallied_start config⟩
      (fun h hafter => ⟨h.1.after? h.2.1 h.2.2 hafter, h.2.1.after? (toHistory_after? hafter),
        h.2.2.after? hafter⟩) hrun
  exact hall.1

theorem Documented.tells {f : Failed} (h : l.Documented) (hf : l.pool.Recorded f) :
    f.TellsOf l.executed := by
  rcases hf with hf | ⟨t, ht, hf⟩
  · exact h.retries f hf
  · exact h.carried t ht f hf

/-! ## The latest execution -/

/-- The execution of a mutation that ended last. -/
def latest? (l : Ledger) (e : Entry) : Option (Pending × Except Error Unit) :=
  (l.executed.filter (·.1.entry = e)).getLast?

/-- An execution is the latest of its mutation if it has the largest number. -/
theorem Documented.latest?_eq {x : Pending × Except Error Unit} (h : l.Documented)
    (hx : x ∈ l.executed) (hattempts : x.1.attempts = l.executions x.1.entry) :
    l.latest? x.1.entry = some x := by
  have hnumbered := h.numbered x.1.entry
  have hlength : (l.executed.filter (·.1.entry = x.1.entry)).length = l.executions x.1.entry :=
    (List.countP_eq_length_filter).symm
  have hmem : x ∈ l.executed.filter (·.1.entry = x.1.entry) :=
    List.mem_filter.mpr ⟨hx, decide_eq_true rfl⟩
  obtain ⟨k, hk⟩ := List.getElem?_of_mem hmem
  have hlt := (List.getElem?_eq_some_iff.mp hk).1
  -- The execution at position `k` has the number `k + 1`, which is that of the last one.
  have hnumber : x.1.attempts = 1 + k := by
    have hat := congrArg (fun ns : List Nat => ns[k]?) hnumbered
    simpa [hk, List.getElem?_range', hlength ▸ hlt] using hat
  rw [latest?, List.getLast?_eq_getElem?, ← hk]
  congr 1
  omega

/-! ## Between executions -/

/-- Without mutations in flight, no worker has one in its hands. -/
theorem Tallied.isWorking_eq (htallied : l.Tallied) (hinFlight : l.pool.inFlight = 0) :
    ∀ t ∈ l.pool.tasks, t.isWorking = false := by
  have hnone := htallied.inFlight
  rw [hinFlight, total_toNat] at hnone
  exact fun t ht => Bool.eq_false_iff.mpr (List.countP_eq_zero.mp hnone.symm t ht)

section
variable (hidle : ∀ t ∈ l.pool.tasks, t.isWorking = false)
include hidle

/-- All outcomes have been counted. -/
theorem counted_of_idle (htallied : l.Tallied) (hdocumented : l.Documented) :
    l.pool.counters.succeeded = l.executed.countP (·.2.isOk) ∧
      l.pool.counters.failed = l.executed.countP fun x => !x.2.isOk := by
  have hsuccess : l.pool.total (fun t => t.success?.toList.length) = 0 := by
    refine total_eq_zero fun t ht => ?_
    rw [(Task.shares_of_idle (hidle t ht)).2.1]
    rfl
  have hfailed : l.pool.total (fun t => t.hasFailed.toNat) = 0 := by
    refine total_eq_zero fun t ht => ?_
    rw [(Task.shares_of_idle (hidle t ht)).2.2]
    rfl
  have hsucceeded := htallied.succeeded
  have houtcomes := hdocumented.succeeded
  have hfailures := htallied.failed
  omega

/-- With nothing in the queue, what has not succeeded is left in an entry of the retry list. -/
theorem mem_holdings_of_idle {m : Pending} (hbalanced : l.Balanced) (hqueue : l.pool.queue = []) :
    m ∈ l.holdings ↔ m ∈ l.succeeded ∨ ∃ f, l.pool.Recorded f ∧ f.mutation = m := by
  rw [hbalanced.holdings_eq, stock, hqueue, List.nil_append, List.mem_append, List.mem_append,
    List.mem_flatMap, List.mem_map]
  constructor
  · rintro ((⟨f, hf, rfl⟩ | hm) | ⟨t, ht, hm⟩)
    · exact Or.inr ⟨f, Or.inl hf, rfl⟩
    · exact Or.inl hm
    · rw [Task.held_eq_carried (hidle t ht)] at hm
      obtain ⟨f, hf, rfl⟩ := List.mem_map.mp hm
      exact Or.inr ⟨f, Or.inr ⟨t, ht, hf⟩, rfl⟩
  · rintro (hm | ⟨f, hf | ⟨t, ht, hf⟩, rfl⟩)
    · exact Or.inl (Or.inr hm)
    · exact Or.inl (Or.inl ⟨f, hf, rfl⟩)
    · refine Or.inr ⟨t, ht, ?_⟩
      rw [Task.held_eq_carried (hidle t ht)]
      exact List.mem_map_of_mem hf

theorem attempts_of_idle {m : Pending} (hbalanced : l.Balanced) (htallied : l.Tallied)
    (hm : m ∈ l.holdings) : m.attempts = l.executions m.entry := by
  rw [attempts_eq hbalanced htallied hm, total_eq_zero fun t ht => ?_, Nat.add_zero]
  rw [(Task.shares_of_idle (hidle t ht)).1]
  rfl

/-- A mutation that was accepted and is not in the queue has been executed. -/
theorem executed_of_idle {e : Entry} (hbalanced : l.Balanced) (htallied : l.Tallied)
    (hqueue : l.pool.queue = []) (he : e ∈ l.accepted) : 0 < l.executions e := by
  obtain ⟨m, hm, rfl⟩ := List.mem_map.mp (hbalanced.perm.mem_iff.mpr he)
  rw [← attempts_of_idle hidle hbalanced htallied hm]
  rcases (mem_holdings_of_idle hidle hbalanced hqueue).mp hm with
    hm | ⟨f, hf | ⟨t, ht, hf⟩, rfl⟩
  · exact htallied.successes m hm
  · exact htallied.retries f hf
  · refine htallied.held t ht f.mutation ?_
    rw [Task.held_eq_carried (hidle t ht)]
    exact List.mem_map_of_mem hf

/-- The latest execution of a mutation was a success, or it failed, and a retry list entry tells
of it. -/
theorem latest_of_idle {e : Entry} (hbalanced : l.Balanced) (htallied : l.Tallied)
    (hdocumented : l.Documented) (hqueue : l.pool.queue = []) (he : e ∈ l.accepted) :
    (∃ m, l.latest? e = some (m, .ok ())) ∨
      ∃ f err, l.pool.Recorded f ∧ l.latest? e = some (f.mutation, .error err) ∧
        f.error = err.message := by
  obtain ⟨m, hm, rfl⟩ := List.mem_map.mp (hbalanced.perm.mem_iff.mpr he)
  have hlast : ∀ {outcome}, (m, outcome) ∈ l.executed → l.latest? m.entry = some (m, outcome) :=
    fun hexecution =>
      hdocumented.latest?_eq hexecution (attempts_of_idle hidle hbalanced htallied hm)
  rcases (mem_holdings_of_idle hidle hbalanced hqueue).mp hm with hm | ⟨f, hf, rfl⟩
  · exact Or.inl ⟨m, hlast (hdocumented.successes m hm)⟩
  · obtain ⟨err, hexecution, herror⟩ := hdocumented.tells hf
    exact Or.inr ⟨f, err, hf, hlast hexecution, herror⟩

end

end Ledger

end GraphQuery
