import GraphQuery.Pool.Campaign
import GraphQuery.Proofs.Tallies

/-!
# The attempts of each mutation

The mutations of a campaign go through the pool in step.  Before the first
replay all of them are tried for the first time, and between one replay and
the next those that always failed are tried once more.

`Campaign.Sound` says this of a pool with its past, for the number of replays
that have taken the retry list.  A mutation that waits in the queue has been
tried once for each of them (`Campaign.Due`), one in the retry list once more,
unless it has reached the limit (`Campaign.Kept`), and one that was executed
with success had failed in all attempts before that (`Campaign.Won`).

Any advance keeps the number of replays (`Sound.moves`), except for a call
that takes the retry list (`Pool.Advance.collected`).
-/

namespace GraphQuery

open Pool

namespace Campaign

variable {c : Campaign} {stage id a : Nat} {m : Pending} {f : Failed} {l : Ledger}

/-! ## Executions -/

theorem failsAll_iff : c.failsAll id a = true ↔ ∀ k < a, c.fails id (k + 1) = true := by
  simp [failsAll]

theorem failsAll_succ : c.failsAll id (a + 1) = (c.failsAll id a && c.fails id (a + 1)) := by
  simp [failsAll, List.range_succ]

theorem not_failsAll {k : Nat} (hk : 0 < k) (hle : k ≤ a) (hsuccess : c.fails id k = false) :
    c.failsAll id a = false := by
  refine Bool.eq_false_iff.mpr fun hall => ?_
  have hfails : c.fails id (k - 1 + 1) = true := failsAll_iff.mp hall (k - 1) (by omega)
  rw [Nat.sub_add_cancel hk, hsuccess] at hfails
  cases hfails

theorem maxAttempts_pos : 0 < c.maxAttempts := Nat.le_max_left 1 _

theorem tries_pos : 1 ≤ c.tries id := by
  have hlimit : 1 ≤ c.limit := by
    have hpos : 0 < c.maxAttempts := maxAttempts_pos
    unfold limit
    omega
  unfold tries
  omega

/-- A mutation that always fails is tried up to the limit. -/
theorem tries_of_failsAll (h : c.failsAll id c.limit = true) : c.tries id = c.limit := by
  have hnone : (List.range c.limit).findIdx (fun k => !c.fails id (k + 1)) = c.limit := by
    refine (List.findIdx_eq_length_of_false fun k hk => ?_).trans List.length_range
    rw [failsAll_iff.mp h k (List.mem_range.mp hk)]
    rfl
  rw [tries, hnone]
  omega

/-- A mutation that succeeds is tried until it does. -/
theorem tries_of_success (hpos : 0 < a) (hle : a ≤ c.limit) (hfailed : c.failsAll id (a - 1) = true)
    (hsuccess : c.fails id a = false) : c.tries id = a := by
  have hfirst : (List.range c.limit).findIdx (fun k => !c.fails id (k + 1)) = a - 1 := by
    rw [List.findIdx_eq (by simpa using by omega)]
    refine ⟨?_, fun k hk => ?_⟩
    · rw [List.getElem_range, Nat.sub_add_cancel hpos, hsuccess]
      rfl
    · rw [List.getElem_range, failsAll_iff.mp hfailed k hk]
      rfl
  rw [tries, hfirst]
  omega

/-! ## Mutations on their way -/

/-- How often a mutation was tried that always failed, once its last try so far is over. -/
def reached (c : Campaign) (stage : Nat) : Nat := min (stage + 1) c.maxAttempts

/-- The mutation waits for its next try. -/
structure Due (c : Campaign) (stage : Nat) (m : Pending) : Prop where
  attempts : m.attempts = stage
  allowed : stage < c.maxAttempts
  failed : c.failsAll m.id stage = true

/-- The mutation is being tried. -/
structure Tried (c : Campaign) (stage : Nat) (m : Pending) : Prop where
  attempts : m.attempts = stage + 1
  allowed : stage < c.maxAttempts
  failed : c.failsAll m.id stage = true

/-- The mutation always failed, and the message is the last one. -/
structure Kept (c : Campaign) (stage : Nat) (f : Failed) : Prop where
  attempts : f.mutation.attempts = c.reached stage
  failed : c.failsAll f.mutation.id (c.reached stage) = true
  error : ∃ e, c.recorded f.mutation.id (c.reached stage) = .error e ∧ f.error = e.message

/-- The mutation was executed with success after it had always failed. -/
structure Won (c : Campaign) (stage : Nat) (m : Pending) : Prop where
  positive : 0 < m.attempts
  attempts : m.attempts ≤ c.reached stage
  failed : c.failsAll m.id (m.attempts - 1) = true
  success : c.fails m.id m.attempts = false

theorem Due.tried (h : c.Due stage m) : c.Tried stage { m with attempts := m.attempts + 1 } :=
  ⟨congrArg (· + 1) h.attempts, h.allowed, h.failed⟩

theorem Tried.reached_eq (h : c.Tried stage m) : c.reached stage = m.attempts := by
  have hattempts := h.attempts
  have hallowed := h.allowed
  unfold reached
  omega

theorem Tried.won {u : Unit} (h : c.Tried stage m) (hok : .ok u = c.recorded m.id m.attempts) :
    c.Won stage m where
  positive := h.attempts ▸ Nat.succ_pos stage
  attempts := Nat.le_of_eq h.reached_eq.symm
  failed := by
    rw [h.attempts, Nat.add_sub_cancel]
    exact h.failed
  success := by
    rw [fails, ← hok]
    rfl

theorem Tried.kept {e : Error} {time : Time} (h : c.Tried stage m)
    (herror : .error e = c.recorded m.id m.attempts) : c.Kept stage ⟨m, e.message, time⟩ where
  attempts := h.reached_eq.symm
  failed := by
    have hfails : c.fails m.id (stage + 1) = true := by
      rw [fails, ← h.attempts, ← herror]
      rfl
    rw [h.reached_eq, h.attempts, failsAll_succ, h.failed, hfails]
    rfl
  error := ⟨e, h.reached_eq ▸ herror.symm, rfl⟩

/-- A mutation that may be tried once more is due at the next stage. -/
theorem Kept.due (h : c.Kept stage f) (hmay : f.mutation.attempts < c.maxAttempts) :
    c.Due (stage + 1) f.mutation := by
  have hattempts : f.mutation.attempts = min (stage + 1) c.maxAttempts := h.attempts
  have hreached : c.reached stage = stage + 1 := by
    unfold reached
    omega
  exact ⟨h.attempts.trans hreached, by omega, hreached ▸ h.failed⟩

/-- A mutation that may not stays as it is. -/
theorem Kept.exhausted (h : c.Kept stage f) (hmay : ¬f.mutation.attempts < c.maxAttempts) :
    c.Kept (stage + 1) f := by
  have hattempts : f.mutation.attempts = min (stage + 1) c.maxAttempts := h.attempts
  have hreached : c.reached (stage + 1) = c.reached stage := by
    unfold reached
    omega
  exact ⟨hreached ▸ h.attempts, hreached ▸ h.failed, hreached ▸ h.error⟩

theorem Won.mono (h : c.Won stage m) : c.Won (stage + 1) m := by
  refine ⟨h.positive, h.attempts.trans ?_, h.failed, h.success⟩
  unfold reached
  omega

/-- What a thread of a campaign may be about to do, and with which mutations. -/
def Handles (c : Campaign) (stage : Nat) : Task → Prop
  | .execute m => c.Tried stage m
  | .account m outcome _ => c.Tried stage m ∧ outcome = c.recorded m.id m.attempts
  | .keep f => c.Kept stage f
  | .request _ => stage = 0
  | .offer m => c.Due stage m
  | .giveBack exhausted fresh =>
    (∀ f ∈ exhausted, c.Kept stage f) ∧ ∀ f ∈ fresh, c.Due stage f.mutation
  | .resubmit _ remaining => ∀ f ∈ remaining, c.Due stage f.mutation
  | .fetch | .release | .confirm _ | .submitted (.ok _) | .collect | .replayed (.ok _)
  | .await false | .flushed true => True
  | _ => False

/-- Every mutation was tried as often as the stage of the campaign says. -/
structure Sound (c : Campaign) (stage : Nat) (l : Ledger) : Prop where
  queue : ∀ m ∈ l.pool.queue, c.Due stage m
  retries : ∀ f ∈ l.pool.retries, c.Kept stage f
  succeeded : ∀ m ∈ l.succeeded, c.Won stage m
  handles : ∀ t ∈ l.pool.tasks, c.Handles stage t

end Campaign

namespace Pool

variable {c : Campaign} {stage : Nat} {p q : Pool} {task task' : Task}

/-- An advance moves mutations about and lets them be tried, and the stage stays the same. -/
theorem Advance.sound (h : Advance p task task' q) (hopen : p.isClosed = false)
    (hcollect : task ≠ .collect)
    (hrecorded : ∀ x ∈ task.ended? task', x.2 = c.recorded x.1.id x.1.attempts)
    (hqueue : ∀ m ∈ p.queue, c.Due stage m) (hretries : ∀ f ∈ p.retries, c.Kept stage f)
    (hhandles : c.Handles stage task) :
    (∀ m ∈ q.queue, c.Due stage m) ∧ (∀ f ∈ q.retries, c.Kept stage f) ∧
      c.Handles stage task' ∧ ∀ m ∈ task.success?, c.Won stage m := by
  cases h with
  | park hcondition =>
    exact ⟨hqueue, hretries, hhandles, by simp [Task.shares_of_condition hcondition]⟩
  | @fetch m queue hbefore =>
    rw [hbefore, List.forall_mem_cons] at hqueue
    exact ⟨hqueue.2, hretries, hqueue.1.tried, by simp [Task.success?]⟩
  | leave hempty hclosed | refuse hclosed | interrupt hclosed =>
    rw [hopen] at hclosed
    cases hclosed
  | finish outcome time =>
    exact ⟨hqueue, hretries, ⟨hhandles, hrecorded _ rfl⟩, by simp [Task.success?]⟩
  | succeed =>
    obtain ⟨htried, hok⟩ := hhandles
    exact ⟨hqueue, hretries, trivial, by simpa [Task.success?] using htried.won hok⟩
  | fail =>
    obtain ⟨htried, herror⟩ := hhandles
    exact ⟨hqueue, hretries, htried.kept herror, by simp [Task.success?]⟩
  | keep =>
    have hkept := List.forall_mem_append.mpr ⟨hretries, List.forall_mem_singleton.mpr hhandles⟩
    exact ⟨hqueue, hkept, trivial, by simp [Task.success?]⟩
  | request =>
    obtain rfl := hhandles
    exact ⟨hqueue, hretries, ⟨rfl, Campaign.maxAttempts_pos, rfl⟩, by simp [Task.success?]⟩
  | accept =>
    have hdue := List.forall_mem_append.mpr ⟨hqueue, List.forall_mem_singleton.mpr hhandles⟩
    exact ⟨hdue, hretries, trivial, by simp [Task.success?]⟩
  | collectFresh | collect => exact absurd rfl hcollect
  | giveBack =>
    obtain ⟨hexhausted, hfresh⟩ := hhandles
    have hkept := List.forall_mem_append.mpr ⟨hretries, hexhausted⟩
    exact ⟨hqueue, hkept, hfresh, by simp [Task.success?]⟩
  | resubmit =>
    obtain ⟨hfirst, hothers⟩ := List.forall_mem_cons.mp hhandles
    have hdue := List.forall_mem_append.mpr ⟨hqueue, List.forall_mem_singleton.mpr hfirst⟩
    exact ⟨hdue, hretries, hothers, by simp [Task.success?]⟩
  | release | confirm | replayed => exact ⟨hqueue, hretries, trivial, by simp [Task.success?]⟩
  | @flushed isTimed hidle => exact ⟨hqueue, hretries, trivial, by simp [Task.success?]⟩
  | expire | restore | take | close | wakeWorkers | wakeCallers | takeCharge | join =>
    cases hhandles

/-- A call that takes the retry list begins the next stage. -/
theorem Advance.collected (h : Advance p .collect task' q)
    (hmax : p.config.maxAttempts = c.settings.maxAttempts.toNat)
    (hretries : ∀ f ∈ p.retries, c.Kept stage f) :
    q.queue = p.queue ∧ q.retries = [] ∧ c.Handles (stage + 1) task' := by
  have hmay : ∀ f, p.mayRetry f = decide (f.mutation.attempts < c.maxAttempts) := by
    intro f
    rw [mayRetry, hmax, Campaign.maxAttempts]
  have hfresh : ∀ f ∈ p.retries.filter p.mayRetry, c.Due (stage + 1) f.mutation := by
    intro f hf
    obtain ⟨hf, hmayf⟩ := List.mem_filter.mp hf
    exact (hretries f hf).due (by simpa [hmay] using hmayf)
  have hexhausted : ∀ f ∈ p.retries.filter (!p.mayRetry ·), c.Kept (stage + 1) f := by
    intro f hf
    obtain ⟨hf, hmayf⟩ := List.mem_filter.mp hf
    exact (hretries f hf).exhausted (by simpa [hmay] using hmayf)
  cases h with
  | park hcondition => cases hcondition
  | collectFresh => exact ⟨rfl, rfl, hfresh⟩
  | collect => exact ⟨rfl, rfl, hexhausted, hfresh⟩

end Pool

namespace Campaign

variable {c : Campaign} {stage i : Nat} {task task' : Task} {l l' : Ledger} {q : Pool}

/-- The thread `i` has advanced from one task to another and left the pool with the data of `q`, and
an execution has ended as the campaign says. -/
structure Moves (c : Campaign) (l : Ledger) (i : Nat) (task task' : Task) (q : Pool)
    (l' : Ledger) : Prop where
  before : l.pool.tasks[i]? = some task
  advance : Advance l.pool task task' q
  reaches : Reaches l.pool i task' q l'.pool
  begun : l'.begun = l.begun
  succeeded : l'.succeeded = l.succeeded ++ task.success?.toList
  recorded : ∀ x ∈ task.ended? task', x.2 = c.recorded x.1.id x.1.attempts

theorem Moves.config (h : c.Moves l i task task' q l') :
    l'.pool.config = l.pool.config := by
  rw [h.reaches.data, ← h.advance.config_eq]

theorem Sound.call (h : c.Sound stage l) (hhandles : c.Handles stage task) :
    c.Sound stage { l with
      pool := { l.pool with threads := l.pool.threads ++ [.running task] }
      begun := l.begun ++ [task] } where
  queue := h.queue
  retries := h.retries
  succeeded := h.succeeded
  handles := forall_tasks_call h.handles hhandles

theorem Sound.moves (h : c.Sound stage l) (hmoves : c.Moves l i task task' q l')
    (hopen : l.pool.isClosed = false) (hcollect : task ≠ .collect) : c.Sound stage l' := by
  have hhandles : c.Handles stage task :=
    h.handles task (List.mem_of_getElem? hmoves.before)
  have hdata : l'.pool = { q with threads := l'.pool.threads } := hmoves.reaches.data
  obtain ⟨hqueue, hretries, htask', hwon⟩ :=
    hmoves.advance.sound hopen hcollect hmoves.recorded h.queue h.retries hhandles
  exact {
    queue := by
      rw [hdata]
      exact hqueue
    retries := by
      rw [hdata]
      exact hretries
    succeeded := by
      intro m hm
      rw [hmoves.succeeded, List.mem_append, Option.mem_toList] at hm
      exact hm.elim (h.succeeded m) (hwon m)
    handles := hmoves.reaches.forall_tasks h.handles htask' }

end Campaign

end GraphQuery
