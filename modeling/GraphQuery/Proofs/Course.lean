import GraphQuery.Proofs.Attempts
import GraphQuery.Proofs.Waking

/-!
# The course of a campaign

`Campaign.Underway` says where a campaign is: how many calls of the caller
have returned, with what they should (`Campaign.answers`), and what the
present call may be doing (`Campaign.Course`).  The number of calls tells how
many of them have replayed the retry list, and with that number the pool is
`Campaign.Sound`.

`Campaign.after?_cases` says what an event can be: the next call of the
caller, or the turn of a thread that is awake.  This module deals with the
calls (`Underway.call`) and the turns of workers (`Underway.worker`).
-/

namespace GraphQuery

open Pool

/-- Rounds of two, and the first half of one more. -/
theorem getElem?_rounds {α : Type} {x : α} {g : Nat → α} {r i : Nat} (hi : i ≤ 2 * r) :
    ((List.range r).flatMap (fun round => [x, g round]) ++ [x])[i]? =
      some (if i % 2 = 0 then x else g (i / 2)) := by
  have hlength : ∀ r, ((List.range r).flatMap (fun round => [x, g round])).length = 2 * r := by
    intro r
    simp [List.length_flatMap, Nat.mul_comm]
  induction r with
  | zero =>
    obtain rfl : i = 0 := by omega
    rfl
  | succ r ih =>
    rw [List.range_succ, List.flatMap_append, List.append_assoc]
    by_cases hlt : i < 2 * r
    · rw [List.getElem?_append_left (by rw [hlength]; exact hlt)] at ih ⊢
      exact ih (by omega)
    · rw [List.getElem?_append_right (by rw [hlength]; omega), hlength]
      obtain rfl | rfl | rfl : i = 2 * r ∨ i = 2 * r + 1 ∨ i = 2 * r + 2 := by omega
      · simp
      · have hhalf : (2 * r + 1) / 2 = r := by omega
        simp [hhalf]
      · simp

namespace Campaign

variable {c : Campaign} {k i : Nat} {task task' : Task} {l l' : Ledger}

theorem length_entries : c.entries.length = c.statements.length := by simp [entries]

theorem length_calls : c.calls.length = c.statements.length + 2 * c.rounds + 1 := by
  simp [calls, roundCalls, List.length_flatMap, Nat.mul_comm, Nat.add_assoc]

theorem length_answers : c.answers.length = c.calls.length := by
  simp [calls, roundCalls, answers, roundAnswers, List.length_flatMap, length_entries]

theorem getElem?_entries {e : Entry} :
    c.entries[k]? = some e ↔ c.statements[k]? = some e.2 ∧ e.1 = k + 1 := by
  obtain ⟨id, s⟩ := e
  simp only [entries, List.getElem?_map, List.getElem?_zipIdx, Option.map_eq_some_iff,
    Option.map_map, Function.comp_apply, Prod.swap_prod_mk, Prod.mk.injEq]
  constructor
  · rintro ⟨s', hs, hid, rfl⟩
    exact ⟨hs, by omega⟩
  · rintro ⟨hs, hid⟩
    exact ⟨s, hs, by omega, rfl⟩

/-- What the caller asks for, and what it gets for an answer. -/
theorem calls_cases (h : c.calls[k]? = some task) :
    (∃ s, c.statements[k]? = some s ∧ task = .request s ∧
        c.answers[k]? = some (.submitted (.ok (k + 1)))) ∨
      c.statements.length ≤ k ∧
        ((k - c.statements.length) % 2 = 0 ∧ task = .await false ∧
            c.answers[k]? = some (.flushed true) ∨
          (k - c.statements.length) % 2 = 1 ∧ task = .collect ∧
            c.answers[k]? =
              some (.replayed (.ok (c.replays ((k - c.statements.length) / 2 + 1))))) := by
  have hk : k < c.statements.length + 2 * c.rounds + 1 :=
    length_calls (c := c) ▸ (List.getElem?_eq_some_iff.mp h).1
  by_cases hlt : k < c.statements.length
  · left
    obtain ⟨s, hs⟩ : ∃ s, c.statements[k]? = some s := ⟨_, List.getElem?_eq_getElem hlt⟩
    have hentry : c.entries[k]? = some (k + 1, s) := getElem?_entries.mpr ⟨hs, rfl⟩
    refine ⟨s, hs, ?_, ?_⟩
    · rw [calls, List.getElem?_append_left (by simpa using hlt)] at h
      simpa [hs, eq_comm] using h
    · rw [answers, List.getElem?_append_left (by simpa [length_entries] using hlt)]
      simp [hentry]
  · right
    have hround : k - c.statements.length ≤ 2 * c.rounds := by omega
    have hanswer : c.answers[k]? = some (if (k - c.statements.length) % 2 = 0 then .flushed true
        else .replayed (.ok (c.replays ((k - c.statements.length) / 2 + 1)))) := by
      rw [answers,
        List.getElem?_append_right (by simpa [length_entries] using Nat.le_of_not_lt hlt)]
      simpa [roundAnswers, length_entries] using getElem?_rounds hround
    rw [calls, List.getElem?_append_right (by simpa using Nat.le_of_not_lt hlt), List.length_map,
      roundCalls, getElem?_rounds hround] at h
    refine ⟨Nat.le_of_not_lt hlt, ?_⟩
    rw [hanswer]
    rcases Nat.mod_two_eq_zero_or_one (k - c.statements.length) with heven | hodd
    · exact Or.inl ⟨heven, by simpa [heven, eq_comm] using h, by simp [heven]⟩
    · exact Or.inr ⟨hodd, by simpa [hodd, eq_comm] using h, by simp [hodd]⟩

theorem action?_cases {event : Event} {a : Pool.Action} (h : c.action? l event = some a) :
    (∃ task, (l.pool.tasks.drop l.pool.config.workers).all Task.isOver = true ∧
        c.calls[l.pool.tasks.length - l.pool.config.workers]? = some task ∧ a = .call task) ∨
      (∃ i choice, a = .step i choice) ∨
      ∃ i m time, l.pool.tasks[i]? = some (.execute m) ∧
        a = .finish i (c.recorded m.id m.attempts) time := by
  cases event with
  | call =>
    simp only [action?] at h
    split_ifs at h with hover
    obtain ⟨task, htask, rfl⟩ := Option.map_eq_some_iff.mp h
    exact Or.inl ⟨task, hover, htask, rfl⟩
  | step i choice => exact Or.inr (Or.inl ⟨i, choice, (Option.some.inj h).symm⟩)
  | finish i time =>
    simp only [action?] at h
    split at h
    · rename_i m htask
      exact Or.inr (Or.inr ⟨i, m, time, htask, (Option.some.inj h).symm⟩)
    · cases h

/-- The executions that end with an action have ended as the campaign says. -/
theorem recorded_of_action? {event : Event} {a : Pool.Action} (h : c.action? l event = some a) :
    ∀ x ∈ l.pool.execution? a, x.2 = c.recorded x.1.id x.1.attempts := by
  rcases action?_cases h with ⟨task, -, -, rfl⟩ | ⟨i, choice, rfl⟩ | ⟨i, m, time, htask, rfl⟩
  · intro x hx
    cases hx
  · intro x hx
    cases hx
  · intro x hx
    rw [execution?, htask] at hx
    obtain rfl := Option.some.inj hx
    rfl

/-- An event is the next call of the caller, or the turn of a thread that is awake. -/
theorem after?_cases {event : Event} (hafter : c.after? l event = some l') :
    (∃ task, (l.pool.tasks.drop l.pool.config.workers).all Task.isOver = true ∧
        c.calls[l.pool.tasks.length - l.pool.config.workers]? = some task ∧
        l' = { l with
          pool := { l.pool with threads := l.pool.threads ++ [.running task] }
          begun := l.begun ++ [task] }) ∨
      ∃ i task, l.pool.threads[i]? = some (.running task) ∧
        (task.condition?.isSome = true ∧ l' = { l with pool := l.pool.park i task } ∨
          ∃ task' q choice, Advance l.pool task task' q ∧ task' ≠ task ∧
            (∀ x ∈ task.ended? task', x.2 = c.recorded x.1.id x.1.attempts) ∧
            l' = { l with
              pool := { q with
                threads := (task.signal q task').wake choice
                  (l.pool.threads.set i (.running task')) }
              succeeded := l.succeeded ++ task.success?.toList
              executed := l.executed ++ (task.ended? task').toList }) := by
  obtain ⟨a, ha, hledger⟩ := Option.bind_eq_some_iff.mp hafter
  have hrecorded := recorded_of_action? ha
  obtain ⟨h, hh, rfl⟩ := Option.map_eq_some_iff.mp hledger
  obtain ⟨p', hp', rfl⟩ := Option.map_eq_some_iff.mp hh
  rcases Pool.after?_turns hp' with
    ⟨task, rfl, -, rfl⟩ | ⟨i, choice, task, hi, hthread, hturn⟩ | ⟨i, rfl, -, -⟩
  · rcases action?_cases ha with
      ⟨task', hover, htask, hcall⟩ | ⟨i, choice, hstep⟩ | ⟨i, m, time, -, hfinish⟩
    · obtain rfl := Action.call.inj hcall
      exact Or.inl ⟨task, hover, htask, by
        simp [Action.begun?, task?, Action.thread?, execution?]⟩
    · cases hstep
    · cases hfinish
  · have htask : l.pool.tasks[i]? = some task := getElem?_tasks hthread
    have hbegun : a.begun? = none := by cases a <;> simp_all [Action.thread?, Action.begun?]
    refine Or.inr ⟨i, task, hthread, ?_⟩
    cases hturn with
    | park hcondition hwithheld =>
      have hparks : task.condition?.isSome = true := by simp [hcondition]
      have hexecution : l.pool.execution? a = task.ended? task :=
        Ledger.execution?_eq hi hp' htask (.park hparks) reaches_park
      exact Or.inl ⟨hparks, by
        simp [hbegun, task?, hi, htask, hexecution, Task.shares_of_condition hparks]⟩
    | @goOn task' q hadvance hne =>
      have hexecution := Ledger.execution?_eq hi hp' htask hadvance reaches_wake
      refine Or.inr ⟨task', q, choice, hadvance, hne, hexecution ▸ hrecorded, ?_⟩
      simp [hbegun, task?, hi, htask, hexecution]
  · -- Nobody in a campaign loses patience.
    rcases action?_cases ha with ⟨task, -, -, hcall⟩ | ⟨i, choice, hstep⟩ | ⟨i, m, time, -, hfinish⟩
    · cases hcall
    · cases hstep
    · cases hfinish

/-- An event is the next call of the caller, or a move of a thread. -/
theorem after?_moves {event : Event} (hafter : c.after? l event = some l') :
    (∃ task, (l.pool.tasks.drop l.pool.config.workers).all Task.isOver = true ∧
        c.calls[l.pool.tasks.length - l.pool.config.workers]? = some task ∧
        l' = { l with
          pool := { l.pool with threads := l.pool.threads ++ [.running task] }
          begun := l.begun ++ [task] }) ∨
      ∃ i task task' q, c.Moves l i task task' q l' := by
  rcases after?_cases hafter with hcall | ⟨i, task, hthread, hturn⟩
  · exact Or.inl hcall
  · have htask : l.pool.tasks[i]? = some task := getElem?_tasks hthread
    rcases hturn with ⟨hparks, rfl⟩ | ⟨task', q, choice, hadvance, -, hrecorded, rfl⟩
    · have hnone := Task.shares_of_condition hparks
      exact Or.inr ⟨i, task, task, l.pool, htask, .park hparks, reaches_park, rfl,
        by simp [hnone], by simp [hnone]⟩
    · exact Or.inr ⟨i, task, task', q, htask, hadvance, reaches_wake, rfl, rfl, hrecorded⟩

/-! ## Where the caller is -/

/-- What the caller may be doing in the call before which it has made so many others. -/
def Course (c : Campaign) (k : Nat) : Task → Prop
  | .request s => c.calls[k]? = some (.request s)
  | .offer m => c.calls[k]? = some (.request m.statement) ∧ m.id = k + 1
  | .confirm id => (∃ s, c.calls[k]? = some (.request s)) ∧ id = k + 1
  | .await false => c.calls[k]? = some (.await false)
  | .collect => c.calls[k]? = some .collect
  | .giveBack _ fresh =>
    c.calls[k]? = some .collect ∧ fresh.length = c.replays ((k - c.statements.length) / 2 + 1)
  | .resubmit done remaining =>
    c.calls[k]? = some .collect ∧
      done + remaining.length = c.replays ((k - c.statements.length) / 2 + 1)
  | _ => False

end Campaign

namespace Pool.Task

/-- The call has taken the retry list. -/
def hasCollected : Task → Bool
  | giveBack _ _ | resubmit _ _ => true
  | _ => false

/-- Only a call that submits a mutation has one accepted. -/
theorem accepted?_of_not_isRequest {first now : Task} (h : first.isRequest = false) :
    first.accepted? now = none := by
  cases first <;> first | rfl | cases h

/-- The call has got a number for its mutation. -/
def isNumbered : Task → Bool
  | offer _ | confirm _ => true
  | _ => false

end Pool.Task

theorem Pool.Advance.isClosed_eq {p q : Pool} {task task' : Task} (h : Advance p task task' q)
    (hne : task ≠ .close) : q.isClosed = p.isClosed := by
  cases h with
  | close => exact absurd rfl hne
  | _ => rfl

namespace Campaign

variable {c : Campaign} {k i : Nat} {task task' : Task} {l l' : Ledger} {current : Option Task}
  {p q : Pool}

/-- The number of calls that have taken the retry list, when so many calls have returned. -/
def stage (c : Campaign) (k : Nat) (current : Option Task) : Nat :=
  (k - c.statements.length) / 2 + (current.any Task.hasCollected).toNat

/-- The caller has waited for the pool to be idle and not put anything into the queue since. -/
def IsCalm (c : Campaign) (k : Nat) (current : Option Task) : Prop :=
  current = some .collect ∨
    current = none ∧ c.statements.length < k ∧ (k - c.statements.length) % 2 = 1

/-- So many calls of the caller have returned, and it is busy with the current one. -/
structure Underway (c : Campaign) (k : Nat) (current : Option Task) (l : Ledger) : Prop where
  config : l.pool.config = c.settings.config
  isOpen : l.pool.isClosed = false
  calls : l.begun.drop l.pool.config.workers = c.calls.take (k + current.toList.length)
  answers : l.pool.tasks.drop l.pool.config.workers = c.answers.take k ++ current.toList
  bounded : k + current.toList.length ≤ c.calls.length
  course : ∀ t ∈ current, c.Course k t
  nextId : l.pool.nextId =
    min k c.statements.length + 1 + (current.any Task.isNumbered).toNat
  sound : c.Sound (c.stage k current) l
  calm : c.IsCalm k current → l.pool.isIdle = true

theorem underway_start : c.Underway 0 none c.start := by
  have hfetch : c.start.pool.tasks = List.replicate c.settings.config.workers .fetch := by
    simp [start, Ledger.start, History.start, fresh, tasks, Thread.running]
  exact {
    config := rfl
    isOpen := rfl
    calls := by simp [start, Ledger.start, History.start, fresh]
    answers := by
      rw [hfetch]
      simp [start, Ledger.start, History.start, fresh]
    bounded := Nat.zero_le _
    course := by simp
    nextId := by simp [start, Ledger.start, History.start, fresh]
    sound := {
      queue := by simp [start, Ledger.start, History.start, fresh]
      retries := by simp [start, Ledger.start, History.start, fresh]
      succeeded := by simp [start, Ledger.start, History.start]
      handles := by
        intro t ht
        rw [hfetch] at ht
        rw [List.eq_of_mem_replicate ht]
        trivial }
    calm := by simp [IsCalm] }

/-! ## One call after another -/

theorem course_of_calls (h : c.calls[k]? = some task) :
    c.Course k task ∧ task.hasCollected = false ∧ task.isNumbered = false := by
  rcases calls_cases h with ⟨s, -, rfl, -⟩ | ⟨-, ⟨-, rfl, -⟩ | ⟨-, rfl, -⟩⟩
  · exact ⟨h, rfl, rfl⟩
  · exact ⟨h, rfl, rfl⟩
  · exact ⟨h, rfl, rfl⟩

theorem handles_of_calls (h : c.calls[k]? = some task) : c.Handles (c.stage k none) task := by
  rcases calls_cases h with ⟨s, hs, rfl, -⟩ | ⟨-, ⟨-, rfl, -⟩ | ⟨-, rfl, -⟩⟩
  · have hlt : k < c.statements.length := (List.getElem?_eq_some_iff.mp hs).1
    show (k - c.statements.length) / 2 + 0 = 0
    omega
  · trivial
  · trivial

theorem Underway.call (h : c.Underway k none l) (hbalanced : l.Balanced)
    (htask : c.calls[k]? = some task) :
    c.Underway k (some task) { l with
      pool := { l.pool with threads := l.pool.threads ++ [.running task] }
      begun := l.begun ++ [task] } := by
  obtain ⟨hcourse, hcollected, hnumbered⟩ := course_of_calls htask
  have hk : k < c.calls.length := (List.getElem?_eq_some_iff.mp htask).1
  have hworkers : l.pool.config.workers ≤ l.pool.tasks.length := hbalanced.workers_le
  have hstage : c.stage k (some task) = c.stage k none := by simp [stage, hcollected]
  exact {
    config := h.config
    isOpen := h.isOpen
    calls := by
      show (l.begun ++ [task]).drop l.pool.config.workers = c.calls.take (k + 1)
      have hcalls : l.begun.drop l.pool.config.workers = c.calls.take k := h.calls
      rw [List.drop_append_of_le_length (hbalanced.length ▸ hworkers), hcalls, List.take_add_one,
        htask]
      rfl
    answers := by
      show (tasks { l.pool with threads := _ }).drop l.pool.config.workers =
        c.answers.take k ++ [task]
      have hanswers : l.pool.tasks.drop l.pool.config.workers = c.answers.take k ++ [] := h.answers
      rw [tasks_call, List.drop_append_of_le_length hworkers, hanswers, List.append_nil]
    bounded := hk
    course := by
      intro t ht
      obtain rfl := Option.some.inj ht
      exact hcourse
    nextId := by
      have hbefore : l.pool.nextId = min k c.statements.length + 1 + 0 := h.nextId
      show l.pool.nextId = _
      simp [hbefore, hnumbered]
    sound := by
      rw [hstage]
      exact h.sound.call (handles_of_calls htask)
    calm := by
      intro hcalm
      refine h.calm (Or.inr ⟨rfl, ?_⟩)
      rcases hcalm with hcollect | ⟨hnone, -⟩
      · obtain rfl := Option.some.inj hcollect
        rcases calls_cases htask with ⟨s, -, hcollect, -⟩ | ⟨hle, ⟨-, hcollect, -⟩ | ⟨hodd, -, -⟩⟩
        · cases hcollect
        · cases hcollect
        · exact ⟨by omega, hodd⟩
      · cases hnone }

/-! ## Workers -/

/-- In an idle pool a worker can do nothing. -/
theorem eq_of_isIdle (hidle : p.isIdle = true) (hadvance : Advance p .fetch task' q) : q = p := by
  have hqueue : p.queue = [] := (isIdle_iff.mp hidle).1
  cases hadvance with
  | park => rfl
  | fetch hsome =>
    rw [hqueue] at hsome
    cases hsome
  | leave => rfl

theorem Underway.eq_fetch {stage : Nat} (htallied : l.Tallied) (hidle : l.pool.isIdle = true)
    (htask : l.pool.tasks[i]? = some task) (hrole : task.role = .worker)
    (hhandles : c.Handles stage task) : task = .fetch := by
  have hnone : l.pool.inFlight = 0 := (isIdle_iff.mp hidle).2
  have hworking := le_total (fun t => t.isWorking.toNat) htask
  rw [← htallied.inFlight, hnone] at hworking
  cases task with
  | fetch => rfl
  | execute m | account m outcome time | keep f | release => cases hworking
  | left => cases hhandles
  | _ => cases hrole

/-- A move of a worker does not concern the caller. -/
theorem Underway.worker (h : c.Underway k current l) (htallied : l.Tallied)
    (hi : i < l.pool.config.workers) (hrole : task.role = .worker)
    (hmoves : c.Moves l i task task' q l') : c.Underway k current l' := by
  have hadvance : Advance l.pool task task' q := hmoves.advance
  have hdata : l'.pool = { q with threads := l'.pool.threads } := hmoves.reaches.data
  have hconfig : l'.pool.config = l.pool.config := hmoves.config
  exact {
    config := hconfig.trans h.config
    isOpen := by
      rw [hdata]
      exact (hadvance.isClosed_eq (by rintro rfl; cases hrole)).trans h.isOpen
    calls := by
      rw [hmoves.begun, hconfig]
      exact h.calls
    answers := by
      rw [hmoves.reaches.tasks, hconfig, List.drop_set_of_lt hi]
      exact h.answers
    bounded := h.bounded
    course := h.course
    nextId := by
      rw [hdata, ← h.nextId]
      show q.nextId = l.pool.nextId
      rcases hadvance.issued?_cases with ⟨-, -, -, hrequest, -⟩ | ⟨-, hsame, -⟩
      · cases task with
        | request s => cases hrole
        | _ => cases hrequest
      · exact hsame
    sound := h.sound.moves hmoves h.isOpen (by rintro rfl; cases hrole)
    calm := by
      intro hcalm
      have hidle : l.pool.isIdle = true := h.calm hcalm
      have hhandles : c.Handles (c.stage k current) task :=
        h.sound.handles task (List.mem_of_getElem? hmoves.before)
      obtain rfl := Underway.eq_fetch htallied hidle hmoves.before hrole hhandles
      rw [hdata, eq_of_isIdle hidle hadvance]
      exact hidle }

end Campaign

end GraphQuery
