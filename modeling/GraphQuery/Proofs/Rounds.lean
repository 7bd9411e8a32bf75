import GraphQuery.Proofs.Course

/-!
# The rounds of a campaign

When the pool is idle and all mutations are submitted, each of them is either
in the retry list or was executed with success (`Underway.perm_entries`), and
those in the retry list are the ones that always failed
(`Sound.perm_retries`).  A call that replays therefore takes up as many
mutations as `Campaign.replays` says (`Sound.length_fresh`), and the caller
keeps to its course: each of its calls goes on as it should
(`Underway.goesOn`) and returns what it should (`Underway.returns`).

`Campaign.Reached` puts together what holds at every moment of a campaign.
-/

namespace GraphQuery

open Pool

namespace Campaign

variable {c : Campaign} {k i : Nat} {task task' : Task} {l l' : Ledger} {current : Option Task}
  {p q : Pool}

/-! ## What an idle pool holds -/

theorem map_request : c.statements.map Task.request = c.entries.map fun e => .request e.2 := by
  have hstatements : c.entries.map Prod.snd = c.statements := by simp [entries, Function.comp_def]
  conv_lhs => rw [← hstatements, List.map_map]
  rfl

theorem isRequest_of_roundCalls {t : Task} (h : t ∈ c.roundCalls) : t.isRequest = false := by
  simp only [roundCalls, List.mem_append, List.mem_flatMap, List.mem_cons, List.not_mem_nil,
    or_false] at h
  rcases h with ⟨-, -, rfl | rfl⟩ | rfl <;> rfl

/-- The caller stands behind the workers, first the calls that submit and then those of the
rounds. -/
theorem Underway.lives (h : c.Underway k current l) (hbalanced : l.Balanced)
    (hk : c.statements.length ≤ k) : ∃ rounds, l.lives =
      (List.replicate l.pool.config.workers Task.fetch).zip
          (l.pool.tasks.take l.pool.config.workers) ++
        (c.entries.map (fun e => (.request e.2, .submitted (.ok e.1))) ++ rounds) ∧
      ∀ life ∈ rounds, life.1 ∈ c.roundCalls := by
  obtain ⟨begun, hbegun, -⟩ := hbalanced.begun
  have hcalls : begun = c.entries.map (fun e => .request e.2) ++
      c.roundCalls.take (k + current.toList.length - c.entries.length) := by
    have hdrop := h.calls
    rwa [hbegun, List.drop_left' (by simp), Campaign.calls, map_request, List.take_append,
      List.length_map,
      List.take_of_length_le (by rw [List.length_map, length_entries]; omega)] at hdrop
  have htasks : l.pool.tasks = l.pool.tasks.take l.pool.config.workers ++
      (c.entries.map (fun e => .submitted (.ok e.1)) ++
        (c.roundAnswers.take (k - c.entries.length) ++ current.toList)) := by
    have hdrop := h.answers
    rw [Campaign.answers, List.take_append, List.length_map, List.append_assoc,
      List.take_of_length_le (by rw [List.length_map, length_entries]; exact hk)] at hdrop
    rw [← hdrop, List.take_append_drop]
  have hworkers : l.pool.config.workers ≤ l.pool.tasks.length := hbalanced.workers_le
  refine ⟨(c.roundCalls.take (k + current.toList.length - c.entries.length)).zip
    (c.roundAnswers.take (k - c.entries.length) ++ current.toList), ?_, ?_⟩
  · rw [History.lives, hbegun, hcalls, htasks, List.zip_append (by simp [hworkers]),
      List.zip_append (by simp), List.zip_map']
    simp [hworkers]
  · intro life hlife
    exact List.mem_of_mem_take (List.of_mem_zip hlife).1

/-- When all mutations are submitted, all are accepted. -/
theorem Underway.accepted (h : c.Underway k current l) (hbalanced : l.Balanced)
    (hk : c.statements.length ≤ k) : l.accepted = c.entries := by
  obtain ⟨rounds, hlives, hrounds⟩ := h.lives hbalanced hk
  have hworkers : ((List.replicate l.pool.config.workers Task.fetch).zip
      (l.pool.tasks.take l.pool.config.workers)).filterMap
        (fun life => Task.accepted? life.1 life.2) = [] := by
    refine List.filterMap_eq_nil_iff.mpr fun life hlife => ?_
    rw [List.eq_of_mem_replicate (List.of_mem_zip hlife).1]
    rfl
  have hothers : rounds.filterMap (fun life => Task.accepted? life.1 life.2) = [] :=
    List.filterMap_eq_nil_iff.mpr fun life hlife =>
      Task.accepted?_of_not_isRequest (isRequest_of_roundCalls (hrounds life hlife))
  rw [History.accepted, hlives, List.filterMap_append, List.filterMap_append, hworkers, hothers,
    List.filterMap_map, List.nil_append, List.append_nil]
  exact List.filterMap_some

theorem eq_of_roundAnswers {t : Task} (h : t ∈ c.roundAnswers) :
    t = .flushed true ∨ ∃ n, t = .replayed (.ok n) := by
  simp only [roundAnswers, List.mem_append, List.mem_flatMap, List.mem_cons, List.not_mem_nil,
    or_false] at h
  rcases h with ⟨round, -, rfl | rfl⟩ | rfl
  · exact Or.inl rfl
  · exact Or.inr ⟨_, rfl⟩
  · exact Or.inl rfl

theorem eq_of_answers {t : Task} (h : t ∈ c.answers) :
    (∃ id, t = .submitted (.ok id)) ∨ t = .flushed true ∨ ∃ n, t = .replayed (.ok n) := by
  rcases List.mem_append.mp h with h | h
  · obtain ⟨e, -, rfl⟩ := List.mem_map.mp h
    exact Or.inl ⟨e.1, rfl⟩
  · exact Or.inr (eq_of_roundAnswers h)

/-- A call that has returned has nothing in its hands. -/
theorem isOver_of_answers {t : Task} (h : t ∈ c.answers) : t.isOver = true ∧ t.held = [] := by
  rcases eq_of_answers h with ⟨id, rfl⟩ | rfl | ⟨n, rfl⟩ <;> exact ⟨rfl, rfl⟩

/-- When the pool is idle, all workers are about to look for a mutation. -/
theorem Underway.idles (h : c.Underway k current l) (hbalanced : l.Balanced)
    (htallied : l.Tallied) (hidle : l.pool.isIdle = true) :
    ∀ t ∈ l.pool.tasks.take l.pool.config.workers, t = .fetch := by
  intro t ht
  obtain ⟨i, hi⟩ := List.getElem?_of_mem ht
  rw [List.getElem?_take] at hi
  split_ifs at hi with hworker
  exact Underway.eq_fetch htallied hidle hi ((hbalanced.task_role_iff hi).mpr hworker)
    (h.sound.handles t (List.mem_of_getElem? hi))

/-- When the pool is idle, every mutation is in the retry list or has succeeded. -/
theorem Underway.perm_entries (h : c.Underway k current l) (hbalanced : l.Balanced)
    (htallied : l.Tallied) (hk : c.statements.length ≤ k) (hidle : l.pool.isIdle = true)
    (hcurrent : ∀ t ∈ current, t.held = []) :
    ((l.pool.retries.map Failed.mutation ++ l.succeeded).map Pending.entry).Perm c.entries := by
  have hqueue : l.pool.queue = [] := (isIdle_iff.mp hidle).1
  have hempty : ∀ t ∈ l.pool.tasks, t.held = [] := by
    intro t ht
    rw [← List.take_append_drop l.pool.config.workers l.pool.tasks, h.answers, List.mem_append,
      List.mem_append, Option.mem_toList] at ht
    rcases ht with hworker | hanswer | hcaller
    · rw [h.idles hbalanced htallied hidle t hworker]
      rfl
    · exact (isOver_of_answers (List.mem_of_mem_take hanswer)).2
    · exact hcurrent t hcaller
  have hheld : l.lives.flatMap (fun life => life.2.held) = [] :=
    List.flatMap_eq_nil_iff.mpr fun life hlife => hempty life.2 (List.of_mem_zip hlife).2
  have hperm := hbalanced.perm
  rw [h.accepted hbalanced hk, History.holdings, hheld, stock, hqueue, List.append_nil,
    List.nil_append] at hperm
  exact hperm

/-- In an idle pool the retry list has the mutations that always failed. -/
theorem Sound.perm_retries {stage : Nat} (h : c.Sound stage l)
    (hperm : ((l.pool.retries.map Failed.mutation ++ l.succeeded).map Pending.entry).Perm
      c.entries) :
    ((l.pool.retries.map Failed.mutation).map Pending.entry).Perm
      (c.entries.filter fun e => c.failsAll e.1 (c.reached stage)) := by
  have hretries : ∀ e ∈ (l.pool.retries.map Failed.mutation).map Pending.entry,
      c.failsAll e.1 (c.reached stage) = true := by
    intro e he
    rw [List.map_map] at he
    obtain ⟨f, hf, rfl⟩ := List.mem_map.mp he
    exact (h.retries f hf).failed
  have hsucceeded : ∀ e ∈ l.succeeded.map Pending.entry,
      ¬c.failsAll e.1 (c.reached stage) = true := by
    intro e he
    obtain ⟨m, hm, rfl⟩ := List.mem_map.mp he
    have hwon := h.succeeded m hm
    exact Bool.eq_false_iff.mp (not_failsAll hwon.positive hwon.attempts hwon.success)
  have hfilter := hperm.filter fun e => c.failsAll e.1 (c.reached stage)
  rwa [List.map_append, List.filter_append, List.filter_eq_self.mpr hretries,
    List.filter_eq_nil_iff.mpr hsucceeded, List.append_nil] at hfilter

/-- A call that replays takes up as many mutations as there are that always failed, unless they
may not be tried any more. -/
theorem Sound.length_fresh {stage : Nat} (h : c.Sound stage l)
    (hmax : l.pool.config.maxAttempts = c.settings.maxAttempts.toNat)
    (hperm : ((l.pool.retries.map Failed.mutation ++ l.succeeded).map Pending.entry).Perm
      c.entries) :
    (l.pool.retries.filter l.pool.mayRetry).length = c.replays (stage + 1) := by
  have hmay : ∀ f ∈ l.pool.retries, l.pool.mayRetry f = decide (stage + 1 < c.maxAttempts) := by
    intro f hf
    have hattempts : f.mutation.attempts = min (stage + 1) c.maxAttempts :=
      (h.retries f hf).attempts
    rw [mayRetry, hmax, ← Campaign.maxAttempts, hattempts]
    exact decide_eq_decide.mpr (by omega)
  rw [replays]
  split_ifs with hlt
  · have hall : l.pool.retries.filter l.pool.mayRetry = l.pool.retries :=
      List.filter_eq_self.mpr fun f hf => (hmay f hf).trans (decide_eq_true hlt)
    have hreached : c.reached stage = stage + 1 := by
      unfold reached
      omega
    have hlength := (h.perm_retries hperm).length_eq
    rw [List.length_map, List.length_map, hreached] at hlength
    rw [hall, hlength, survivors, List.countP_eq_length_filter]
  · have hnone : l.pool.retries.filter l.pool.mayRetry = [] :=
      List.filter_eq_nil_iff.mpr fun f hf => by simp [hmay f hf, hlt]
    rw [hnone, List.length_nil]

/-! ## The caller -/

/-- A call of the caller goes on as it should. -/
theorem Course.goesOn (hcourse : c.Course k task) (h : Advance p task task' q)
    (hopen : p.isClosed = false) (hover : task'.isOver = false)
    (hnext : task.isRequest = true → p.nextId = k + 1)
    (hfresh : task = .collect → (p.retries.filter p.mayRetry).length =
      c.replays ((k - c.statements.length) / 2 + 1)) :
    c.Course k task' ∧ task' ≠ .collect ∧
      q.nextId + task.isNumbered.toNat = p.nextId + task'.isNumbered.toNat ∧
      (task ≠ .collect ∧ task'.hasCollected = task.hasCollected ∨
        task = .collect ∧ task'.hasCollected = true) := by
  cases h with
  | park hcondition =>
    have hother : task ≠ .collect := by
      rintro rfl
      cases hcondition
    exact ⟨hcourse, hother, rfl, Or.inl ⟨hother, rfl⟩⟩
  | request =>
    exact ⟨⟨hcourse, hnext rfl⟩, Pool.Task.noConfusion, rfl,
      Or.inl ⟨Pool.Task.noConfusion, rfl⟩⟩
  | accept =>
    exact ⟨⟨⟨_, hcourse.1⟩, hcourse.2⟩, Pool.Task.noConfusion, rfl,
      Or.inl ⟨Pool.Task.noConfusion, rfl⟩⟩
  | collectFresh =>
    exact ⟨⟨hcourse, (Nat.zero_add _).trans (hfresh rfl)⟩, Pool.Task.noConfusion, rfl,
      Or.inr ⟨rfl, rfl⟩⟩
  | collect => exact ⟨⟨hcourse, hfresh rfl⟩, Pool.Task.noConfusion, rfl, Or.inr ⟨rfl, rfl⟩⟩
  | giveBack =>
    exact ⟨⟨hcourse.1, (Nat.zero_add _).trans hcourse.2⟩, Pool.Task.noConfusion, rfl,
      Or.inl ⟨Pool.Task.noConfusion, rfl⟩⟩
  | @resubmit done f remaining =>
    have hcount : done + (remaining.length + 1) =
        c.replays ((k - c.statements.length) / 2 + 1) := hcourse.2
    refine ⟨⟨hcourse.1, ?_⟩, Pool.Task.noConfusion, rfl, Or.inl ⟨Pool.Task.noConfusion, rfl⟩⟩
    rw [← hcount]
    omega
  | interrupt hclosed =>
    rw [hopen] at hclosed
    cases hclosed
  | refuse | confirm | replayed | flushed | leave => cases hover
  | _ => cases hcourse

/-- A call of the caller returns what it should. -/
theorem Course.returns (hcourse : c.Course k task) (h : Advance p task task' q)
    (hopen : p.isClosed = false) (hover : task'.isOver = true) :
    c.answers[k]? = some task' ∧ task ≠ .collect ∧ q.nextId = p.nextId ∧
      min (k + 1) c.statements.length = min k c.statements.length + task.isNumbered.toNat ∧
      c.stage (k + 1) none = c.stage k (some task) ∧
      (c.IsCalm (k + 1) none → q.isIdle = true) := by
  have hcalm : c.IsCalm (k + 1) none → c.statements.length < k + 1 ∧
      (k + 1 - c.statements.length) % 2 = 1 := by
    simp [IsCalm]
  cases h with
  | park hcondition =>
    have hnone : task.condition? = none := by cases task <;> first | rfl | cases hover
    simp [hnone] at hcondition
  | refuse hclosed =>
    rw [hopen] at hclosed
    cases hclosed
  | confirm =>
    obtain ⟨⟨s, hcall⟩, rfl⟩ := hcourse
    rcases calls_cases hcall with ⟨s, hs, -, hanswer⟩ | ⟨-, ⟨-, hother, -⟩ | ⟨-, hother, -⟩⟩
    · have hlt : k < c.statements.length := (List.getElem?_eq_some_iff.mp hs).1
      refine ⟨hanswer, Pool.Task.noConfusion, rfl, ?_, ?_, fun h => ?_⟩
      · show min (k + 1) c.statements.length = min k c.statements.length + 1
        omega
      · show (k + 1 - c.statements.length) / 2 + 0 = (k - c.statements.length) / 2 + 0
        omega
      · have hlate := (hcalm h).1
        omega
    · cases hother
    · cases hother
  | replayed =>
    obtain ⟨hcall, hdone⟩ := hcourse
    rcases calls_cases hcall with ⟨s, -, hother, -⟩ | ⟨hle, ⟨-, hother, -⟩ | ⟨hodd, -, hanswer⟩⟩
    · cases hother
    · cases hother
    · refine ⟨?_, Pool.Task.noConfusion, rfl, ?_, ?_, fun h => ?_⟩
      · rw [hanswer, ← hdone]
        rfl
      · show min (k + 1) c.statements.length = min k c.statements.length + 0
        omega
      · show (k + 1 - c.statements.length) / 2 + 0 = (k - c.statements.length) / 2 + 1
        omega
      · have hparity := (hcalm h).2
        omega
  | @flushed isTimed hidle =>
    cases isTimed with
    | true => cases hcourse
    | false =>
      rcases calls_cases hcourse with
        ⟨s, -, hother, -⟩ | ⟨hle, ⟨heven, -, hanswer⟩ | ⟨-, hother, -⟩⟩
      · cases hother
      · refine ⟨hanswer, Pool.Task.noConfusion, rfl, ?_, ?_, fun _ => hidle⟩
        · show min (k + 1) c.statements.length = min k c.statements.length + 0
          omega
        · show (k + 1 - c.statements.length) / 2 + 0 = (k - c.statements.length) / 2 + 0
          omega
      · cases hother
  | leave | restore | take | expire | join => cases hcourse
  | takeCharge => cases hcourse
  | _ => cases hover

/-- The call that the caller is busy with is the last of all threads. -/
theorem Underway.eq_current (h : c.Underway k current l) (hi : ¬i < l.pool.config.workers)
    (htask : l.pool.tasks[i]? = some task) (hover : task.isOver = false) :
    current = some task ∧ i = l.pool.config.workers + k := by
  have hk : k ≤ c.answers.length := by
    have hbounded := h.bounded
    rw [length_answers]
    omega
  have hcaller : (c.answers.take k ++ current.toList)[i - l.pool.config.workers]? = some task := by
    rw [← h.answers, List.getElem?_drop, Nat.add_sub_cancel' (Nat.le_of_not_lt hi)]
    exact htask
  by_cases hlt : i - l.pool.config.workers < k
  · rw [List.getElem?_append_left (by simp; omega)] at hcaller
    have hanswer := isOver_of_answers (List.mem_of_mem_take (List.mem_of_getElem? hcaller))
    rw [hanswer.1] at hover
    cases hover
  · rw [List.getElem?_append_right (by simp; omega), List.length_take,
      Nat.min_eq_left hk] at hcaller
    cases current with
    | none => cases hcaller
    | some t =>
      cases hposition : i - l.pool.config.workers - k with
      | zero =>
        rw [hposition] at hcaller
        exact ⟨hcaller, by omega⟩
      | succ j =>
        rw [hposition] at hcaller
        cases hcaller

theorem handles_of_isOver {stage stage' : Nat} (hover : task.isOver = true)
    (h : c.Handles stage task) : c.Handles stage' task := by
  cases task with
  | submitted result | replayed result => cases result <;> exact h
  | flushed isIdle => cases isIdle <;> exact h
  | left | taken failed | shutDown => cases h
  | _ => cases hover

/-- When the caller takes the retry list, the next stage begins. -/
theorem Underway.sound_collect (h : c.Underway k (some .collect) l) (hbalanced : l.Balanced)
    (htallied : l.Tallied)
    (hmoves : c.Moves l (l.pool.config.workers + k) .collect task' q l') :
    c.Sound (c.stage k (some .collect) + 1) l' := by
  -- The pool is idle, so the workers have nothing to do with the new stage.
  have hidle : l.pool.isIdle = true := h.calm (Or.inl rfl)
  have hempty : l.pool.queue = [] := (isIdle_iff.mp hidle).1
  have hdata : l'.pool = { q with threads := l'.pool.threads } := hmoves.reaches.data
  obtain ⟨hqueue, hretries, htask'⟩ :=
    hmoves.advance.collected (congrArg Config.maxAttempts h.config) h.sound.retries
  exact {
    queue := by
      rw [hdata]
      show ∀ m ∈ q.queue, _
      rw [hqueue, hempty]
      exact List.forall_mem_nil _
    retries := by
      rw [hdata]
      show ∀ f ∈ q.retries, _
      rw [hretries]
      exact List.forall_mem_nil _
    succeeded := by
      intro m hm
      rw [hmoves.succeeded] at hm
      exact (h.sound.succeeded m (by simpa [Task.success?] using hm)).mono
    handles := by
      intro t ht
      obtain ⟨i, hi⟩ := List.getElem?_of_mem ht
      rw [hmoves.reaches.tasks, List.getElem?_set] at hi
      split_ifs at hi with hcaller hlt
      · exact Option.some.inj hi ▸ htask'
      · have hbefore : c.Handles (c.stage k (some .collect)) t :=
          h.sound.handles t (List.mem_of_getElem? hi)
        by_cases hworker : i < l.pool.config.workers
        · have hrole : t.role = .worker := (hbalanced.task_role_iff hi).mpr hworker
          rw [Underway.eq_fetch htallied hidle hi hrole hbefore]
          trivial
        · cases hover : t.isOver with
          | true => exact handles_of_isOver hover hbefore
          | false => exact absurd (h.eq_current hworker hi hover).2.symm hcaller }

theorem Underway.nextId_eq (h : c.Underway k (some task) l) (hrequest : task.isRequest = true) :
    l.pool.nextId = k + 1 := by
  have hcourse : c.Course k task := h.course task rfl
  cases task with
  | request s =>
    rcases calls_cases hcourse with ⟨s, hs, -, -⟩ | ⟨-, ⟨-, hother, -⟩ | ⟨-, hother, -⟩⟩
    · have hlt : k < c.statements.length := (List.getElem?_eq_some_iff.mp hs).1
      have hnextId : l.pool.nextId = min k c.statements.length + 1 + 0 := h.nextId
      omega
    · cases hother
    · cases hother
  | _ => cases hrequest

/-- A call takes up as many mutations as it should. -/
theorem Underway.length_fresh (h : c.Underway k (some task) l) (hbalanced : l.Balanced)
    (htallied : l.Tallied) (hcollect : task = .collect) :
    (l.pool.retries.filter l.pool.mayRetry).length =
      c.replays ((k - c.statements.length) / 2 + 1) := by
  subst hcollect
  have hidle : l.pool.isIdle = true := h.calm (Or.inl rfl)
  rcases calls_cases (h.course .collect rfl) with
    ⟨s, -, hother, -⟩ | ⟨hle, ⟨-, hother, -⟩ | ⟨-, -, -⟩⟩
  · cases hother
  · cases hother
  · have hperm := h.perm_entries hbalanced htallied hle hidle fun t ht => by
      obtain rfl := Option.some.inj ht
      rfl
    exact h.sound.length_fresh (congrArg Config.maxAttempts h.config) hperm

/-- A move of the caller leaves alone what its calls before have returned. -/
theorem Underway.answers_moves (h : c.Underway k (some task) l)
    (hmoves : c.Moves l (l.pool.config.workers + k) task task' q l') :
    l'.pool.tasks.drop l'.pool.config.workers = c.answers.take k ++ [task'] := by
  have hbefore : l.pool.tasks.drop l.pool.config.workers = c.answers.take k ++ [task] := h.answers
  have hk : k < c.calls.length := h.bounded
  have hlength : (c.answers.take k).length = k := by
    rw [List.length_take, length_answers]
    omega
  rw [hmoves.reaches.tasks, hmoves.config, List.drop_set, if_neg (by omega),
    Nat.add_sub_cancel_left, hbefore, List.set_append_right _ _ (by omega), hlength, Nat.sub_self]
  rfl

theorem Underway.isOpen_moves (h : c.Underway k (some task) l)
    (hmoves : c.Moves l (l.pool.config.workers + k) task task' q l') :
    l'.pool.isClosed = false := by
  have hcourse : c.Course k task := h.course task rfl
  have hne : task ≠ .close := by
    rintro rfl
    cases hcourse
  rw [hmoves.reaches.data]
  exact (hmoves.advance.isClosed_eq hne).trans h.isOpen

/-- A call of the caller that has not returned goes on. -/
theorem Underway.goesOn (h : c.Underway k (some task) l) (hbalanced : l.Balanced)
    (htallied : l.Tallied) (hmoves : c.Moves l (l.pool.config.workers + k) task task' q l')
    (hover : task'.isOver = false) : c.Underway k (some task') l' := by
  obtain ⟨hcourse, hother, hnumber, hcollects⟩ := (h.course task rfl).goesOn hmoves.advance
    h.isOpen hover h.nextId_eq (h.length_fresh hbalanced htallied)
  have hcollected : ∀ t : Task, c.stage k (some t) =
      (k - c.statements.length) / 2 + t.hasCollected.toNat := fun _ => rfl
  exact {
    config := hmoves.config.trans h.config
    isOpen := h.isOpen_moves hmoves
    calls := by
      rw [hmoves.begun, hmoves.config]
      exact h.calls
    answers := h.answers_moves hmoves
    bounded := h.bounded
    course := by
      intro t ht
      obtain rfl := Option.some.inj ht
      exact hcourse
    nextId := by
      have hbefore : l.pool.nextId =
          min k c.statements.length + 1 + task.isNumbered.toNat := h.nextId
      rw [hmoves.reaches.data]
      show q.nextId = min k c.statements.length + 1 + task'.isNumbered.toNat
      omega
    sound := by
      rcases hcollects with ⟨hne, hsame⟩ | ⟨rfl, htaken⟩
      · rw [hcollected, hsame, ← hcollected]
        exact h.sound.moves hmoves h.isOpen hne
      · rw [hcollected, htaken]
        exact h.sound_collect hbalanced htallied hmoves
    calm := by
      rintro (hcollect | ⟨hnone, -⟩)
      · exact absurd (Option.some.inj hcollect) hother
      · cases hnone }

/-- A call of the caller that returns makes room for the next one. -/
theorem Underway.returns (h : c.Underway k (some task) l)
    (hmoves : c.Moves l (l.pool.config.workers + k) task task' q l')
    (hover : task'.isOver = true) : c.Underway (k + 1) none l' := by
  obtain ⟨hanswer, hne, hnumber, hmin, hstage, hcalm⟩ :=
    (h.course task rfl).returns hmoves.advance h.isOpen hover
  exact {
    config := hmoves.config.trans h.config
    isOpen := h.isOpen_moves hmoves
    calls := by
      rw [hmoves.begun, hmoves.config]
      exact h.calls
    answers := by
      rw [h.answers_moves hmoves, List.take_add_one, hanswer]
      simp
    bounded := h.bounded
    course := by simp
    nextId := by
      have hbefore : l.pool.nextId =
          min k c.statements.length + 1 + task.isNumbered.toNat := h.nextId
      rw [hmoves.reaches.data]
      show q.nextId = min (k + 1) c.statements.length + 1 + 0
      omega
    sound := by
      rw [hstage]
      exact h.sound.moves hmoves h.isOpen hne
    calm := by
      intro h
      rw [hmoves.reaches.data]
      exact hcalm h }

theorem Course.isOver_eq (h : c.Course k task) : task.isOver = false := by
  cases task <;> first | rfl | cases h

/-- The caller makes its next call when the last one has returned. -/
theorem Underway.eq_none (h : c.Underway k current l)
    (hover : (l.pool.tasks.drop l.pool.config.workers).all Task.isOver = true) :
    current = none := by
  cases current with
  | none => rfl
  | some t =>
    have hlast : t ∈ l.pool.tasks.drop l.pool.config.workers := by
      rw [h.answers]
      exact List.mem_append_right _ (List.mem_singleton_self t)
    have htaskover := List.all_eq_true.mp hover t hlast
    rw [(h.course t rfl).isOver_eq] at htaskover
    cases htaskover

theorem Underway.length_callers (h : c.Underway k current l) :
    l.pool.tasks.length - l.pool.config.workers = k + current.toList.length := by
  have hlength := congrArg List.length h.answers
  have hbounded := h.bounded
  rw [List.length_drop, List.length_append, List.length_take, length_answers] at hlength
  omega

/-- An event keeps the caller on its course. -/
theorem Underway.after? {event : Event} (h : c.Underway k current l) (hbalanced : l.Balanced)
    (htallied : l.Tallied) (hafter : c.after? l event = some l') :
    ∃ k' current', c.Underway k' current' l' := by
  rcases after?_moves hafter with ⟨task, hover, hcall, rfl⟩ | ⟨i, task, task', q, hmoves⟩
  · obtain rfl := h.eq_none hover
    rw [h.length_callers] at hcall
    exact ⟨k, some task, h.call hbalanced hcall⟩
  · by_cases hi : i < l.pool.config.workers
    · have hrole : task.role = .worker := (hbalanced.task_role_iff hmoves.before).mpr hi
      exact ⟨k, current, h.worker htallied hi hrole hmoves⟩
    · obtain ⟨rfl, rfl⟩ := h.eq_current hi hmoves.before hmoves.advance.isOver_eq
      cases hover : task'.isOver with
      | false => exact ⟨k, some task', h.goesOn hbalanced htallied hmoves hover⟩
      | true => exact ⟨k + 1, none, h.returns hmoves hover⟩

/-! ## Runs -/

/-- A pool in the course of a campaign. -/
structure Reached (c : Campaign) (l : Ledger) : Prop where
  balanced : l.Balanced
  tallied : l.Tallied
  wakeful : l.pool.Wakeful
  underway : ∃ k current, c.Underway k current l

theorem reached_start (hworkers : c.settings.workers ≠ 0) : c.Reached c.start where
  balanced := History.balanced_start c.settings.config
  tallied := Ledger.tallied_start c.settings.config
  wakeful := wakeful_fresh (Nat.pos_of_ne_zero fun hnone => hworkers (UInt64.toNat.inj hnone))
  underway := ⟨0, none, underway_start⟩

theorem Reached.after? {event : Event} (h : c.Reached l) (hafter : c.after? l event = some l') :
    c.Reached l' := by
  obtain ⟨k, current, hunderway⟩ := h.underway
  obtain ⟨a, -, hledger⟩ := Option.bind_eq_some_iff.mp hafter
  exact {
    balanced := h.balanced.after? (Ledger.toHistory_after? hledger)
    tallied := h.tallied.after? hledger
    wakeful := h.wakeful.after? (Ledger.pool_after? hledger)
    underway := hunderway.after? h.balanced h.tallied hafter }

theorem reached_of_run? {events : List Event} (hworkers : c.settings.workers ≠ 0)
    (hrun : c.run? events = some l) : c.Reached l :=
  foldlM_induction (reached_start hworkers) Reached.after? hrun

end Campaign

end GraphQuery
