import GraphQuery.Proofs.Advances
import Mathlib.Data.List.Flatten
import Mathlib.Data.List.Induction
import Mathlib.Data.List.Nodup
import Mathlib.Data.List.Pairwise
import Mathlib.Data.List.Perm.Basic

/-!
# A pool loses no mutation and makes none up

`History.conserved`: at every moment of every run, a mutation that was put
into the queue when it was submitted is in one `Place`, once, with its number
and its statement, and nothing else is in any place.

`History.Balanced` is the invariant behind it.  It speaks of all holdings at
once: their entries are those of the accepted mutations, up to the order.
`Pool.Advance.perm` is what one advance contributes: it only moves mutations
between the stock of the pool and the hands of the thread, up to what comes
in and what succeeds.  That each mutation is in *one* place follows at the
end, since numbers are distinct.
-/

namespace GraphQuery

/-! ## Lists in which one element is replaced -/

section
variable {α β : Type} {l : List α} {i : Nat} {x y : α}

theorem perm_set (h : l[i]? = some x) : (x :: l.set i y).Perm (y :: l) := by
  obtain ⟨hi, hx⟩ := List.getElem?_eq_some_iff.mp h
  obtain ⟨before, after, hl, -, hset⟩ : ∃ before after,
      l = before ++ l[i] :: after ∧ before.length = i ∧ l.set i y = before ++ y :: after :=
    List.exists_of_set hi
  rw [hset, hl, hx]
  have hout : (x :: (before ++ y :: after)).Perm (x :: y :: (before ++ after)) :=
    .cons x List.perm_middle
  have hin : (y :: x :: (before ++ after)).Perm (y :: (before ++ x :: after)) :=
    .cons y List.perm_middle.symm
  exact hout.trans ((List.Perm.swap y x _).trans hin)

/-- Replacing an element leaves the others in the list. -/
theorem mem_set_of_ne {z : α} (hx : x ∈ l) (hy : l[i]? = some y) (hne : y ≠ x) : x ∈ l.set i z := by
  obtain ⟨j, hj⟩ := List.getElem?_of_mem hx
  have hij : i ≠ j := by
    rintro rfl
    exact hne (Option.some.inj (hy.symm.trans hj))
  exact List.mem_of_getElem? ((List.getElem?_set_ne hij).trans hj)

theorem flatMap_range {f : α → List β} {g : Nat → List β}
    (h : ∀ i x, l[i]? = some x → g i = f x) : (List.range l.length).flatMap g = l.flatMap f := by
  induction l using List.reverseRecOn with
  | nil => rfl
  | append_singleton l x ih =>
    have hlast : g l.length = f x := h _ _ (by simp)
    have hinit : (List.range l.length).flatMap g = l.flatMap f :=
      ih fun i y hy =>
        h i y ((List.getElem?_append_left (List.getElem?_eq_some_iff.mp hy).1).trans hy)
    simp [List.range_succ, hlast, hinit]

theorem zip_set_right {b : List β} {z : β} (h : b[i]? = some z) :
    b.zip (l.set i y) = (b.zip l).set i (z, y) := by
  induction b generalizing l i with
  | nil => rfl
  | cons w b ih =>
    cases l with
    | nil => rfl
    | cons v l =>
      cases i with
      | zero => simpa using h
      | succ i => simpa using ih (by simpa using h)

end

namespace Pool

/-! ## What becomes of a thread -/

/-- What a thread is there for. -/
inductive Role where
  | worker
  | submitter
  | replayer
  | taker
  | waiter
  | closer
  deriving DecidableEq

namespace Task

/-- What a thread with the task is there for. -/
def role : Task → Role
  | fetch | execute _ | account _ _ _ | keep _ | release | left => .worker
  | request _ | offer _ | confirm _ | submitted _ => .submitter
  | collect | giveBack _ _ | resubmit _ _ | restore _ _ | replayed _ => .replayer
  | take | taken _ => .taker
  | await _ | flushed _ => .waiter
  | close | wakeWorkers | wakeCallers | takeCharge | join | shutDown => .closer

/-- The statement that the task is about to put into the queue for the first time. -/
def submits? : Task → Option Statement
  | request s => some s
  | offer m => some m.statement
  | _ => none

/-- The number that a call has got for its mutation, unless the mutation was refused. -/
def issued? : Task → Option Nat
  | offer m => some m.id
  | confirm id | submitted (.ok id) => some id
  | _ => none

/-- The mutations in the hands of a thread or in its answer. -/
def held : Task → List Pending
  | execute m | account m _ _ => [m]
  | keep f => [f.mutation]
  | giveBack exhausted fresh => (exhausted ++ fresh).map Failed.mutation
  | resubmit _ failed | restore _ failed | taken failed => failed.map Failed.mutation
  | _ => []

theorem role_ne_worker {t : Task} (h : t.isCall = true) : t.role ≠ .worker := by
  cases t <;> first | exact Role.noConfusion | cases h

theorem eq_request {t : Task} (hcall : t.isCall = true) (hrole : t.role = .submitter) :
    ∃ s, t = .request s := by
  cases t with
  | request s => exact ⟨s, rfl⟩
  | offer _ | confirm _ | submitted _ => cases hcall
  | _ => cases hrole

theorem accepted?_sublist (first now : Task) :
    ((first.accepted? now).toList.map Prod.fst).Sublist now.issued?.toList := by
  cases first <;> cases now <;> try exact List.nil_sublist _
  · exact List.Sublist.refl _
  · rename_i result
    cases result <;> exact List.Sublist.refl _

theorem submitted?_sublist (t : Task) : t.submitted?.toList.Sublist t.issued?.toList := by
  cases t <;> try exact List.nil_sublist _
  rename_i result
  cases result <;> exact List.Sublist.refl _

theorem held_of_worker {t : Task} (h : t.role = .worker) :
    t.held = t.inWork ∧ t.inReplay = [] ∧ t.inAnswer = [] := by
  cases t <;> first | exact ⟨rfl, rfl, rfl⟩ | cases h

theorem held_of_caller {t : Task} (h : t.role ≠ .worker) :
    t.held = t.inReplay ++ t.inAnswer ∧ t.inWork = [] := by
  cases t <;> first | exact absurd rfl h | simp [held, inReplay, inAnswer, inWork]

end Task

variable {p q : Pool} {task task' first : Task}

theorem Advance.role_eq (h : Advance p task task' q) : task'.role = task.role := by
  cases h with
  | takeCharge => split <;> rfl
  | _ => rfl

theorem Advance.submits?_eq_some {s : Statement} (h : Advance p task task' q)
    (hs : task'.submits? = some s) : task.submits? = some s := by
  cases h with
  | park => exact hs
  | request => exact hs
  | takeCharge => split at hs <;> cases hs
  | _ => cases hs

theorem Advance.config_eq (h : Advance p task task' q) : q.config = p.config := by
  cases h <;> rfl

/-- The mutations in the queue and in the retry list. -/
def stock (p : Pool) : List Pending := p.queue ++ p.retries.map Failed.mutation

/-- What a thread takes from the stock of a pool it holds, and what it lets go of was in its hands.
Only a call that submits brings something in, and only a success goes out. -/
theorem Advance.perm (h : Advance p task task' q)
    (hfirst : ∀ s, task.submits? = some s → first = .request s) :
    ((q.stock ++ task'.held ++ task.success?.toList).map Pending.entry ++
        (first.accepted? task).toList).Perm
      ((p.stock ++ task.held).map Pending.entry ++ (first.accepted? task').toList) := by
  classical
  rw [List.perm_iff_count]
  intro e
  have hparts : ∀ ms : List Failed,
      ((ms.filter p.mayRetry).map fun f => f.mutation.entry).count e +
        ((ms.filter (!p.mayRetry ·)).map fun f => f.mutation.entry).count e =
      (ms.map fun f => f.mutation.entry).count e := by
    intro ms
    rw [← List.count_append, ← List.map_append]
    exact ((List.filter_append_perm p.mayRetry ms).map _).count_eq e
  cases h with
  | park hcondition =>
    have hnone : task.success? = none := by cases task <;> first | rfl | cases hcondition
    simp [hnone]
  | fetch hqueue =>
    have hentry : ∀ m : Pending, { m with attempts := m.attempts + 1 }.entry = m.entry :=
      fun _ => rfl
    simp [stock, hqueue, Task.held, Task.success?, Task.accepted?, List.count_cons, hentry]
    omega
  | @accept m =>
    rw [hfirst m.statement rfl]
    simp [stock, Task.held, Task.success?, Task.accepted?, List.count_cons, Pending.entry]
  | confirm =>
    have hsame : ∀ id, first.accepted? (.submitted (.ok id)) = first.accepted? (.confirm id) := by
      intro id
      cases first <;> rfl
    simp [stock, hsame, Task.held, Task.success?]
  | collectFresh h =>
    have hall := hparts p.retries
    rw [h] at hall
    simp only [stock, Task.held, Task.success?, Task.accepted?]
    simpa [Function.comp_def] using hall
  | collect h =>
    simp only [stock, Task.held, Task.success?, Task.accepted?]
    simpa [Function.comp_def, Nat.add_comm] using hparts p.retries
  | resubmit =>
    simp [stock, Task.held, Task.success?, Task.accepted?, List.count_cons]
    omega
  | takeCharge => split <;> simp [stock, Task.held, Task.success?, Task.accepted?]
  | _ => simp [stock, Task.held, Task.success?, Task.accepted?]

/-- A number is drawn when a call asks for one; otherwise a thread keeps the number that it has or
gives it up. -/
theorem Advance.issued?_cases (h : Advance p task task' q) :
    (task.issued? = none ∧ task'.issued? = some p.nextId ∧ q.nextId = p.nextId + 1 ∧
        task.isRequest = true ∧ task'.isRequest = false) ∨
      ((task'.issued? = task.issued? ∨ task'.issued? = none) ∧ q.nextId = p.nextId ∧
        task'.isRequest = task.isRequest) := by
  cases h with
  | request => exact Or.inl ⟨rfl, rfl, rfl, rfl, rfl⟩
  | park => exact Or.inr ⟨Or.inl rfl, rfl, rfl⟩
  | accept => exact Or.inr ⟨Or.inl rfl, rfl, rfl⟩
  | confirm => exact Or.inr ⟨Or.inl rfl, rfl, rfl⟩
  | takeCharge => split <;> exact Or.inr ⟨Or.inr rfl, rfl, rfl⟩
  | _ => exact Or.inr ⟨Or.inr rfl, rfl, rfl⟩

end Pool

open Pool

namespace History

variable {h h' : History}

/-- The numbers that were drawn for mutations that are not refused. -/
def issued (h : History) : List Nat := h.lives.flatMap fun life => life.2.issued?.toList

/-- Everything that is in some place. -/
def holdings (h : History) : List Pending :=
  h.pool.stock ++ h.succeeded ++ h.lives.flatMap fun life => life.2.held

/-- What holds of a pool with its past at every moment. -/
structure Balanced (h : History) : Prop where
  begun : ∃ calls, h.begun = List.replicate h.pool.config.workers .fetch ++ calls ∧
    ∀ call ∈ calls, call.isCall = true
  length : h.begun.length = h.pool.tasks.length
  roles : ∀ life ∈ h.lives, life.2.role = life.1.role
  submits : ∀ life ∈ h.lives, ∀ s, life.2.submits? = some s → life.1 = .request s
  issued_nodup : h.issued.Nodup
  issued_lt : ∀ id ∈ h.issued, id < h.pool.nextId
  nextId : h.pool.nextId + h.lives.countP (·.2.isRequest) = 1 + h.requests
  perm : (h.holdings.map Pending.entry).Perm h.accepted

theorem eq_of_mem_lives_start {config : Config} {life : Task × Task}
    (hlife : life ∈ (start config).lives) : life = (.fetch, .fetch) := by
  have hlives : (start config).lives = List.replicate config.workers (.fetch, .fetch) := by
    simp [lives, start, fresh, tasks, Thread.running]
  exact List.eq_of_mem_replicate (hlives ▸ hlife)

theorem balanced_start (config : Config) : Balanced (start config) := by
  have hissued : (start config).issued = [] :=
    List.flatMap_eq_nil_iff.mpr fun life hlife => by rw [eq_of_mem_lives_start hlife]; rfl
  have hheld : (start config).holdings = [] := by
    simp only [holdings, List.append_eq_nil_iff, List.flatMap_eq_nil_iff]
    exact ⟨⟨rfl, rfl⟩, fun life hlife => by rw [eq_of_mem_lives_start hlife]; rfl⟩
  have haccepted : (start config).accepted = [] :=
    List.filterMap_eq_nil_iff.mpr fun life hlife => by rw [eq_of_mem_lives_start hlife]; rfl
  have hwaiting : (start config).lives.countP (·.2.isRequest) = 0 :=
    List.countP_eq_zero.mpr fun life hlife => by
      rw [eq_of_mem_lives_start hlife]
      exact Bool.false_ne_true
  exact {
    begun := ⟨[], by simp [start, fresh], by simp⟩
    length := by simp [start, fresh, tasks]
    roles := fun life hlife => by rw [eq_of_mem_lives_start hlife]
    submits := fun life hlife s hs => by
      rw [eq_of_mem_lives_start hlife] at hs
      cases hs
    issued_nodup := hissued ▸ List.nodup_nil
    issued_lt := by simp [hissued]
    nextId := by
      rw [hwaiting]
      simp [start, fresh, requests, List.countP_replicate, Task.isRequest]
    perm := by rw [hheld, haccepted]; rfl }

/-! ## One action -/

theorem Balanced.call {task : Task} (hbalanced : Balanced h) (hcall : task.isCall = true)
    (htasks : h'.pool.tasks = h.pool.tasks ++ [task]) (hbegun : h'.begun = h.begun ++ [task])
    (hsucceeded : h'.succeeded = h.succeeded)
    (hdata : h'.pool = { h.pool with threads := h'.pool.threads }) : Balanced h' := by
  have hlives : h'.lives = h.lives ++ [(task, task)] := by
    rw [lives, htasks, hbegun, List.zip_append hbalanced.length]
    rfl
  have hissued : h'.issued = h.issued := by
    have hnone : task.issued? = none := by cases task <;> first | rfl | cases hcall
    simp [issued, hlives, hnone]
  have hholdings : h'.holdings = h.holdings := by
    have hnone : task.held = [] := by cases task <;> first | rfl | cases hcall
    have hstock : h'.pool.stock = h.pool.stock := by rw [hdata]; rfl
    simp [holdings, hlives, hnone, hstock, hsucceeded]
  have haccepted : h'.accepted = h.accepted := by
    have hnone : task.accepted? task = none := by cases task <;> rfl
    simp [accepted, hlives, hnone]
  have hconfig : h'.pool.config = h.pool.config := by rw [hdata]
  have hnext : h'.pool.nextId = h.pool.nextId := by rw [hdata]
  obtain ⟨calls, hcalls, hall⟩ := hbalanced.begun
  exact {
    begun := ⟨calls ++ [task], by rw [hbegun, hcalls, hconfig, List.append_assoc], by
      intro call hmem
      rcases List.mem_append.mp hmem with hmem | hmem
      · exact hall call hmem
      · rwa [List.mem_singleton.mp hmem]⟩
    length := by rw [hbegun, htasks, List.length_append, List.length_append, hbalanced.length]
    roles := by
      intro life hmem
      rcases List.mem_append.mp (hlives ▸ hmem) with hmem | hmem
      · exact hbalanced.roles life hmem
      · rw [List.mem_singleton.mp hmem]
    submits := by
      intro life hmem s hs
      rcases List.mem_append.mp (hlives ▸ hmem) with hmem | hmem
      · exact hbalanced.submits life hmem s hs
      · obtain rfl := List.mem_singleton.mp hmem
        cases task with
        | request s' => exact congrArg Task.request (Option.some.inj hs)
        | offer m => cases hcall
        | _ => cases hs
    issued_nodup := hissued ▸ hbalanced.issued_nodup
    issued_lt := by
      rw [hissued, hnext]
      exact hbalanced.issued_lt
    nextId := by
      have hbefore := hbalanced.nextId
      simp only [requests, hlives, hbegun, hnext, List.countP_append, List.countP_singleton] at *
      omega
    perm := by
      rw [hholdings, haccepted]
      exact hbalanced.perm }

theorem Balanced.issued_advance {first task task' : Task} {q : Pool} (hbalanced : Balanced h)
    (hset : ((first, task) :: h'.lives).Perm ((first, task') :: h.lives))
    (hadvance : Advance h.pool task task' q) :
    h'.issued.Nodup ∧ ∀ id ∈ h'.issued, id < q.nextId := by
  have hperm : (task.issued?.toList ++ h'.issued).Perm (task'.issued?.toList ++ h.issued) := by
    have hall := hset.flatMap_right fun life => life.2.issued?.toList
    rwa [List.flatMap_cons, List.flatMap_cons] at hall
  have hkept : ∀ {kept : List Nat}, (kept ++ h'.issued).Perm h.issued → q.nextId = h.pool.nextId →
      h'.issued.Nodup ∧ ∀ id ∈ h'.issued, id < q.nextId := by
    intro kept hperm hid
    refine ⟨(List.nodup_append.mp (hperm.nodup_iff.mpr hbalanced.issued_nodup)).2.1, ?_⟩
    intro id hmem
    rw [hid]
    exact hbalanced.issued_lt id (hperm.mem_iff.mp (List.mem_append_right _ hmem))
  -- Either the next number comes in, or the numbers stay as they are but for one given up.
  rcases hadvance.issued?_cases with ⟨hbefore, hafter, hid, -⟩ | ⟨hafter | hafter, hid, -⟩
  · have hnew : h.pool.nextId ∉ h.issued := fun hold => Nat.lt_irrefl _ (hbalanced.issued_lt _ hold)
    have hperm : h'.issued.Perm (h.pool.nextId :: h.issued) := by
      rwa [hbefore, hafter] at hperm
    refine ⟨hperm.nodup_iff.mpr (List.nodup_cons.mpr ⟨hnew, hbalanced.issued_nodup⟩), ?_⟩
    intro id hmem
    rw [hid]
    rcases List.mem_cons.mp (hperm.mem_iff.mp hmem) with rfl | hmem
    · exact Nat.lt_succ_self _
    · exact Nat.lt_succ_of_lt (hbalanced.issued_lt id hmem)
  · rw [hafter] at hperm
    have hsame : ([] ++ h'.issued).Perm h.issued := (List.perm_append_left_iff _).mp hperm
    exact hkept hsame hid
  · rw [hafter] at hperm
    exact hkept hperm hid

/-- An advance moves mutations from one place to another. -/
theorem Balanced.advance {i : Nat} {first task task' : Task} {q : Pool} (hbalanced : Balanced h)
    (hlife : h.lives[i]? = some (first, task)) (hadvance : Advance h.pool task task' q)
    (hlives : h'.lives = h.lives.set i (first, task')) (hbegun : h'.begun = h.begun)
    (hsucceeded : h'.succeeded = h.succeeded ++ task.success?.toList)
    (hdata : h'.pool = { q with threads := h'.pool.threads })
    (hlength : h'.pool.tasks.length = h.pool.tasks.length) : Balanced h' := by
  have hconfig : h'.pool.config = h.pool.config := by rw [hdata, ← hadvance.config_eq]
  have hnext : h'.pool.nextId = q.nextId := by rw [hdata]
  have hstock : h'.pool.stock = q.stock := by rw [hdata]; rfl
  have hset := perm_set (y := (first, task')) hlife
  rw [← hlives] at hset
  have hmem : (first, task) ∈ h.lives := List.mem_of_getElem? hlife
  have hfirst : ∀ s, task.submits? = some s → first = .request s := hbalanced.submits _ hmem
  exact {
    begun := by
      rw [hbegun, hconfig]
      exact hbalanced.begun
    length := by rw [hbegun, hlength, hbalanced.length]
    roles := by
      intro life hlife'
      rcases List.mem_or_eq_of_mem_set (hlives ▸ hlife') with hlife' | rfl
      · exact hbalanced.roles life hlife'
      · exact hadvance.role_eq.trans (hbalanced.roles _ hmem)
    submits := by
      intro life hlife' s hs
      rcases List.mem_or_eq_of_mem_set (hlives ▸ hlife') with hlife' | rfl
      · exact hbalanced.submits life hlife' s hs
      · exact hfirst s (hadvance.submits?_eq_some hs)
    issued_nodup := (hbalanced.issued_advance hset hadvance).1
    issued_lt := hnext ▸ (hbalanced.issued_advance hset hadvance).2
    nextId := by
      have hbefore := hbalanced.nextId
      have hcount := hset.countP_eq (·.2.isRequest)
      simp only [List.countP_cons] at hcount
      rw [requests, hbegun, hnext]
      rw [requests] at hbefore
      rcases hadvance.issued?_cases with ⟨-, -, hid, hrequest, hrequest'⟩ | ⟨-, hid, hrequest⟩
      · simp only [hrequest, hrequest', if_true, Bool.false_eq_true, if_false] at hcount
        omega
      · rw [hrequest] at hcount
        omega
    perm := by
      classical
      have hmoved := hadvance.perm hfirst
      have hheld := (hset.flatMap_right fun life => life.2.held).map Pending.entry
      have haccepted := hset.flatMap_right fun life => (Task.accepted? life.1 life.2).toList
      have hbefore := hbalanced.perm
      -- For each entry the four permutations are equations between counts, which add up.
      rw [List.perm_iff_count] at hmoved hheld haccepted hbefore ⊢
      intro e
      specialize hmoved e
      specialize hheld e
      specialize haccepted e
      specialize hbefore e
      simp only [holdings, accepted, hstock, hsucceeded, List.flatMap_cons, List.map_append,
        List.count_append, List.filterMap_eq_flatMap_toList] at hmoved hheld haccepted hbefore ⊢
      omega }

theorem Balanced.after? {a : Pool.Action} (hbalanced : Balanced h) (hafter : h.after? a = some h') :
    Balanced h' := by
  rcases after?_cases hafter with ⟨task, hcall, hh⟩ | ⟨i, task, htask, hadvances, hh⟩
  · subst hh
    exact hbalanced.call hcall (by simp [tasks, Thread.running]) rfl rfl rfl
  · obtain ⟨task', q, hadvance, hreaches⟩ := hadvances
    have hbegun : h'.begun = h.begun := by rw [hh]
    have hsucceeded : h'.succeeded = h.succeeded ++ task.success?.toList := by rw [hh]
    obtain ⟨first, hfirst⟩ : ∃ first, h.begun[i]? = some first := by
      have hi := (List.getElem?_eq_some_iff.mp htask).1
      rw [← hbalanced.length] at hi
      exact ⟨_, List.getElem?_eq_getElem hi⟩
    refine hbalanced.advance (List.getElem?_zip_eq_some.mpr ⟨hfirst, htask⟩) hadvance ?_ hbegun
      hsucceeded hreaches.data ?_
    · rw [lives, lives, hbegun, hreaches.tasks]
      exact zip_set_right hfirst
    · rw [hreaches.tasks, List.length_set]

theorem balanced_of_run? {config : Config} {actions : List Pool.Action}
    (hrun : (start config).run? actions = some h) : Balanced h :=
  run?_induction (balanced_start config) Balanced.after? hrun

/-! ## Every place -/

theorem Balanced.role_eq_worker_iff {i : Nat} {first task : Task} (hbalanced : Balanced h)
    (hlife : h.lives[i]? = some (first, task)) :
    task.role = .worker ↔ i < h.pool.config.workers := by
  have hrole : task.role = first.role := hbalanced.roles _ (List.mem_of_getElem? hlife)
  obtain ⟨calls, hbegun, hcalls⟩ := hbalanced.begun
  have hfirst : h.begun[i]? = some first := (List.getElem?_zip_eq_some.mp hlife).1
  rw [hrole]
  rw [hbegun] at hfirst
  by_cases hi : i < h.pool.config.workers
  · rw [List.getElem?_append_left (by simpa using hi), List.getElem?_replicate_of_lt hi] at hfirst
    simp [hi, ← Option.some.inj hfirst, Task.role]
  · rw [List.getElem?_append_right (by simpa using hi)] at hfirst
    simp [hi, Task.role_ne_worker (hcalls _ (List.mem_of_getElem? hfirst))]

theorem Balanced.workers_le (hbalanced : Balanced h) :
    h.pool.config.workers ≤ h.pool.tasks.length := by
  obtain ⟨calls, hbegun, -⟩ := hbalanced.begun
  rw [← hbalanced.length, hbegun]
  simp

theorem Balanced.task_role_iff {i : Nat} {task : Task} (hbalanced : Balanced h)
    (htask : h.pool.tasks[i]? = some task) : task.role = .worker ↔ i < h.pool.config.workers := by
  have hi : i < h.begun.length := hbalanced.length ▸ (List.getElem?_eq_some_iff.mp htask).1
  exact hbalanced.role_eq_worker_iff
    (List.getElem?_zip_eq_some.mpr ⟨List.getElem?_eq_getElem hi, htask⟩)

/-- The places in which one of the first threads may have something, and those of the pool. -/
def places (threads : Nat) : List Place :=
  [.queue, .retries, .succeeded] ++
    (List.range threads).flatMap fun i => [.worker i, .replay i, .answer i]

theorem Balanced.contents_thread {i : Nat} {life : Task × Task} (hbalanced : Balanced h)
    (hlife : h.lives[i]? = some life) :
    [Place.worker i, .replay i, .answer i].flatMap h.contents = life.2.held := by
  have htask : h.pool.tasks[i]? = some life.2 := (List.getElem?_zip_eq_some.mp hlife).2
  have hworker : life.2.role = .worker ↔ i < h.pool.config.workers :=
    hbalanced.role_eq_worker_iff hlife
  simp only [List.flatMap_cons, List.flatMap_nil, contents, htask, Option.toList_some,
    List.append_nil]
  by_cases hi : i < h.pool.config.workers
  · obtain ⟨hheld, -, -⟩ := Task.held_of_worker (hworker.mpr hi)
    simp [hi, hheld]
  · obtain ⟨hheld, -⟩ := Task.held_of_caller (mt hworker.mp hi)
    simp [hi, hheld]

theorem Balanced.lives_length (hbalanced : Balanced h) : h.lives.length = h.pool.tasks.length := by
  rw [lives, List.length_zip, hbalanced.length, Nat.min_self]

theorem Balanced.flatMap_contents (hbalanced : Balanced h) :
    (places h.pool.tasks.length).flatMap h.contents = h.holdings := by
  have hthreads := flatMap_range fun _ _ => hbalanced.contents_thread
  rw [hbalanced.lives_length] at hthreads
  rw [places, List.flatMap_append, List.flatMap_assoc, hthreads]
  simp [holdings, stock, contents]

theorem mem_places {place : Place} {m : Pending} (hm : m ∈ h.contents place) :
    place ∈ places h.pool.tasks.length := by
  have hthread : ∀ {i : Nat} {f : Task → List Pending},
      m ∈ h.pool.tasks[i]?.toList.flatMap f → i < h.pool.tasks.length := by
    intro i f hm
    by_contra hi
    rw [List.getElem?_eq_none (Nat.le_of_not_lt hi)] at hm
    exact List.not_mem_nil hm
  cases place with
  | queue | retries | succeeded => simp [places]
  | worker i =>
    rw [contents] at hm
    split at hm
    · simp [places, hthread hm]
    · exact absurd hm List.not_mem_nil
  | replay i | answer i =>
    rw [contents] at hm
    split at hm
    · exact absurd hm List.not_mem_nil
    · simp [places, hthread hm]

/-! ## Numbers -/

theorem Balanced.accepted_nodup (hbalanced : Balanced h) : (h.accepted.map Prod.fst).Nodup := by
  rw [accepted, List.filterMap_eq_flatMap_toList, List.map_flatMap]
  exact hbalanced.issued_nodup.sublist
    (List.Sublist.flatMap_right _ fun life _ => Task.accepted?_sublist life.1 life.2)

theorem Balanced.map_snd_lives (hbalanced : Balanced h) : h.lives.map Prod.snd = h.pool.tasks :=
  List.map_snd_zip (Nat.le_of_eq hbalanced.length.symm)

theorem Balanced.handedOut_sublist (hbalanced : Balanced h) : h.handedOut.Sublist h.issued := by
  rw [handedOut, ← hbalanced.map_snd_lives, List.filterMap_map, List.filterMap_eq_flatMap_toList]
  exact List.Sublist.flatMap_right _ fun life _ => Task.submitted?_sublist life.2

/-- A call that submits came in with the statement. -/
theorem Balanced.eq_request {life : Task × Task} (hbalanced : Balanced h) (hlife : life ∈ h.lives)
    (hrole : life.2.role = .submitter) : ∃ s, life.1 = .request s := by
  have hfirst : life.1.role = .submitter := (hbalanced.roles life hlife).symm.trans hrole
  obtain ⟨calls, hbegun, hcalls⟩ := hbalanced.begun
  rcases List.mem_append.mp (hbegun ▸ (List.of_mem_zip hlife).1) with hworker | hcall
  · rw [List.eq_of_mem_replicate hworker] at hfirst
    cases hfirst
  · exact Task.eq_request (hcalls _ hcall) hfirst

/-- A number that a call returns is the number of the mutation that it has submitted. -/
theorem Balanced.mem_accepted {i id : Nat} (hbalanced : Balanced h)
    (htask : h.pool.tasks[i]? = some (.submitted (.ok id))) :
    ∃ s, h.begun[i]? = some (.request s) ∧ (id, s) ∈ h.accepted := by
  obtain ⟨first, hfirst⟩ : ∃ first, h.begun[i]? = some first := by
    have hi := (List.getElem?_eq_some_iff.mp htask).1
    rw [← hbalanced.length] at hi
    exact ⟨_, List.getElem?_eq_getElem hi⟩
  have hlife : (first, Task.submitted (.ok id)) ∈ h.lives :=
    List.mem_of_getElem? (List.getElem?_zip_eq_some.mpr ⟨hfirst, htask⟩)
  obtain ⟨s, rfl⟩ : ∃ s, first = .request s := hbalanced.eq_request hlife rfl
  exact ⟨s, hfirst, List.mem_filterMap.mpr ⟨_, hlife, rfl⟩⟩

/-! ## The result -/

/-- Every mutation that was accepted is in one place, and nothing else is anywhere. -/
structure Conserved (h : History) : Prop where
  /-- It is in one place, once, with the statement that was submitted. -/
  located : ∀ (id : Nat) (s : Statement), (id, s) ∈ h.accepted →
    ∃ slot m, h.at? slot = some m ∧ m.entry = (id, s) ∧
      ∀ slot' m', h.at? slot' = some m' → m'.id = id → slot' = slot
  /-- What is somewhere was accepted, under its number and with its statement. -/
  accepted : ∀ slot m, h.at? slot = some m → m.entry ∈ h.accepted
  /-- No number is handed out twice. -/
  distinct : h.handedOut.Nodup
  /-- No number is larger than the number of submissions. -/
  bounded : ∀ id ∈ h.handedOut, id ≤ h.requests
  /-- The number that a call returns is that of the statement with which it came in. -/
  returned : ∀ (i id : Nat), h.pool.tasks[i]? = some (Task.submitted (.ok id)) →
    ∃ s, h.begun[i]? = some (Task.request s) ∧ (id, s) ∈ h.accepted

theorem Balanced.entry_mem {place : Place} {m : Pending} (hbalanced : Balanced h)
    (hm : m ∈ h.contents place) : m.entry ∈ h.accepted := by
  have hholdings : m ∈ h.holdings := by
    rw [← hbalanced.flatMap_contents]
    exact List.mem_flatMap.mpr ⟨place, mem_places hm, hm⟩
  exact hbalanced.perm.mem_iff.mp (List.mem_map_of_mem hholdings)

theorem Balanced.slot_eq {slot slot' : Place × Nat} {m m' : Pending} (hbalanced : Balanced h)
    (hm : h.at? slot = some m) (hm' : h.at? slot' = some m') (hid : m'.id = m.id) :
    slot' = slot := by
  have hnodup : (h.holdings.map Pending.id).Nodup := by
    have hperm := hbalanced.perm.map Prod.fst
    rw [List.map_map] at hperm
    exact hperm.nodup_iff.mpr hbalanced.accepted_nodup
  rw [← hbalanced.flatMap_contents, List.map_flatMap, List.nodup_flatMap] at hnodup
  obtain ⟨hinside, hbetween⟩ := hnodup
  obtain ⟨place, k⟩ := slot
  obtain ⟨place', k'⟩ := slot'
  have hmem : m ∈ h.contents place := List.mem_of_getElem? hm
  have hmem' : m' ∈ h.contents place' := List.mem_of_getElem? hm'
  -- Two places share no number, and inside a place each position has its own.
  have hplace : place' = place := by
    by_contra hne
    have : Std.Symm (Function.onFun List.Disjoint fun place => (h.contents place).map Pending.id) :=
      ⟨fun _ _ hdisjoint _ hid hid' => hdisjoint hid' hid⟩
    have hdisjoint := hbetween.forall (mem_places hmem') (mem_places hmem) hne
    exact hdisjoint (List.mem_map_of_mem hmem') (hid ▸ List.mem_map_of_mem hmem)
  subst hplace
  have hk : k < ((h.contents place').map Pending.id).length := by
    rw [List.length_map]
    exact (List.getElem?_eq_some_iff.mp hm).1
  have hsame : ((h.contents place').map Pending.id)[k]? =
      ((h.contents place').map Pending.id)[k']? := by
    have hk : (h.contents place')[k]? = some m := hm
    have hk' : (h.contents place')[k']? = some m' := hm'
    rw [List.getElem?_map, List.getElem?_map, hk, hk', Option.map_some, Option.map_some, hid]
  rw [(List.getElem?_inj hk (hinside place' (mem_places hmem'))).mp hsame]

theorem conserved {config : Config} {actions : List Pool.Action}
    (hrun : (start config).run? actions = some h) : Conserved h := by
  have hbalanced : Balanced h := balanced_of_run? hrun
  exact {
    located := by
      intro id s haccepted
      obtain ⟨m, hm, hentry⟩ := List.mem_map.mp (hbalanced.perm.mem_iff.mpr haccepted)
      rw [← hbalanced.flatMap_contents] at hm
      obtain ⟨place, -, hplace⟩ := List.mem_flatMap.mp hm
      obtain ⟨k, hk⟩ := List.getElem?_of_mem hplace
      have hid : m.id = id := congrArg Prod.fst hentry
      refine ⟨(place, k), m, hk, hentry, fun slot' m' hm' hid' => ?_⟩
      exact hbalanced.slot_eq hk hm' (hid'.trans hid.symm)
    accepted := fun slot m hm => hbalanced.entry_mem (List.mem_of_getElem? hm)
    distinct := hbalanced.issued_nodup.sublist hbalanced.handedOut_sublist
    bounded := by
      intro id hid
      have hlt := hbalanced.issued_lt id (hbalanced.handedOut_sublist.subset hid)
      have hnext := hbalanced.nextId
      omega
    returned := fun i id htask => hbalanced.mem_accepted htask }

/-- Two mutations are accepted, the one in front fails, and a call takes it in order to replay it
while the worker takes the other. -/
def replaying : List Pool.Action :=
  [.call (.request ⟨.set, "a", []⟩), .call (.request ⟨.set, "b", []⟩), .step 1 0, .step 2 0,
    .step 2 0, .step 1 0, .step 1 0, .step 0 0, .finish 0 (.error .cancelled) 7, .step 0 0,
    .step 0 0, .step 0 0, .call .collect, .step 3 0, .step 0 0]

theorem conserved_replaying :
    ∃ h, (start ⟨1, 2, 3⟩).run? replaying = some h ∧
      h.contents (.replay 3) = [⟨2, ⟨.set, "b", []⟩, 1⟩] ∧
      h.contents (.worker 0) = [⟨1, ⟨.set, "a", []⟩, 1⟩] ∧ Conserved h := by
  have hcontents : ((start ⟨1, 2, 3⟩).run? replaying).map
      (fun h => (h.contents (.replay 3), h.contents (.worker 0))) =
      some ([⟨2, ⟨.set, "b", []⟩, 1⟩], [⟨1, ⟨.set, "a", []⟩, 1⟩]) := rfl
  obtain ⟨h, hrun, hcontents⟩ := Option.map_eq_some_iff.mp hcontents
  exact ⟨h, hrun, congrArg Prod.fst hcontents, congrArg Prod.snd hcontents, conserved hrun⟩

end History

end GraphQuery
