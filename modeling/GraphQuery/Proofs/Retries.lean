import GraphQuery.Proofs.Settling

/-!
# Retries do not depend on the schedule

The campaigns of `GraphQuery.Pool.Campaign` leave open in which order the
threads of a pool take their turns.  Everything that can be asked of one when
it is over is settled beforehand: how often each mutation was executed, what
is left in the retry list, what each call has returned, and all counters.

`Campaign.Settled` gathers what the invariant of a run (`Campaign.Underway`)
comes to when the pool is idle and all calls have returned.  The retry list
and the successes together are then the mutations that were submitted
(`Settled.perm`), and each stands there with the number of its attempts
(`Settled.attempts`), so counting is all that is left.

Main result: `Campaign.settles`, every run comes to an end, and always to the
same.
-/

namespace GraphQuery

open Pool

section
variable {α β : Type}

/-- How often each of some distinct elements occurs, for a list with no others. -/
theorem sum_count [DecidableEq α] {xs ys : List α} (hys : ys.Nodup) (hsub : ∀ x ∈ xs, x ∈ ys) :
    (ys.map fun y => xs.countP (· = y)).sum = xs.length := by
  have hcount : ∑ y ∈ ys.toFinset, (xs : Multiset α).count y = xs.length :=
    Multiset.sum_count_eq_card fun x hx => List.mem_toFinset.mpr (hsub x (Multiset.mem_coe.mp hx))
  rw [← hcount, ← List.sum_toFinset _ hys]
  refine Finset.sum_congr rfl fun y _ => ?_
  rw [Multiset.coe_count, List.count]
  rfl

/-- Of elements with different keys one has the given key. -/
theorem filter_key [DecidableEq β] {key : α → β} {xs : List α} {x : α}
    (hxs : (xs.map key).Nodup) (hx : x ∈ xs) : xs.filter (key · = key x) = [x] := by
  induction xs with
  | nil => cases hx
  | cons y ys ih =>
    obtain ⟨hnew, hys⟩ := List.nodup_cons.mp hxs
    rcases List.mem_cons.mp hx with rfl | hx
    · have hnone : ys.filter (key · = key x) = [] := by
        refine List.filter_eq_nil_iff.mpr fun z hz => ?_
        have hne : key z ≠ key x := fun hsame => hnew (hsame ▸ List.mem_map_of_mem hz)
        simpa using hne
      simp [hnone]
    · have hne : key y ≠ key x := fun hsame => hnew (hsame ▸ List.mem_map_of_mem hx)
      simp [hne, ih hys hx]

end

namespace Pool

theorem tries_eq_count {ms : List Pending} {tries : Nat → Nat} {e : Entry}
    (h : ∀ m ∈ ms, m.attempts = tries m.id) :
    Pool.tries e ms = (ms.map Pending.entry).count e * tries e.1 := by
  induction ms with
  | nil => simp
  | cons m ms ih =>
    obtain ⟨hm, hms⟩ := List.forall_mem_cons.mp h
    rw [tries_cons, ih hms, List.map_cons, List.count_cons, Nat.add_mul, Nat.add_comm]
    by_cases he : m.entry = e
    · have hid : m.id = e.1 := congrArg Prod.fst he
      simp [he, hm, hid]
    · simp [he]

end Pool

namespace Campaign

variable {c : Campaign} {l : Ledger}

theorem nodup_ids : (c.entries.map Prod.fst).Nodup := by
  have hids : c.entries.map Prod.fst = List.range' 1 c.statements.length := by
    rw [← List.zipIdx_map_snd, entries, List.map_map]
    rfl
  rw [hids]
  exact List.nodup_range'

theorem nodup_entries : c.entries.Nodup := nodup_ids.of_map

/-- The last state of a campaign. -/
structure Settled (c : Campaign) (l : Ledger) : Prop where
  reached : c.Reached l
  underway : c.Underway c.calls.length none l
  isIdle : l.pool.isIdle = true

namespace Settled

theorem sound (h : c.Settled l) : c.Sound c.rounds l := by
  have hsound := h.underway.sound
  have hstage : c.stage c.calls.length none = c.rounds := by
    show (c.calls.length - c.statements.length) / 2 + 0 = c.rounds
    rw [length_calls]
    omega
  rwa [hstage] at hsound

theorem perm (h : c.Settled l) :
    ((l.pool.retries.map Failed.mutation ++ l.succeeded).map Pending.entry).Perm c.entries :=
  h.underway.perm_entries h.reached.balanced h.reached.tallied (by rw [length_calls]; omega)
    h.isIdle (by simp)

/-- Every mutation was tried as often as it should be. -/
theorem attempts (h : c.Settled l) {m : Pending}
    (hm : m ∈ l.pool.retries.map Failed.mutation ++ l.succeeded) : m.attempts = c.tries m.id := by
  rcases List.mem_append.mp hm with hm | hm
  · obtain ⟨f, hf, rfl⟩ := List.mem_map.mp hm
    have hkept := h.sound.retries f hf
    rw [hkept.attempts]
    exact (tries_of_failsAll hkept.failed).symm
  · have hwon := h.sound.succeeded m hm
    exact (tries_of_success hwon.positive hwon.attempts hwon.failed hwon.success).symm

theorem workers (h : c.Settled l) : ∀ t ∈ l.pool.tasks.take l.pool.config.workers, t = .fetch :=
  h.underway.idles h.reached.balanced h.reached.tallied h.isIdle

theorem answers (h : c.Settled l) : l.pool.tasks.drop l.pool.config.workers = c.answers := by
  rw [h.underway.answers, Option.toList_none, List.append_nil,
    List.take_of_length_le (Nat.le_of_eq length_answers)]

theorem tasks (h : c.Settled l) :
    l.pool.tasks = l.pool.tasks.take l.pool.config.workers ++ c.answers := by
  rw [← h.answers, List.take_append_drop]

/-- A number that neither idle workers nor answers have a share in is zero. -/
theorem total_eq_zero (h : c.Settled l) {share : Task → Nat} (hfetch : share .fetch = 0)
    (hsubmitted : ∀ id, share (.submitted (.ok id)) = 0)
    (hreplayed : ∀ n, share (.replayed (.ok n)) = 0) (hflushed : share (.flushed true) = 0) :
    l.pool.total share = 0 := by
  refine Pool.total_eq_zero fun t ht => ?_
  rw [h.tasks, List.mem_append] at ht
  rcases ht with hmem | hmem
  · rw [h.workers t hmem]
    exact hfetch
  · rcases eq_of_answers hmem with ⟨id, rfl⟩ | rfl | ⟨n, rfl⟩
    · exact hsubmitted id
    · exact hflushed
    · exact hreplayed n

theorem executions (h : c.Settled l) (e : Entry) :
    l.executions e = c.entries.count e * c.tries e.1 := by
  have hqueue : l.pool.queue = [] := (isIdle_iff.mp h.isIdle).1
  have htries := h.reached.tallied.tries e
  rw [h.total_eq_zero rfl (fun _ => rfl) (fun _ => rfl) rfl,
    h.total_eq_zero rfl (fun _ => rfl) (fun _ => rfl) rfl, stock, hqueue, List.nil_append,
    Nat.add_zero, Nat.add_zero, ← tries_append,
    tries_eq_count fun m hm => h.attempts hm] at htries
  rw [htries, h.perm.count_eq]

theorem executions_of_mem (h : c.Settled l) {e : Entry} (he : e ∈ c.entries) :
    l.executions e = c.tries e.1 := by
  rw [h.executions, List.count_eq_one_of_mem nodup_entries he, Nat.one_mul]

/-- Nothing else was executed. -/
theorem executed (h : c.Settled l) : ∀ x ∈ l.executed, x.1.entry ∈ c.entries := by
  intro x hx
  by_contra hother
  have hpos : 0 < l.executions x.1.entry := List.countP_pos_iff.mpr ⟨x, hx, by simp⟩
  rw [h.executions, List.count_eq_zero_of_not_mem hother, Nat.zero_mul] at hpos
  cases hpos

theorem length_executed (h : c.Settled l) :
    l.executed.length = (c.entries.map fun e => c.tries e.1).sum := by
  have hmem : ∀ e ∈ l.executed.map fun x => x.1.entry, e ∈ c.entries :=
    List.forall_mem_map.mpr h.executed
  have hsum := sum_count nodup_entries hmem
  rw [List.length_map] at hsum
  rw [← hsum]
  refine congrArg List.sum (List.map_congr_left fun e he => ?_)
  rw [List.countP_map]
  exact h.executions_of_mem he

/-- The numbers in the retry list and among the successes are all different. -/
theorem nodup (h : c.Settled l) :
    ((l.pool.retries.map Failed.mutation ++ l.succeeded).map Pending.id).Nodup := by
  have hperm := h.perm.map Prod.fst
  rw [List.map_map] at hperm
  exact hperm.nodup_iff.mpr nodup_ids

theorem eq_of_id (h : c.Settled l) {m : Pending} {e : Entry} (he : e ∈ c.entries)
    (hm : m ∈ l.pool.retries.map Failed.mutation ++ l.succeeded) (hid : m.id = e.1) :
    m = ⟨e.1, e.2, c.tries e.1⟩ := by
  have hentry : m.entry ∈ c.entries := h.perm.mem_iff.mp (List.mem_map_of_mem hm)
  have hsame : m.entry = e := List.inj_on_of_nodup_map nodup_ids hentry he hid
  obtain ⟨id, s, attempts⟩ := m
  have hattempts : attempts = c.tries id := h.attempts hm
  obtain rfl := hsame
  rw [hattempts]
  rfl

theorem failsAll_iff (h : c.Settled l) {e : Entry} (he : e ∈ c.entries) :
    c.failsAll e.1 (c.tries e.1) = true ↔ ∃ f ∈ l.pool.retries, f.mutation.id = e.1 := by
  constructor
  · intro hfails
    obtain ⟨m, hm, rfl⟩ := List.mem_map.mp (h.perm.mem_iff.mpr he)
    rcases List.mem_append.mp hm with hretry | hsuccess
    · obtain ⟨f, hf, rfl⟩ := List.mem_map.mp hretry
      exact ⟨f, hf, rfl⟩
    · have hwon := h.sound.succeeded m hsuccess
      have hattempts := h.attempts hm
      rw [show m.entry.1 = m.id from rfl, ← hattempts,
        not_failsAll hwon.positive (Nat.le_refl _) hwon.success] at hfails
      cases hfails
  · rintro ⟨f, hf, hid⟩
    have hkept := h.sound.retries f hf
    have htries : c.tries e.1 = c.reached c.rounds := by
      rw [← hid]
      exact tries_of_failsAll hkept.failed
    rw [htries, ← hid]
    exact hkept.failed

theorem kept (h : c.Settled l) {e : Entry} (he : e ∈ c.entries)
    (hfails : c.failsAll e.1 (c.tries e.1) = true) :
    ∃ f error, l.pool.retries.filter (·.mutation.id = e.1) = [f] ∧
      f.mutation = ⟨e.1, e.2, c.tries e.1⟩ ∧
      c.recorded e.1 (c.tries e.1) = .error error ∧ f.error = error.message := by
  obtain ⟨f, hf, hid⟩ := (h.failsAll_iff he).mp hfails
  have hmutation : f.mutation = ⟨e.1, e.2, c.tries e.1⟩ :=
    h.eq_of_id he (List.mem_append_left _ (List.mem_map_of_mem hf)) hid
  have hnodup : (l.pool.retries.map fun f => f.mutation.id).Nodup := by
    have hall := h.nodup
    rw [List.map_append, List.map_map] at hall
    exact (List.nodup_append.mp hall).1
  obtain ⟨error, hrecorded, hmessage⟩ := (h.sound.retries f hf).error
  rw [← (h.sound.retries f hf).attempts, hmutation] at hrecorded
  refine ⟨f, error, ?_, hmutation, hrecorded, hmessage⟩
  rw [← hid]
  exact filter_key hnodup hf

theorem done (h : c.Settled l) {e : Entry} (he : e ∈ c.entries)
    (hsuccess : c.failsAll e.1 (c.tries e.1) = false) :
    l.pool.retries.filter (·.mutation.id = e.1) = [] := by
  refine List.filter_eq_nil_iff.mpr fun f hf hid => ?_
  rw [(h.failsAll_iff he).mpr ⟨f, hf, of_decide_eq_true hid⟩] at hsuccess
  cases hsuccess

theorem submitted (h : c.Settled l) : l.pool.counters.submitted = c.statements.length := by
  have hworkers : (l.pool.tasks.take l.pool.config.workers).countP Task.hasSubmitted = 0 := by
    refine List.countP_eq_zero.mpr fun t ht => ?_
    rw [h.workers t ht]
    exact Bool.false_ne_true
  have hrounds : c.roundAnswers.countP Task.hasSubmitted = 0 := by
    refine List.countP_eq_zero.mpr fun t ht => ?_
    rcases eq_of_roundAnswers ht with rfl | ⟨n, rfl⟩ <;> exact Bool.false_ne_true
  rw [h.reached.tallied.submitted, total_toNat, h.tasks, Campaign.answers, List.countP_append,
    List.countP_append, hworkers, hrounds, List.countP_map, ← length_entries]
  simp [Function.comp_def, Task.hasSubmitted]

theorem succeeded (h : c.Settled l) : l.pool.counters.succeeded =
    c.entries.countP fun e => !l.pool.retries.any (·.mutation.entry = e) := by
  have hnodup : ((l.pool.retries.map Failed.mutation ++ l.succeeded).map Pending.entry).Nodup :=
    h.perm.nodup_iff.mpr nodup_entries
  rw [List.map_append] at hnodup
  have hretries : ∀ e ∈ (l.pool.retries.map Failed.mutation).map Pending.entry,
      ¬(!l.pool.retries.any (·.mutation.entry = e)) = true := by
    intro e he
    simpa using he
  have hsuccess : ∀ e ∈ l.succeeded.map Pending.entry,
      (!l.pool.retries.any (·.mutation.entry = e)) = true := by
    intro e he
    have hdifferent : ∀ f ∈ l.pool.retries, f.mutation.entry ≠ e := fun f hf =>
      (List.nodup_append.mp hnodup).2.2 _
        (List.mem_map_of_mem (List.mem_map_of_mem hf)) e he
    simpa using hdifferent
  rw [← h.perm.countP_eq, List.map_append, List.countP_append,
    List.countP_eq_zero.mpr hretries, List.countP_eq_length.mpr hsuccess, List.length_map,
    Nat.zero_add]
  exact h.reached.tallied.succeeded

theorem failed (h : c.Settled l) :
    l.pool.counters.failed = l.executed.countP fun x => !x.2.isOk := by
  have hfailed := h.reached.tallied.failed
  rwa [h.total_eq_zero rfl (fun _ => rfl) (fun _ => rfl) rfl, Nat.add_zero] at hfailed

theorem replayed (h : c.Settled l) :
    l.pool.counters.replayed = (c.entries.map fun e => c.tries e.1 - 1).sum := by
  have hrounds := h.reached.tallied.rounds
  rw [h.total_eq_zero rfl (fun _ => rfl) (fun _ => rfl) rfl,
    h.total_eq_zero rfl (fun _ => rfl) (fun _ => rfl) rfl,
    h.total_eq_zero rfl (fun _ => rfl) (fun _ => rfl) rfl, h.length_executed] at hrounds
  have hlength := h.perm.length_eq
  rw [List.length_map, List.length_append, List.length_map] at hlength
  have hsum : (c.entries.map fun e => c.tries e.1).sum =
      (c.entries.map fun e => c.tries e.1 - 1).sum + c.entries.length := by
    have hpos : ∀ e ∈ c.entries, c.tries e.1 = c.tries e.1 - 1 + 1 := fun e _ =>
      (Nat.sub_add_cancel tries_pos).symm
    rw [List.map_congr_left hpos, List.sum_map_add]
    simp
  omega

end Settled

/-- In whichever order its threads take their turns, a campaign comes to an end, and this is what it
comes to. -/
theorem settles (hworkers : c.settings.workers ≠ 0)
    (hmutations : ∀ s ∈ c.statements, s.isMutation = true) :
    (∃ bound, ∀ events l, c.run? events = some l → events.length ≤ bound) ∧
      ∀ events l, c.run? events = some l → (∀ event, c.after? l event = none) → c.Result l := by
  refine ⟨⟨c.potential c.start, fun events l hrun => ?_⟩, fun events l hrun hstuck => ?_⟩
  · have hlength := length_le_potential (reached_start hworkers) hrun
    omega
  · have hreached : c.Reached l := reached_of_run? hworkers hrun
    obtain ⟨hunderway, hidle⟩ := hreached.settled hmutations hstuck
    have hsettled : c.Settled l := ⟨hreached, hunderway, hidle⟩
    exact {
      calls := by
        have hcalls := hunderway.calls
        rwa [Option.toList_none, List.length_nil, Nat.add_zero, List.take_length] at hcalls
      answers := hsettled.answers
      executions := fun e he => hsettled.executions_of_mem he
      executed := hsettled.executed
      kept := fun e he => hsettled.kept he
      done := fun e he => hsettled.done he
      retries := fun f hf => hsettled.perm.mem_iff.mp <|
        List.mem_map_of_mem (List.mem_append_left _ (List.mem_map_of_mem hf))
      stats := by
        obtain ⟨hqueue, hinFlight⟩ := isIdle_iff.mp hidle
        rw [stats, hsettled.submitted, hsettled.succeeded, hsettled.failed, hsettled.replayed,
          hqueue, hinFlight]
        rfl }

/-- Two mutations, of which one succeeds when it is replayed and the other never does. -/
def secondTry : Campaign where
  settings := ⟨1, 0, 3⟩
  statements := [⟨.set, "a", []⟩, ⟨.delete, "b", []⟩]
  rounds := 1
  outcome := fun id attempt =>
    if id = 2 then .abandoned else if attempt = 1 then .error .cancelled else .ok ()

/-- One of the runs to the end. -/
def secondTryRun : List Event :=
  [.step 0 0, .call, .step 1 0, .step 1 0, .step 0 0, .finish 0 7, .step 0 0, .step 0 0, .step 0 0,
    .step 0 0, .step 1 0, .call, .step 2 0, .step 2 0, .step 0 0, .finish 0 7, .step 0 0, .step 0 0,
    .step 0 0, .step 0 0, .step 2 0, .call, .step 3 0, .call, .step 4 0, .step 4 0, .step 0 0,
    .finish 0 7, .step 0 0, .step 0 0, .step 0 0, .step 4 0, .step 0 0, .finish 0 7, .step 0 0,
    .step 0 0, .step 0 0, .step 0 0, .step 4 0, .call, .step 5 0]

theorem settles_secondTry :
    ∃ l, secondTry.run? secondTryRun = some l ∧ (∀ event, secondTry.after? l event = none) ∧
      l.pool.tasks = [.fetch, .submitted (.ok 1), .submitted (.ok 2), .flushed true,
        .replayed (.ok 2), .flushed true] ∧
      l.pool.retries.map (·.mutation) = [⟨2, ⟨.delete, "b", []⟩, 2⟩] ∧ secondTry.Result l := by
  have hstuck : ∀ event, secondTry.after? ((secondTry.run? secondTryRun).get rfl) event = none := by
    -- the first six threads are all there are: a parked worker and five calls that have returned
    rintro (_ | ⟨i, choice⟩ | ⟨i, time⟩)
    · rfl
    · rcases i with _ | _ | _ | _ | _ | _ | i <;> rfl
    · rcases i with _ | _ | _ | _ | _ | _ | i <;> rfl
  exact ⟨_, rfl, hstuck, rfl, rfl, (settles (by decide) (by decide)).2 secondTryRun _ rfl hstuck⟩

end Campaign

end GraphQuery
