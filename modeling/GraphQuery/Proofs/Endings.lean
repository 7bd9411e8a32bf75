import GraphQuery.Backend.Script
import GraphQuery.Proofs.Compiling
import GraphQuery.Proofs.Exchanges

/-!
# How transactions end

An owner gives commands to a transaction one after the other, then commits
it, discards it or lets go of it (`runAll`, `finish`, `live`).  Tokens may
fire between any two calls, and the backend may refuse any call or abandon
it half way.

`Moves` lists what one call can do: the exchanges that it sends lead the
transaction from one state to another.  `run_moves` and `finish_moves` say
that there is nothing else.  All that follows is read off this list.

* `Sent` tells what was sent for a transaction from the state that it is in,
  and `Stands.runAll` and `Stands.finish` carry it through a whole life.
* `live_endsOnce`: the last exchange of a life is its only ending.
* `agreesOnCommit`: a transaction is committed exactly when a commit was
  granted, alone or along with a mutation, and then nothing comes after it.
-/

namespace GraphQuery

/-! ## Exchanges that end a transaction -/

namespace Event

/-- The call asks for a commit. -/
def asksToCommit : Event → Bool
  | commit _ => true
  | execute _ request => request.commitNow
  | begin _ _ | discard _ => false

/-- The call asks for a commit and, unless that is all, carries a mutation. -/
def isCommitting : Event → Bool
  | commit _ => true
  | execute _ request => request.commitNow && request.statement.isMutation
  | begin _ _ | discard _ => false

def isCommit : Event → Bool
  | commit _ => true
  | _ => false

def isDiscard : Event → Bool
  | discard _ => true
  | _ => false

end Event

namespace Exchange

/-- The backend has committed the transaction. -/
def commits (x : Exchange) : Bool := x.isGranted && x.event.isCommitting

/-- Nothing may be sent for the transaction any more. A discarded transaction is over even if the
backend could not discard it. -/
def ends (x : Exchange) : Bool := x.commits || x.event.isDiscard

end Exchange

namespace Transaction

variable {σ : Type}

/-! ## Lives of transactions -/

/-- A command, and the tokens that have fired when it is given. -/
structure Turn where
  command : Command
  isFired : Token → Bool

/-- How an owner lets go of a transaction. -/
inductive Ending where
  | commit (isFired : Token → Bool)
  | discard
  /-- Without a further word, as when the owner is abandoned along with a command. -/
  | release

/-- The commands of an owner in turn. An owner who is abandoned along with one gives no more of
them, but one who holds out may. -/
def runAll (b : Backend σ) : List Turn → Transaction → Connection σ → Transaction × Connection σ
  | [], t, c => (t, c)
  | turn :: rest, t, c =>
    let (_, t, c) := t.run b turn.isFired turn.command c
    runAll b rest t c

/-- The end that an owner makes. -/
def finish (b : Backend σ) (ending : Ending) (t : Transaction) (c : Connection σ) :
    Transaction × Connection σ :=
  match ending with
  | .commit isFired => (t.commit b isFired c).2
  | .discard => (t.discard b c).2
  | .release => t.release b c

/-- A transaction from the first command to its end. -/
def live (b : Backend σ) (turns : List Turn) (ending : Ending) (t : Transaction)
    (c : Connection σ) : Transaction × Connection σ :=
  let (t, c) := t.runAll b turns c
  t.finish b ending c

/-! ## What one call can do -/

/-- The exchanges lead the transaction with the number `n` from one state to another. -/
inductive Moves (n : Nat) : TransactionState → List Exchange → TransactionState → Prop where
  | still (state) : Moves n state [] state
  | executed (request : Request) (granted : Bool) :
      Moves n .active [⟨.execute n request, granted⟩]
        (if (⟨.execute n request, granted⟩ : Exchange).commits then .committed else .active)
  | committed : Moves n .active [⟨.commit n, true⟩] .committed
  | commitFailed (granted : Bool) :
      Moves n .active [⟨.commit n, false⟩, ⟨.discard n, granted⟩] .discarded
  | discarded (granted : Bool) : Moves n .active [⟨.discard n, granted⟩] .discarded

/-- One call takes a transaction and its connection to `t'` and `c'`. -/
def Follows (b : Backend σ) (t : Transaction) (c : Connection σ) (t' : Transaction)
    (c' : Connection σ) : Prop :=
  t'.number = t.number ∧ ∃ xs, Sends b c xs c' ∧ Moves t.number t.state xs t'.state

variable {b : Backend σ} {t : Transaction} {c : Connection σ}

theorem follows_refl : Follows b t c t c :=
  ⟨rfl, [], .refl, .still t.state⟩

theorem release_of_ended (h : t.state ≠ .active) : t.release b c = (t, c) := by
  simp [release, h]

theorem release_of_active (h : t.state = .active) :
    t.release b c = ({ t with state := .discarded }, (c.discard b t.number).2) := by
  simp [release, h]

theorem release_moves : Follows b t c (t.release b c).1 (t.release b c).2 := by
  by_cases h : t.state = .active
  · rw [release_of_active h]
    exact ⟨rfl, _, sends_discard b c t.number, h ▸ .discarded _⟩
  · rw [release_of_ended h]
    exact follows_refl

/-- A statement that reaches the backend: what was asked and granted decides about the state. -/
theorem execute_of_sent {isFired : Token → Bool} {s : Statement} {commitNow : Bool}
    (hactive : t.state = .active) (hmode : ¬(s.isMutation ∧ t.mode = .readOnly))
    (hfired : isFired t.token = false) :
    let request : Request := ⟨s, commitNow, false⟩
    let sent := c.execute b t.number request
    t.execute b isFired s commitNow c =
      (sent.1, { t with state :=
        if (⟨.execute t.number request, sent.1.isOk⟩ : Exchange).commits then .committed
        else .active }, sent.2) := by
  intro request sent
  have hsame : { t with state := .active } = t := by rw [← hactive]
  rcases hsent : c.execute b t.number request with ⟨response | e | -, c'⟩
  · cases hcommits : commitNow && s.isMutation <;>
      simp [execute, hactive, hmode, hfired, sent, hsent, request, Exchange.commits,
        Event.isCommitting, Outcome.isOk, hcommits, hsame]
  · simp [execute, hactive, hmode, hfired, sent, hsent, request, Exchange.commits, Outcome.isOk,
      hsame]
  · simp [execute, hactive, hmode, hfired, sent, hsent, request, Exchange.commits, Outcome.isOk,
      hsame]

theorem execute_moves (isFired : Token → Bool) (s : Statement) (commitNow : Bool) :
    Follows b t c (t.execute b isFired s commitNow c).2.1
      (t.execute b isFired s commitNow c).2.2 := by
  by_cases hactive : t.state = .active
  swap
  · simpa [execute, hactive] using follows_refl
  by_cases hmode : s.isMutation ∧ t.mode = .readOnly
  · simpa [execute, hactive, hmode] using follows_refl
  cases hfired : isFired t.token with
  | true => simpa [execute, hactive, hmode, hfired] using release_moves
  | false =>
    rw [execute_of_sent hactive hmode hfired, Follows, hactive]
    exact ⟨rfl, _, sends_execute b c t.number _, .executed _ _⟩

theorem run_moves (isFired : Token → Bool) (command : Command) :
    Follows b t c (t.run b isFired command c).2.1 (t.run b isFired command c).2.2 := by
  unfold run
  cases command.request with
  | error e => exact follows_refl
  | ok r => exact execute_moves isFired r.1 r.2

theorem commit_moves (isFired : Token → Bool) :
    Follows b t c (t.commit b isFired c).2.1 (t.commit b isFired c).2.2 := by
  unfold commit
  split_ifs with hended hfired
  · exact follows_refl
  · exact release_moves
  · have hactive : t.state = .active := not_not.mp hended
    have hsends := sends_commit b c t.number
    revert hsends
    cases c.commit b t.number with
    | mk r c' =>
      intro hsends
      cases r with
      | ok u => exact ⟨rfl, _, hsends, hactive ▸ .committed⟩
      | error e | abandoned =>
        simp only [release_of_active hactive]
        rw [Follows, hactive]
        exact ⟨rfl, _, hsends.trans (sends_discard b c' t.number), .commitFailed _⟩

theorem discard_moves : Follows b t c (t.discard b c).2.1 (t.discard b c).2.2 := by
  unfold discard
  split_ifs with hended
  · exact follows_refl
  · exact ⟨rfl, _, sends_discard b c t.number, not_not.mp hended ▸ .discarded _⟩

theorem finish_moves (ending : Ending) :
    Follows b t c (t.finish b ending c).1 (t.finish b ending c).2 := by
  cases ending with
  | commit isFired => exact commit_moves isFired
  | discard => exact discard_moves
  | release => exact release_moves

theorem release_ended : (t.release b c).1.state ≠ .active := by
  by_cases h : t.state = .active
  · rw [release_of_active h]
    exact TransactionState.noConfusion
  · rwa [release_of_ended h]

theorem finish_ended (ending : Ending) : (t.finish b ending c).1.state ≠ .active := by
  cases ending with
  | release => exact release_ended
  | discard =>
    show (t.discard b c).2.1.state ≠ .active
    unfold discard
    split_ifs with h
    · exact h
    · simp
  | commit isFired =>
    show (t.commit b isFired c).2.1.state ≠ .active
    unfold commit
    split_ifs with h
    · exact h
    · exact release_ended
    · rcases c.commit b t.number with ⟨_ | _ | _, c'⟩
      · simp
      · exact release_ended
      · exact release_ended

/-! ## What was sent -/

/-- Statements of the transaction that have left it open. -/
def LeftOpen (n : Nat) (xs : List Exchange) : Prop :=
  ∀ x ∈ xs, (∃ request, x.event = .execute n request) ∧ x.commits = false

/-- What was sent for the transaction with the number `n`, which is in the given state. -/
def Sent (n : Nat) (xs : List Exchange) : TransactionState → Prop
  | .active => LeftOpen n xs
  | .committed => ∃ before last, xs = before ++ [last] ∧ LeftOpen n before ∧
      last.event.number = n ∧ last.commits = true
  | .discarded => ∃ before granted, LeftOpen n before ∧
      (xs = before ++ [⟨.discard n, granted⟩] ∨
        xs = before ++ [⟨.commit n, false⟩] ++ [⟨.discard n, granted⟩])

theorem Sent.moves {n : Nat} {xs ys : List Exchange} {state state' : TransactionState}
    (h : Sent n xs state) (hmoves : Moves n state ys state') : Sent n (xs ++ ys) state' := by
  cases hmoves with
  | still state => rwa [List.append_nil]
  | executed request granted =>
    split_ifs with hcommits
    · exact ⟨xs, _, rfl, h, rfl, hcommits⟩
    · intro x hx
      rcases List.mem_append.mp hx with hx | hx
      · exact h x hx
      · obtain rfl := List.mem_singleton.mp hx
        exact ⟨⟨request, rfl⟩, by simpa using hcommits⟩
  | committed => exact ⟨xs, _, rfl, h, rfl, rfl⟩
  | commitFailed granted => exact ⟨xs, granted, h, Or.inr (by simp)⟩
  | discarded granted => exact ⟨xs, granted, h, Or.inl rfl⟩

/-- Since `start` the exchanges have brought the transaction to its state. -/
def Stands (b : Backend σ) (start : Connection σ) (n : Nat) (t : Transaction)
    (c : Connection σ) : Prop :=
  t.number = n ∧ ∃ xs, Sends b start xs c ∧ Sent n xs t.state

theorem Stands.follows {start c' : Connection σ} {n : Nat} {t' : Transaction}
    (h : Stands b start n t c) (hstep : Follows b t c t' c') : Stands b start n t' c' := by
  obtain ⟨rfl, xs, hsends, hsent⟩ := h
  obtain ⟨hnumber, ys, hsends', hmoves⟩ := hstep
  exact ⟨hnumber, xs ++ ys, hsends.trans hsends', hsent.moves hmoves⟩

theorem stands_of_active (h : t.state = .active) : Stands b c t.number t c :=
  ⟨rfl, [], .refl, by
    rw [h]
    exact fun x hx => absurd hx List.not_mem_nil⟩

theorem Stands.runAll {start : Connection σ} {n : Nat} (turns : List Turn)
    (h : Stands b start n t c) :
    Stands b start n (t.runAll b turns c).1 (t.runAll b turns c).2 := by
  induction turns generalizing t c with
  | nil => exact h
  | cons turn turns ih => exact ih (h.follows (run_moves turn.isFired turn.command))

theorem Stands.finish {start : Connection σ} {n : Nat} (ending : Ending)
    (h : Stands b start n t c) :
    Stands b start n (t.finish b ending c).1 (t.finish b ending c).2 :=
  h.follows (finish_moves ending)

/-! ## The only ending -/

/-- The exchanges of a transaction come to an end once. -/
structure EndsOnce (n : Nat) (xs : List Exchange) : Prop where
  /-- The last exchange is an ending and none before it is. Either it commits the transaction, and
  no discard was sent, or it is the only discard. -/
  ending : ∃ before last, xs = before ++ [last] ∧ (∀ x ∈ before, x.ends = false) ∧
    ((last = ⟨.commit n, true⟩ ∨ ∃ request, last = ⟨.execute n request, true⟩ ∧
        request.commitNow = true ∧ request.statement.isMutation = true) ∧
      xs.countP (·.event.isDiscard) = 0 ∨
    (∃ granted, last = ⟨.discard n, granted⟩) ∧ xs.countP (·.event.isDiscard) = 1)
  commits_le_one : xs.countP (·.event.isCommit) ≤ 1
  own : ∀ x ∈ xs, x.event.number = n

section
variable {n : Nat} {xs : List Exchange}

theorem LeftOpen.ends (h : LeftOpen n xs) {x : Exchange} (hx : x ∈ xs) : x.ends = false := by
  obtain ⟨⟨request, hevent⟩, hcommits⟩ := h x hx
  simp [Exchange.ends, hcommits, hevent, Event.isDiscard]

theorem LeftOpen.own (h : LeftOpen n xs) {x : Exchange} (hx : x ∈ xs) : x.event.number = n := by
  obtain ⟨⟨request, hevent⟩, -⟩ := h x hx
  rw [hevent]
  rfl

theorem LeftOpen.countP_discard (h : LeftOpen n xs) : xs.countP (·.event.isDiscard) = 0 := by
  rw [List.countP_eq_zero]
  intro x hx
  obtain ⟨⟨request, hevent⟩, -⟩ := h x hx
  simp [hevent, Event.isDiscard]

theorem LeftOpen.countP_commit (h : LeftOpen n xs) : xs.countP (·.event.isCommit) = 0 := by
  rw [List.countP_eq_zero]
  intro x hx
  obtain ⟨⟨request, hevent⟩, -⟩ := h x hx
  simp [hevent, Event.isCommit]

theorem Exchange.commits_cases {x : Exchange} (h : x.commits = true) :
    x = ⟨.commit x.event.number, true⟩ ∨
      ∃ request, x = ⟨.execute x.event.number request, true⟩ ∧ request.commitNow = true ∧
        request.statement.isMutation = true := by
  obtain ⟨event, granted⟩ := x
  simp only [Exchange.commits, Bool.and_eq_true] at h
  obtain ⟨rfl, hevent⟩ := h
  cases event with
  | commit number => exact Or.inl rfl
  | execute number request =>
    simp only [Event.isCommitting, Bool.and_eq_true] at hevent
    exact Or.inr ⟨request, rfl, hevent⟩
  | begin _ _ | discard _ => cases hevent

theorem Sent.endsOnce {state : TransactionState} (h : Sent n xs state)
    (hstate : state ≠ .active) : EndsOnce n xs := by
  cases state with
  | active => exact absurd rfl hstate
  | committed =>
    obtain ⟨before, last, rfl, hbefore, rfl, hlast⟩ := h
    have hcases := Exchange.commits_cases hlast
    refine ⟨⟨before, last, rfl, fun x => hbefore.ends, Or.inl ⟨hcases, ?_⟩⟩, ?_, ?_⟩
    · rw [List.countP_append, hbefore.countP_discard]
      rcases hcases with h | ⟨request, h, -⟩ <;> rw [h] <;> rfl
    · rw [List.countP_append, hbefore.countP_commit, Nat.zero_add]
      exact List.countP_le_length
    · intro x hx
      rcases List.mem_append.mp hx with hx | hx
      · exact hbefore.own hx
      · rw [List.mem_singleton.mp hx]
  | discarded =>
    obtain ⟨before, granted, hbefore, rfl | rfl⟩ := h
    · refine ⟨⟨before, _, rfl, fun x => hbefore.ends, Or.inr ⟨⟨granted, rfl⟩, ?_⟩⟩, ?_, ?_⟩
      · rw [List.countP_append, hbefore.countP_discard]
        rfl
      · rw [List.countP_append, hbefore.countP_commit]
        exact Nat.zero_le 1
      · intro x hx
        rcases List.mem_append.mp hx with hx | hx
        · exact hbefore.own hx
        · rw [List.mem_singleton.mp hx]
          rfl
    · -- The commit that failed is no ending.
      refine ⟨⟨before ++ [⟨.commit n, false⟩], _, rfl, ?_, Or.inr ⟨⟨granted, rfl⟩, ?_⟩⟩, ?_, ?_⟩
      · intro x hx
        rcases List.mem_append.mp hx with hx | hx
        · exact hbefore.ends hx
        · rw [List.mem_singleton.mp hx]
          rfl
      · rw [List.countP_append, List.countP_append, hbefore.countP_discard]
        rfl
      · rw [List.countP_append, List.countP_append, hbefore.countP_commit]
        exact Nat.le_refl 1
      · intro x hx
        simp only [List.mem_append, List.mem_singleton] at hx
        rcases hx with (hx | rfl) | rfl
        · exact hbefore.own hx
        · rfl
        · rfl

end

/-- A transaction comes to an end at the backend exactly once, whatever its owner and the backend
do. -/
theorem live_endsOnce (b : Backend σ) (turns : List Turn) (ending : Ending) (number : Nat)
    (mode : AccessMode) (token : Token) (c : Connection σ) :
    EndsOnce number
      ((live b turns ending ⟨number, mode, .active, token⟩ c).2.exchangesSince b c) := by
  have hstands : Stands b c number _ _ :=
    ((stands_of_active (t := ⟨number, mode, .active, token⟩) rfl).runAll turns).finish ending
  obtain ⟨-, xs, hsends, hsent⟩ := hstands
  have hxs := hsends.exchangesSince_eq
  rw [← hxs] at hsent
  exact hsent.endsOnce (finish_ended ending)

/-! ## Agreement about commits -/

/-- The refusal of a command to a transaction that is over. -/
def Command.refusal (command : Command) : Error :=
  match command.request with
  | .error e => e
  | .ok _ => notActive

theorem run_of_ended (h : t.state ≠ .active) (isFired : Token → Bool) (command : Command) :
    t.run b isFired command c = (.error command.refusal, t, c) := by
  unfold run Command.refusal
  cases command.request with
  | error e => rfl
  | ok r => simp [execute, h]

theorem runAll_of_ended (h : t.state ≠ .active) (turns : List Turn) :
    t.runAll b turns c = (t, c) := by
  induction turns with
  | nil => rfl
  | cons turn turns ih =>
    rw [runAll, run_of_ended h]
    exact ih

theorem finish_of_ended (h : t.state ≠ .active) (ending : Ending) :
    t.finish b ending c = (t, c) := by
  cases ending with
  | commit isFired => simp [finish, commit, h]
  | discard => simp [finish, discard, h]
  | release => exact release_of_ended h

/-- The transaction and its backend agree on whether it is committed. -/
structure AgreesOnCommit (b : Backend σ) (start : Connection σ) (t : Transaction)
    (c : Connection σ) : Prop where
  committed_iff : t.state = .committed ↔ ∃ x ∈ c.exchangesSince b start, x.commits = true
  /-- Nothing is sent after a commit that was granted. -/
  last : ∀ before x after, c.exchangesSince b start = before ++ x :: after →
    x.commits = true → after = []
  /-- A committed transaction stays so, accepts no command and sends nothing. -/
  stays : t.state = .committed →
    (∀ isFired command, t.run b isFired command c = (.error command.refusal, t, c)) ∧
      (∀ turns, t.runAll b turns c = (t, c)) ∧ ∀ ending, t.finish b ending c = (t, c)

/-- No exchange but the last can commit the transaction. -/
theorem Sent.commits_dropLast {n : Nat} {xs : List Exchange} {state : TransactionState}
    (h : Sent n xs state) {x : Exchange} (hx : x ∈ xs.dropLast) : x.commits = false := by
  cases state with
  | active => exact (h x (List.mem_of_mem_dropLast hx)).2
  | committed =>
    obtain ⟨before, last, rfl, hbefore, -⟩ := h
    rw [List.dropLast_concat] at hx
    exact (hbefore x hx).2
  | discarded =>
    obtain ⟨before, granted, hbefore, rfl | rfl⟩ := h
    · rw [List.dropLast_concat] at hx
      exact (hbefore x hx).2
    · rw [List.dropLast_concat] at hx
      rcases List.mem_append.mp hx with hx | hx
      · exact (hbefore x hx).2
      · rw [List.mem_singleton.mp hx]
        rfl

theorem Sent.committed_iff {n : Nat} {xs : List Exchange} {state : TransactionState}
    (h : Sent n xs state) : state = .committed ↔ ∃ x ∈ xs, x.commits = true := by
  constructor
  · rintro rfl
    obtain ⟨before, last, rfl, -, -, hlast⟩ := h
    exact ⟨last, by simp, hlast⟩
  · rintro ⟨x, hx, hcommits⟩
    cases state with
    | committed => rfl
    | active => exact absurd ((h x hx).2.symm.trans hcommits) Bool.false_ne_true
    | discarded =>
      -- The last exchange is a discard, and those before it do not commit.
      have hlast : x ∈ xs.dropLast := by
        obtain ⟨before, granted, -, rfl | rfl⟩ := h
        all_goals
          rw [List.dropLast_concat]
          refine (List.mem_append.mp hx).resolve_right fun hx => ?_
          rw [List.mem_singleton.mp hx] at hcommits
          simp [Exchange.commits, Event.isCommitting] at hcommits
      exact absurd ((h.commits_dropLast hlast).symm.trans hcommits) Bool.false_ne_true

theorem Stands.agrees {start : Connection σ} {n : Nat} (h : Stands b start n t c) :
    AgreesOnCommit b start t c := by
  obtain ⟨-, xs, hsends, hsent⟩ := h
  refine ⟨?_, ?_, ?_⟩
  · rw [hsends.exchangesSince_eq]
    exact hsent.committed_iff
  · rw [hsends.exchangesSince_eq]
    intro before x after hxs hcommits
    by_contra hafter
    have hx : x ∈ xs.dropLast := by
      rw [hxs, List.dropLast_append_of_ne_nil (List.cons_ne_nil x after),
        List.dropLast_cons_of_ne_nil hafter]
      simp
    exact absurd ((hsent.commits_dropLast hx).symm.trans hcommits) Bool.false_ne_true
  · intro hcommitted
    have hended : t.state ≠ .active := by rw [hcommitted]; exact TransactionState.noConfusion
    exact ⟨run_of_ended hended, runAll_of_ended hended, finish_of_ended hended⟩

/-- After every command and after the end, a transaction is committed exactly when the backend
granted a commit, alone or along with a mutation, and then it is over for both. -/
theorem agreesOnCommit (b : Backend σ) (turns : List Turn) (number : Nat) (mode : AccessMode)
    (token : Token) (c : Connection σ) :
    let t : Transaction := ⟨number, mode, .active, token⟩
    AgreesOnCommit b c (t.runAll b turns c).1 (t.runAll b turns c).2 ∧
      ∀ ending, AgreesOnCommit b c (t.live b turns ending c).1 (t.live b turns ending c).2 := by
  intro t
  have hstands : Stands b c number _ _ := (stands_of_active (t := t) rfl).runAll turns
  exact ⟨hstands.agrees, fun ending => (hstands.finish ending).agrees⟩

/-- Asking for a commit along with a query and being granted it commits nothing: the transaction
stays active, and letting go of it sends a discard. -/
theorem active_after_query_with_commit :
    let c : Connection Script := .start .start
    let t : Transaction := ⟨1, .readWrite, .active, ⟨0, none⟩⟩
    let turns : List Turn := [⟨.mutateAndCommit Query.adults, fun _ => false⟩]
    (∃ x ∈ (t.runAll Script.backend turns c).2.exchangesSince Script.backend c,
        x.isGranted = true ∧ x.event.asksToCommit = true) ∧
      (t.runAll Script.backend turns c).1.state = .active ∧
      (t.live Script.backend turns .release c).2.log.getLast? = some (.discard 1) := by
  intro c t turns
  obtain ⟨s, hs, hquery⟩ : ∃ s, Query.adults.compile = .ok s ∧ s.isMutation = false :=
    ⟨_, Query.compile_adults, rfl⟩
  have hrequest : Command.request (.mutateAndCommit Query.adults) = .ok (s, true) := by
    rw [Command.request, hs]
    rfl
  have hrun : t.runAll Script.backend turns c =
      (t, { c with log := [.execute 1 ⟨s, true, false⟩] }) := by
    simp only [turns, runAll, run, hrequest]
    rw [execute_of_sent rfl (by simp [hquery]) rfl]
    simp only [Exchange.commits, Event.isCommitting, hquery, Bool.and_false]
    rfl
  simp only [live, hrun]
  exact ⟨⟨_, List.mem_singleton_self _, rfl, rfl⟩, rfl, rfl⟩

end Transaction

end GraphQuery
