import GraphQuery.Proofs.Endings

/-!
# What a transaction keeps from its backend

A transaction looks at three things before it sends anything: whether it is
still active, whether it may change data, and whether its token has fired.
`guarded` says what these looks achieve at every moment of every life,
whatever the backend answers and whenever the token fires.

* `run_cases` lists what becomes of a command.  It is refused and changes
  nothing (`Refuses`), or its statement may be sent.  In the second case
  the token decides: the statement is sent, or the transaction is discarded.
* `Keeps` is what a call keeps: the mode, and that a transaction which may
  only read sends no mutation.  It is carried through a whole life.
* `live_of_fired`: once the token of an active transaction has fired, the
  only thing that is ever sent for it is one discard.
-/

namespace GraphQuery

/-- The call carries a mutation. -/
def Event.isMutation : Event → Bool
  | execute _ request => request.statement.isMutation
  | begin _ _ | commit _ | discard _ => false

/-- The calls on a connection since an earlier moment. -/
def Connection.sentSince {σ : Type} (c earlier : Connection σ) : List Event :=
  c.log.drop earlier.log.length

namespace Transaction

variable {σ : Type} {b : Backend σ} {isFired : Token → Bool} {command : Command}
  {t t' t'' : Transaction} {c c' c'' start : Connection σ} {turns : List Turn} {ending : Ending}

theorem sentSince_of_log {es : List Event} (h : c'.log = c.log ++ es) : c'.sentSince c = es := by
  rw [Connection.sentSince, h, List.drop_left]

/-! ## Commands that are refused -/

namespace Command

/-- The statement of a command, as far as it has one. -/
def compiled : Command → Except Error Statement
  | query q | mutate q | mutateAndCommit q => q.compile
  | queryBatch b => b.compile
  | execute s _ => .ok s

theorem request_query {q : Query} {s : Statement} (h : q.compile = .ok s) :
    (query q).request = if s.isMutation then .error mutationAsQuery else .ok (s, false) := by
  rw [request, h]
  exact Verdict.ofBool_bind.trans (by cases s.isMutation <;> rfl)

/-- A command has no statement, or it is a mutation in place of a query, or it has a request. -/
theorem request_cases (command : Command) :
    (∃ e, command.compiled = .error e ∧ command.request = .error e) ∨
      (∃ q s, command = .query q ∧ q.compile = .ok s ∧ s.isMutation = true ∧
        command.request = .error mutationAsQuery) ∨
      ∃ s commitNow, command.compiled = .ok s ∧ command.request = .ok (s, commitNow) := by
  -- a command without a check of its own is settled by its statement
  have hplain : ∀ commitNow, (command.request = command.compiled.map fun s => (s, commitNow)) →
      (∃ e, command.compiled = .error e ∧ command.request = .error e) ∨
        ∃ s commitNow, command.compiled = .ok s ∧ command.request = .ok (s, commitNow) := by
    intro commitNow hrequest
    rw [hrequest]
    cases command.compiled with
    | error e => exact Or.inl ⟨e, rfl, rfl⟩
    | ok s => exact Or.inr ⟨s, commitNow, rfl, rfl⟩
  cases command with
  | query q =>
    cases hq : q.compile with
    | error e => exact Or.inl ⟨e, hq, by simp [request, hq, Bind.bind, Except.bind]⟩
    | ok s =>
      have hrequest := request_query hq
      cases hs : s.isMutation with
      | false => exact Or.inr (Or.inr ⟨s, false, hq, by rw [hrequest, hs]; rfl⟩)
      | true => exact Or.inr (Or.inl ⟨q, s, rfl, hq, hs, by rw [hrequest, hs]; rfl⟩)
  | queryBatch b => exact (hplain false rfl).imp_right Or.inr
  | mutate q => exact (hplain false rfl).imp_right Or.inr
  | mutateAndCommit q => exact (hplain true rfl).imp_right Or.inr
  | execute s commitNow => exact Or.inr (Or.inr ⟨s, commitNow, rfl, rfl⟩)

end Command

/-- A transaction refuses a command without asking its token, let alone its backend. -/
inductive Refuses (t : Transaction) : Command → Error → Prop where
  | uncompiled {command : Command} {e : Error} (h : command.compiled = .error e) :
      Refuses t command e
  | mistaken {q : Query} {s : Statement} (h : q.compile = .ok s) (hs : s.isMutation = true) :
      Refuses t (.query q) mutationAsQuery
  | ended {command : Command} {r : Statement × Bool} (h : command.request = .ok r)
      (hended : t.state ≠ .active) : Refuses t command notActive
  | readOnly {command : Command} {r : Statement × Bool} (h : command.request = .ok r)
      (hactive : t.state = .active) (hs : r.1.isMutation = true) (hmode : t.mode = .readOnly) :
      Refuses t command readOnlyMutation

theorem Refuses.run_eq {e : Error} (h : t.Refuses command e) :
    t.run b isFired command c = (.error e, t, c) := by
  cases h with
  | uncompiled h =>
    rcases command.request_cases with ⟨e', he, hrequest⟩ | ⟨q, s, rfl, hq, -⟩ | ⟨s, _, hs, -⟩
    · obtain rfl := Except.error.inj (h.symm.trans he)
      simp [run, hrequest]
    · cases h.symm.trans hq
    · cases h.symm.trans hs
  | mistaken h hs => simp [run, Command.request_query h, hs]
  | ended h hended => simp [run, h, execute, hended]
  | readOnly h hactive hs hmode => simp [run, h, execute, hactive, hs, hmode]

/-- A command that is not refused has a statement, and the transaction may send it. -/
theorem exists_request (h : ∀ e, ¬t.Refuses command e) :
    ∃ s commitNow, command.request = .ok (s, commitNow) ∧ t.state = .active ∧
      ¬(s.isMutation ∧ t.mode = .readOnly) := by
  rcases command.request_cases with
    ⟨e, he, -⟩ | ⟨q, s, rfl, hq, hs, -⟩ | ⟨s, commitNow, -, hrequest⟩
  · exact absurd (.uncompiled he) (h e)
  · exact absurd (.mistaken hq hs) (h mutationAsQuery)
  · have hactive : t.state = .active := by
      by_contra hended
      exact h notActive (.ended hrequest hended)
    exact ⟨s, commitNow, hrequest, hactive, fun ⟨hs, hmode⟩ =>
      h readOnlyMutation (.readOnly hrequest hactive hs hmode)⟩

/-! ## What becomes of a command -/

/-- The statement and the answer to it, when a transaction that is not called off sends it. -/
structure Executes (b : Backend σ) (t : Transaction) (c : Connection σ) (command : Command)
    (after : Outcome Response × Transaction × Connection σ) : Prop where
  sent : ∃ s commitNow, command.request = .ok (s, commitNow) ∧
    ¬(s.isMutation ∧ t.mode = .readOnly) ∧
    (after.1, after.2.2) = c.execute b t.number ⟨s, commitNow, false⟩
  same : after.2.1 = { t with state := after.2.1.state }

/-- A command is refused, or it finds the token fired, or its statement is sent. -/
theorem run_cases (b : Backend σ) (isFired : Token → Bool) (command : Command) (t : Transaction)
    (c : Connection σ) :
    (∃ e, t.Refuses command e ∧ t.run b isFired command c = (.error e, t, c)) ∨
      t.state = .active ∧
        (isFired t.token = true ∧ t.run b isFired command c =
            (.error .cancelled, { t with state := .discarded }, (c.discard b t.number).2) ∨
          isFired t.token = false ∧ Executes b t c command (t.run b isFired command c)) := by
  by_cases hrefuses : ∃ e, t.Refuses command e
  · obtain ⟨e, he⟩ := hrefuses
    exact Or.inl ⟨e, he, he.run_eq⟩
  obtain ⟨s, commitNow, hrequest, hactive, hmode⟩ := exists_request (not_exists.mp hrefuses)
  have hrun : t.run b isFired command c = t.execute b isFired s commitNow c := by
    simp [run, hrequest]
  refine Or.inr ⟨hactive, ?_⟩
  rw [hrun]
  cases hfired : isFired t.token with
  | true =>
    refine Or.inl ⟨rfl, ?_⟩
    simp [execute, hactive, hmode, hfired, release_of_active hactive]
  | false =>
    refine Or.inr ⟨rfl, ?_⟩
    rw [execute_of_sent hactive hmode hfired]
    exact ⟨⟨s, commitNow, hrequest, hmode, rfl⟩, rfl⟩

/-! ## What a call keeps -/

/-- Between two moments a transaction has stayed the same but for its state, and if it may only read, no
mutation was sent for it. -/
structure Keeps (t : Transaction) (c : Connection σ) (t' : Transaction) (c' : Connection σ) :
    Prop where
  same : t' = { t with state := t'.state }
  log : ∃ es, c'.log = c.log ++ es ∧ (t.mode = .readOnly → ∀ e ∈ es, e.isMutation = false)

theorem keeps_refl : Keeps t c t c :=
  ⟨rfl, [], (List.append_nil _).symm, fun _ => List.forall_mem_nil _⟩

theorem Keeps.trans (h : Keeps t c t' c') (h' : Keeps t' c' t'' c'') : Keeps t c t'' c'' where
  same := by rw [h'.same, h.same]
  log := by
    obtain ⟨es, hes, hreads⟩ := h.log
    obtain ⟨es', hes', hreads'⟩ := h'.log
    refine ⟨es ++ es', by rw [hes', hes, List.append_assoc], fun hmode e he => ?_⟩
    have hmode' : t'.mode = .readOnly := by rw [h.same]; exact hmode
    exact (List.mem_append.mp he).elim (hreads hmode e) (hreads' hmode' e)

theorem release_keeps : Keeps t c (t.release b c).1 (t.release b c).2 := by
  by_cases h : t.state = .active
  · rw [release_of_active h]
    exact ⟨rfl, [.discard t.number], rfl, fun _ => by simp [Event.isMutation]⟩
  · rw [release_of_ended h]
    exact keeps_refl

theorem run_keeps : Keeps t c (t.run b isFired command c).2.1 (t.run b isFired command c).2.2 := by
  rcases run_cases b isFired command t c with
    ⟨e, -, hrun⟩ | ⟨hactive, ⟨-, hrun⟩ | ⟨-, hexecutes⟩⟩
  · rw [hrun]
    exact keeps_refl
  · rw [hrun]
    exact release_of_active (b := b) (c := c) hactive ▸ release_keeps
  · obtain ⟨s, commitNow, -, hmode, hsent⟩ := hexecutes.sent
    have hlog := congrArg (fun after => after.2.log) hsent
    refine ⟨hexecutes.same, _, hlog, fun hreadOnly e he => ?_⟩
    rw [List.mem_singleton.mp he]
    exact Bool.eq_false_iff.mpr fun hs => hmode ⟨hs, hreadOnly⟩

theorem Keeps.runAll (turns : List Turn) (h : Keeps t c t' c') :
    Keeps t c (t'.runAll b turns c').1 (t'.runAll b turns c').2 := by
  induction turns generalizing t' c' with
  | nil => exact h
  | cons turn turns ih => exact ih (h.trans run_keeps)

theorem commit_keeps : Keeps t c (t.commit b isFired c).2.1 (t.commit b isFired c).2.2 := by
  unfold commit
  split_ifs with hended hfired
  · exact keeps_refl
  · exact release_keeps
  · have hsent : Keeps t c t (c.commit b t.number).2 :=
      ⟨rfl, [.commit t.number], rfl, fun _ => by simp [Event.isMutation]⟩
    revert hsent
    rcases c.commit b t.number with ⟨u | e | -, c'⟩
    · exact fun hsent => ⟨rfl, hsent.log⟩
    · exact fun hsent => hsent.trans release_keeps
    · exact fun hsent => hsent.trans release_keeps

theorem finish_keeps (ending : Ending) :
    Keeps t c (t.finish b ending c).1 (t.finish b ending c).2 := by
  cases ending with
  | commit isFired => exact commit_keeps
  | release => exact release_keeps
  | discard =>
    show Keeps t c (t.discard b c).2.1 (t.discard b c).2.2
    unfold discard
    split_ifs
    · exact keeps_refl
    · exact ⟨rfl, [.discard t.number], rfl, fun _ => by simp [Event.isMutation]⟩

/-! ## Transactions that are called off -/

/-- An end that looks at the token finds it fired. -/
def Ending.findsFired (token : Token) : Ending → Bool
  | commit isFired => isFired token
  | discard | release => true

theorem commit_of_fired (hactive : t.state = .active) (hfired : isFired t.token = true) :
    t.commit b isFired c =
      (.error .cancelled, { t with state := .discarded }, (c.discard b t.number).2) := by
  simp [commit, hactive, hfired, release_of_active hactive]

theorem finish_of_fired (hactive : t.state = .active) (hfired : ending.findsFired t.token = true) :
    t.finish b ending c = ({ t with state := .discarded }, (c.discard b t.number).2) := by
  cases ending with
  | commit isFired => rw [finish, commit_of_fired hactive hfired]
  | discard => simp [finish, discard, hactive]
  | release => exact release_of_active hactive

/-- As long as the token has fired, commands leave a transaction as it is or discard it. -/
theorem runAll_of_fired (hfired : ∀ turn ∈ turns, turn.isFired t.token = true) :
    t.runAll b turns c = (t, c) ∨
      t.runAll b turns c = ({ t with state := .discarded }, (c.discard b t.number).2) := by
  induction turns with
  | nil => exact Or.inl rfl
  | cons turn turns ih =>
    obtain ⟨hturn, hrest⟩ := List.forall_mem_cons.mp hfired
    rw [runAll]
    rcases run_cases b turn.isFired turn.command t c with
      ⟨e, -, hrun⟩ | ⟨-, ⟨-, hrun⟩ | ⟨hnot, -⟩⟩
    · rw [hrun]
      exact ih hrest
    · rw [hrun]
      exact Or.inr (runAll_of_ended TransactionState.noConfusion turns)
    · rw [hturn] at hnot
      cases hnot

/-- An active transaction whose token has fired is discarded, and nothing else is sent for it. -/
theorem live_of_fired (hactive : t.state = .active)
    (hturns : ∀ turn ∈ turns, turn.isFired t.token = true)
    (hending : ending.findsFired t.token = true) :
    t.live b turns ending c = ({ t with state := .discarded }, (c.discard b t.number).2) := by
  rw [live]
  rcases runAll_of_fired (b := b) (c := c) hturns with hrun | hrun
  · rw [hrun]
    exact finish_of_fired hactive hending
  · rw [hrun]
    exact finish_of_ended TransactionState.noConfusion ending

theorem sentSince_self : c.sentSince c = [] := by simp [Connection.sentSince]

theorem discard_sentSince {n : Nat} : (c.discard b n).2.sentSince c = [.discard n] :=
  sentSince_of_log rfl

/-- Once the token has fired, a command sends a discard at most. -/
theorem run_sends_discard (hfired : isFired t.token = true) :
    ∀ e ∈ (t.run b isFired command c).2.2.sentSince c, e = .discard t.number := by
  rcases run_cases b isFired command t c with ⟨e, -, hrun⟩ | ⟨-, ⟨-, hrun⟩ | ⟨hnot, -⟩⟩
  · simp [hrun, sentSince_self]
  · simp [hrun, discard_sentSince]
  · rw [hfired] at hnot
    cases hnot

/-- Once the token has fired, a commit sends a discard at most. -/
theorem commit_sends_discard (hfired : isFired t.token = true) :
    ∀ e ∈ (t.commit b isFired c).2.2.sentSince c, e = .discard t.number := by
  by_cases hactive : t.state = .active
  · simp [commit_of_fired hactive hfired, discard_sentSince]
  · simp [commit, hactive, sentSince_self]

/-- The discard of an active transaction is the first one since it was begun. -/
theorem Stands.countP_discard {n : Nat} (hstands : Stands b start n t c)
    (hactive : t.state = .active) :
    ((c.discard b t.number).2.sentSince start).countP Event.isDiscard = 1 := by
  obtain ⟨-, xs, hsends, hsent⟩ := hstands
  rw [hactive] at hsent
  have hopen : LeftOpen n xs := hsent
  have hlog : (c.discard b t.number).2.log =
      start.log ++ (xs.map Exchange.event ++ [.discard t.number]) := by
    rw [← List.append_assoc, ← hsends.log]
    rfl
  have hnone : xs.countP (Event.isDiscard ∘ Exchange.event) = 0 := hopen.countP_discard
  rw [sentSince_of_log hlog, List.countP_append, List.countP_map, hnone]
  rfl

/-! ## Every moment of a life -/

/-- What a transaction, which has come to `c` since it was begun at `start`, keeps from its
backend. -/
structure Guarded (b : Backend σ) (start : Connection σ) (t : Transaction) (c : Connection σ) :
    Prop where
  /-- For a transaction that may only read no mutation was sent. -/
  reads : t.mode = .readOnly → ∀ e ∈ c.sentSince start, e.isMutation = false
  /-- When the token has fired, nothing is sent but a discard. -/
  fired : ∀ isFired, isFired t.token = true →
    (∀ command, ∀ e ∈ (t.run b isFired command c).2.2.sentSince c, e = .discard t.number) ∧
      ∀ e ∈ (t.commit b isFired c).2.2.sentSince c, e = .discard t.number
  /-- A command that is refused changes nothing and sends nothing. -/
  refused : ∀ isFired command e, t.Refuses command e →
    t.run b isFired command c = (.error e, t, c)
  /-- Every other command sends its statement, unless the token has fired. -/
  accepted : ∀ isFired command, (∀ e, ¬t.Refuses command e) → isFired t.token = false →
    Executes b t c command (t.run b isFired command c)
  /-- A transaction that has ended refuses a commit. -/
  ended : t.state ≠ .active → ∀ isFired, t.commit b isFired c = (.error notActive, t, c)
  /-- An active transaction whose token has fired can only end discarded, by the only discard of
  its life, and is at no moment committed. -/
  calledOff : t.state = .active → ∀ turns ending,
    (∀ turn ∈ turns, turn.isFired t.token = true) → ending.findsFired t.token = true →
      (t.runAll b turns c).1.state ≠ .committed ∧
        (t.live b turns ending c).1.state = .discarded ∧
        (t.live b turns ending c).2.sentSince c = [.discard t.number] ∧
        ((t.live b turns ending c).2.sentSince start).countP Event.isDiscard = 1

theorem guarded_of_stands {n : Nat} {t₀ : Transaction} (hstands : Stands b start n t c)
    (hkeeps : Keeps t₀ start t c) : Guarded b start t c where
  reads := by
    intro hmode
    obtain ⟨es, hlog, hnone⟩ := hkeeps.log
    rw [sentSince_of_log hlog]
    refine hnone ?_
    rw [hkeeps.same] at hmode
    exact hmode
  fired _ hfired := ⟨fun _ => run_sends_discard hfired, commit_sends_discard hfired⟩
  refused isFired command e h := h.run_eq
  accepted := by
    intro isFired command hrefuses hfired
    rcases run_cases b isFired command t c with ⟨e, he, -⟩ | ⟨-, ⟨hnot, -⟩ | ⟨-, hexecutes⟩⟩
    · exact absurd he (hrefuses e)
    · rw [hfired] at hnot
      cases hnot
    · exact hexecutes
  ended hended isFired := by simp [commit, hended]
  calledOff := by
    intro hactive turns ending hturns hending
    rw [live_of_fired hactive hturns hending]
    refine ⟨?_, rfl, discard_sentSince, hstands.countP_discard hactive⟩
    rcases runAll_of_fired (b := b) (c := c) hturns with hrun | hrun
    · simp [hrun, hactive]
    · simp [hrun]

/-- A transaction is not begun once the token has fired.  Otherwise one call begins it, and it is
guarded as long as it lives. -/
theorem guarded (b : Backend σ) (isFired : Token → Bool) (mode : AccessMode) (token : Token)
    (c : Connection σ) :
    (isFired token = true → begin b isFired mode token c = (.error .cancelled, c)) ∧
      (isFired token = false →
        (begin b isFired mode token c).2.log = c.log ++ [.begin (c.begun + 1) mode]) ∧
      ∀ t start, begin b isFired mode token c = (.ok t, start) →
        t = ⟨c.begun + 1, mode, .active, token⟩ ∧
          ∀ turns, Guarded b start (t.runAll b turns start).1 (t.runAll b turns start).2 ∧
            ∀ ending, Guarded b start (t.live b turns ending start).1
              (t.live b turns ending start).2 := by
  refine ⟨fun hfired => by simp [begin, hfired], fun hfired => by simp [begin, hfired]; rfl, ?_⟩
  intro t start hbegin
  have ht : t = ⟨c.begun + 1, mode, .active, token⟩ := by
    cases hfired : isFired token with
    | true => simp [begin, hfired] at hbegin
    | false =>
      cases hanswer : (b.begin mode c.state).1 with
      | error e => simp [begin, hfired, Connection.begin, hanswer, Except.map] at hbegin
      | ok u =>
        simp only [begin, hfired, Connection.begin, hanswer, Except.map] at hbegin
        exact (Except.ok.inj (congrArg Prod.fst hbegin)).symm
  refine ⟨ht, fun turns => ?_⟩
  have hactive : t.state = .active := by rw [ht]
  have hstands : Stands b start t.number _ _ := (stands_of_active hactive).runAll turns
  have hkeeps : Keeps t start _ _ := (keeps_refl (c := start)).runAll (b := b) turns
  exact ⟨guarded_of_stands hstands hkeeps, fun ending =>
    guarded_of_stands (hstands.finish ending) (hkeeps.trans (finish_keeps ending))⟩

/-- A query is executed, then the token fires: the mutation after it is not sent, and the end of the
transaction is a discard. -/
theorem calledOff_adults :
    let token : Token := ⟨0, none⟩
    let c : Connection Script := .start .start
    let start : Connection Script := { c with begun := 1, log := [.begin 1 .readWrite] }
    let t : Transaction := ⟨1, .readWrite, .active, token⟩
    let before : List Turn := [⟨.query Query.adults, fun _ => false⟩]
    let after : List Turn := [⟨.execute ⟨.set, "a", []⟩ true, fun _ => true⟩]
    let t' := (t.runAll Script.backend before start).1
    let c' := (t.runAll Script.backend before start).2
    begin Script.backend (fun _ => false) .readWrite token c = (.ok t, start) ∧
      c'.sentSince start ≠ [] ∧
      (t'.live Script.backend after (.commit fun _ => true) c').1.state = .discarded ∧
      (t'.live Script.backend after (.commit fun _ => true) c').2.sentSince c' = [.discard 1] := by
  intro token c start t before after t' c'
  have hbegin : begin Script.backend (fun _ => false) .readWrite token c = (.ok t, start) := rfl
  obtain ⟨s, hs, hquery⟩ : ∃ s, Query.adults.compile = .ok s ∧ s.isMutation = false :=
    ⟨_, Query.compile_adults, rfl⟩
  have hrun : t.runAll Script.backend before start =
      (t, { start with log := start.log ++ [.execute 1 ⟨s, false, false⟩] }) := by
    simp only [before, runAll, run, Command.request_query hs, hquery, Bool.false_eq_true, if_false]
    rw [execute_of_sent rfl (by simp [hquery]) rfl]
    simp only [Exchange.commits, Event.isCommitting, hquery, Bool.and_false]
    rfl
  have hguarded : Guarded Script.backend start t' c' :=
    ((guarded Script.backend (fun _ => false) .readWrite token c).2.2 t start hbegin).2 before |>.1
  have ht' : t' = t := congrArg Prod.fst hrun
  have hc' : c' = { start with log := start.log ++ [.execute 1 ⟨s, false, false⟩] } :=
    congrArg Prod.snd hrun
  obtain ⟨-, hdiscarded, hsent, -⟩ :=
    hguarded.calledOff (ht' ▸ rfl) after (.commit fun _ => true) (by simp [after]) rfl
  have hexecuted : c'.sentSince start = [.execute 1 ⟨s, false, false⟩] := by
    rw [hc']
    exact sentSince_of_log rfl
  refine ⟨hbegin, ?_, hdiscarded, ?_⟩
  · rw [hexecuted]
    exact List.cons_ne_nil _ _
  · rw [hsent, ht']

end Transaction

end GraphQuery
