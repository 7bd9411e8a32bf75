import GraphQuery.Pool.Service
import GraphQuery.Proofs.Guards

/-!
# What a single call sends

`Client.Trace` lists the courses that a single call can take, one constructor
for each, with everything that is sent and with what the call returns.  The
answers are those of the backend, which may refuse to begin a transaction and
may refuse or abandon the statement.  Its answer to a discard appears nowhere:
whether the backend could discard a transaction makes no difference.

`Service.single_trace` says that every call takes one of these courses, and
that the pool of the client has no part in it.  The courses exclude one another,
and the first that applies is taken: a statement that does not compile is told
before one of the wrong kind, and either before a token that has fired.
-/

namespace GraphQuery

namespace Client

variable {σ : Type} {b : Backend σ} {isFired : Token → Bool} {token : Token}
  {command : Command} {c : Connection σ} {s : Statement}

namespace Command

/-- The statement of a command, of whatever kind it is. -/
def compiled : Command → Except Error Statement
  | query q | mutate q => q.compile
  | queryBatch b => b.compile

/-- How the transaction of a command is begun. -/
def mode (command : Command) : AccessMode :=
  if command.isWrite then .readWrite else .readOnly

/-- The refusal of a statement that is not of the command's kind. -/
def mistake (command : Command) : Error :=
  if command.isWrite then queryAsMutation else Transaction.mutationAsQuery

/-- What a command that commits along with a mutation asks of the backend. -/
def request (command : Command) (s : Statement) : Request := ⟨s, command.isWrite, false⟩

end Command

/-- The calls of the backend in a single call on the connection, in order, and what it returns. -/
inductive Trace (b : Backend σ) (isFired : Token → Bool) (token : Token) (command : Command)
    (c : Connection σ) : List Event → Outcome Response → Prop where
  | uncompiled {e : Error} (h : command.compiled = .error e) :
      Trace b isFired token command c [] (.error e)
  | mistaken {s : Statement} (h : command.compiled = .ok s)
      (hkind : s.isMutation ≠ command.isWrite) :
      Trace b isFired token command c [] (.error command.mistake)
  | cancelled {s : Statement} (h : command.compiled = .ok s)
      (hkind : s.isMutation = command.isWrite) (hfired : isFired token = true) :
      Trace b isFired token command c [] (.error .cancelled)
  | unbegun {s : Statement} {e : Error} (h : command.compiled = .ok s)
      (hkind : s.isMutation = command.isWrite) (hfired : isFired token = false)
      (hbegin : (b.begin command.mode c.state).1 = .error e) :
      Trace b isFired token command c [.begin (c.begun + 1) command.mode] (.error e)
  /-- A write with an answer is committed; everything else is discarded, once. -/
  | executed {s : Statement} {r : Outcome Response} (h : command.compiled = .ok s)
      (hkind : s.isMutation = command.isWrite) (hfired : isFired token = false)
      (hbegin : (b.begin command.mode c.state).1 = .ok ())
      (hanswer : (b.execute (c.begun + 1) (command.request s) (b.begin command.mode c.state).2).1
        = r) :
      Trace b isFired token command c
        ([.begin (c.begun + 1) command.mode, .execute (c.begun + 1) (command.request s)] ++
          if command.isWrite && r.isOk then [] else [.discard (c.begun + 1)]) r

/-- The answers of the backend leave one course only. -/
theorem Trace.unique {events events' : List Event} {r r' : Outcome Response}
    (h : Trace b isFired token command c events r)
    (h' : Trace b isFired token command c events' r') : events = events' ∧ r = r' := by
  cases h <;> cases h' <;> simp_all

/-! ## The statement of a command -/

theorem statement_of_error {e : Error} (h : command.compiled = .error e) :
    command.statement = .error e := by
  cases command with
  | query q | mutate q | queryBatch batch =>
    rw [Command.compiled] at h
    simp [Command.statement, h, Bind.bind, Except.bind]

/-- The statement of a batch is a query. -/
theorem isMutation_of_batch {batch : Batch} (h : batch.compile = .ok s) : s.isMutation = false := by
  rw [(Batch.compile_eq_ok_iff.mp h).2]
  rfl

theorem statement_of_compiled (h : command.compiled = .ok s) :
    command.statement =
      if s.isMutation = command.isWrite then .ok s else .error command.mistake := by
  cases command with
  | query q =>
    rw [Command.compiled] at h
    rw [Command.statement, h]
    exact Verdict.ofBool_bind.trans (by cases s.isMutation <;> rfl)
  | queryBatch batch =>
    rw [isMutation_of_batch h]
    exact h
  | mutate q =>
    rw [Command.compiled] at h
    rw [Command.statement, h]
    exact Verdict.ofBool_bind.trans (by cases s.isMutation <;> rfl)

/-- A statement of the right kind is sent in a transaction that may execute it. -/
theorem run_of_statement (h : command.statement = .ok s) :
    run b isFired token command c = once b isFired command.mode command.isWrite token s c := by
  cases command <;> simp [run, h, Command.isWrite, Command.mode, read, write]

/-! ## Transactions of a single statement -/

section
variable {mode : AccessMode} {commitNow : Bool}

theorem once_fired (hfired : isFired token = true) :
    once b isFired mode commitNow token s c = (.error .cancelled, c) := by
  simp [once, Transaction.begin, hfired]

theorem once_unbegun {e : Error} (hfired : isFired token = false)
    (hbegin : (b.begin mode c.state).1 = .error e) :
    (once b isFired mode commitNow token s c).1 = .error e ∧
      (once b isFired mode commitNow token s c).2.log =
        c.log ++ [.begin (c.begun + 1) mode] := by
  simp [once, Transaction.begin, Connection.begin, hfired, hbegin, Except.map]

theorem release_log {t : Transaction} : (t.release b c).2.log =
    c.log ++ if t.state = .active then [.discard t.number] else [] := by
  unfold Transaction.release
  split_ifs
  · rfl
  · exact (List.append_nil _).symm

/-- The transaction is let go of with the answer to its statement, and discarded unless that has
committed it. -/
theorem once_executed (hmode : ¬(s.isMutation ∧ mode = .readOnly)) (hfired : isFired token = false)
    (hbegin : (b.begin mode c.state).1 = .ok ()) :
    let n := c.begun + 1
    let answer := (b.execute n ⟨s, commitNow, false⟩ (b.begin mode c.state).2).1
    (once b isFired mode commitNow token s c).1 = answer ∧
      (once b isFired mode commitNow token s c).2.log =
        c.log ++ ([.begin n mode, .execute n ⟨s, commitNow, false⟩] ++
          if answer.isOk && (commitNow && s.isMutation) then [] else [.discard n]) := by
  intro n answer
  let begun : Connection σ := (c.begin b mode).2
  let t : Transaction := ⟨n, mode, .active, token⟩
  have hbegun : Transaction.begin b isFired mode token c = (.ok t, begun) := by
    simp [Transaction.begin, Connection.begin, hfired, hbegin, Except.map, t, n, begun]
  have hexecute := @Transaction.execute_of_sent σ b t begun isFired s commitNow rfl hmode hfired
  have hcommits : (⟨.execute n ⟨s, commitNow, false⟩, answer.isOk⟩ : Exchange).commits =
      (answer.isOk && (commitNow && s.isMutation)) := rfl
  rw [once, hbegun]
  simp only [hexecute]
  refine ⟨rfl, ?_⟩
  rw [release_log]
  show c.log ++ [.begin n mode] ++ [.execute n ⟨s, commitNow, false⟩] ++ (if (if
    (⟨.execute n ⟨s, commitNow, false⟩, answer.isOk⟩ : Exchange).commits then
      TransactionState.committed else .active) = .active then [.discard n] else []) = _
  rw [hcommits, List.append_assoc, List.append_assoc]
  cases answer.isOk && (commitNow && s.isMutation) <;> rfl

end

/-- Every single call takes one of the courses. -/
theorem run_trace (b : Backend σ) (isFired : Token → Bool) (token : Token) (command : Command)
    (c : Connection σ) :
    ∃ events, (run b isFired token command c).2.log = c.log ++ events ∧
      Trace b isFired token command c events (run b isFired token command c).1 := by
  have hsilent : ∀ {r}, run b isFired token command c = (r, c) →
      Trace b isFired token command c [] r → ∃ events,
        (run b isFired token command c).2.log = c.log ++ events ∧
          Trace b isFired token command c events (run b isFired token command c).1 := by
    intro r hrun htrace
    rw [hrun]
    exact ⟨[], (List.append_nil _).symm, htrace⟩
  cases hcompiled : command.compiled with
  | error e =>
    exact hsilent (by rw [run, statement_of_error hcompiled]) (.uncompiled hcompiled)
  | ok s =>
    by_cases hkind : s.isMutation = command.isWrite
    swap
    · refine hsilent ?_ (.mistaken hcompiled hkind)
      rw [run, statement_of_compiled hcompiled, if_neg hkind]
    have hrun : run b isFired token command c =
        once b isFired command.mode command.isWrite token s c :=
      run_of_statement ((statement_of_compiled hcompiled).trans (if_pos hkind))
    cases hfired : isFired token with
    | true => exact hsilent (hrun.trans (once_fired hfired)) (.cancelled hcompiled hkind hfired)
    | false =>
      rw [hrun]
      cases hbegin : (b.begin command.mode c.state).1 with
      | error e =>
        obtain ⟨hresult, hlog⟩ := once_unbegun hfired hbegin
        exact ⟨_, hlog, hresult ▸ .unbegun hcompiled hkind hfired hbegin⟩
      | ok u =>
        have hmode : ¬(s.isMutation ∧ command.mode = .readOnly) := by
          rw [hkind]
          rintro ⟨hwrite, hmode⟩
          rw [Command.mode, if_pos hwrite] at hmode
          cases hmode
        obtain ⟨hresult, hlog⟩ := once_executed hmode hfired hbegin
        rw [hkind, Bool.and_self, Bool.and_comm, ← hresult] at hlog
        exact ⟨_, hlog, .executed hcompiled hkind hfired hbegin hresult.symm⟩

end Client

/-- A single call takes the only course that the answers of the backend leave to it, and leaves the
pool alone. -/
theorem Service.single_trace {σ : Type} (b : Backend σ) (isFired : Token → Bool) (token : Token)
    (command : Client.Command) (s : Service σ) :
    ∃ events, (s.single b isFired token command).2.connection.log = s.connection.log ++ events ∧
      Client.Trace b isFired token command s.connection events
        (s.single b isFired token command).1 ∧
      (∀ events' r, Client.Trace b isFired token command s.connection events' r →
        events' = events ∧ r = (s.single b isFired token command).1) ∧
      (s.single b isFired token command).2.pool = s.pool := by
  obtain ⟨events, hlog, htrace⟩ := Client.run_trace b isFired token command s.connection
  exact ⟨events, hlog, htrace, fun _ _ hother => hother.unique htrace, rfl⟩

end GraphQuery
