import GraphQuery.Transaction

/-!
# What a backend was asked and what it answered

The log of a connection holds the calls of its backend but not the answers.
A backend answers from its state alone, so the answers can be read off the
log: `Backend.exchanges` goes through the calls again, from the state in
which the first of them found the backend.

`Sends b c xs c'` says that the exchanges `xs`, and nothing else, happened to
the connection between `c` and `c'`.  Every function of a connection has its
lemma (`sends_execute`, `sends_commit`, `sends_discard`), and pieces are put
together by `Sends.trans`.  `Sends.exchangesSince_eq` leads back to the log.
-/

namespace GraphQuery

/-- A call of a backend, and whether it was answered with a value. -/
structure Exchange where
  event : Event
  isGranted : Bool
  deriving DecidableEq

/-- The call was answered with a value. -/
def Outcome.isOk {α : Type} : Outcome α → Bool
  | ok _ => true
  | error _ | abandoned => false

/-- The number of the transaction that a call belongs to. -/
def Event.number : Event → Nat
  | begin n _ | execute n _ | commit n | discard n => n

variable {σ : Type}

namespace Backend

/-- Whether the backend grants a call, and its state afterwards. -/
def answer (b : Backend σ) (s : σ) : Event → Bool × σ
  | .begin _ mode => ((b.begin mode s).1.isOk, (b.begin mode s).2)
  | .execute n request => ((b.execute n request s).1.isOk, (b.execute n request s).2)
  | .commit n => ((b.commit n s).1.isOk, (b.commit n s).2)
  | .discard n => ((b.discard n s).1.isOk, (b.discard n s).2)

/-- The state after several calls. -/
def stateAfter (b : Backend σ) (s : σ) (events : List Event) : σ :=
  events.foldl (fun s e => (b.answer s e).2) s

/-- Several calls with the answers to them. -/
def exchanges (b : Backend σ) : σ → List Event → List Exchange
  | _, [] => []
  | s, e :: rest => ⟨e, (b.answer s e).1⟩ :: exchanges b (b.answer s e).2 rest

theorem exchanges_append (b : Backend σ) (s : σ) (es fs : List Event) :
    b.exchanges s (es ++ fs) = b.exchanges s es ++ b.exchanges (b.stateAfter s es) fs := by
  induction es generalizing s with
  | nil => rfl
  | cons e es ih => simp [exchanges, stateAfter, ih]

theorem stateAfter_append (b : Backend σ) (s : σ) (es fs : List Event) :
    b.stateAfter s (es ++ fs) = b.stateAfter (b.stateAfter s es) fs :=
  List.foldl_append

end Backend

namespace Connection

/-- The exchanges on a connection since an earlier moment. -/
def exchangesSince (b : Backend σ) (c earlier : Connection σ) : List Exchange :=
  b.exchanges earlier.state (c.log.drop earlier.log.length)

end Connection

/-- The exchanges, and nothing else, lie between two moments of a connection. -/
structure Sends (b : Backend σ) (c : Connection σ) (xs : List Exchange) (c' : Connection σ) :
    Prop where
  log : c'.log = c.log ++ xs.map Exchange.event
  answers : b.exchanges c.state (xs.map Exchange.event) = xs
  state : c'.state = b.stateAfter c.state (xs.map Exchange.event)

namespace Sends

variable {b : Backend σ} {c c' c'' : Connection σ} {xs ys : List Exchange}

theorem refl : Sends b c [] c := ⟨by simp, rfl, rfl⟩

theorem trans (h : Sends b c xs c') (h' : Sends b c' ys c'') : Sends b c (xs ++ ys) c'' where
  log := by rw [h'.log, h.log, List.map_append, List.append_assoc]
  answers := by
    rw [List.map_append, Backend.exchanges_append, h.answers, ← h.state, h'.answers]
  state := by rw [h'.state, h.state, List.map_append, Backend.stateAfter_append]

/-- What was sent can be read off the log. -/
theorem exchangesSince_eq (h : Sends b c xs c') : c'.exchangesSince b c = xs := by
  rw [Connection.exchangesSince, h.log, List.drop_left, h.answers]

end Sends

variable (b : Backend σ) (c : Connection σ) (n : Nat)

theorem sends_execute (request : Request) :
    Sends b c [⟨.execute n request, (c.execute b n request).1.isOk⟩]
      (c.execute b n request).2 :=
  ⟨rfl, rfl, rfl⟩

theorem sends_commit :
    Sends b c [⟨.commit n, (c.commit b n).1.isOk⟩] (c.commit b n).2 :=
  ⟨rfl, rfl, rfl⟩

theorem sends_discard :
    Sends b c [⟨.discard n, (c.discard b n).1.isOk⟩] (c.discard b n).2 :=
  ⟨rfl, rfl, rfl⟩

end GraphQuery
