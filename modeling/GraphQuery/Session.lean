import GraphQuery.Backend.Script
import GraphQuery.Pool.Service
import GraphQuery.Settings
import GraphQuery.Text.Visible

/-!
# Sessions

A session is the work of one caller with a client whose backend follows a
script.  The caller keeps tokens and transactions by name, changes the
script, holds the workers of the pool back and lets them go.  The machine that
it runs on has room for so many threads and no more.

Time stands still in a session: a deadline at zero has come, every other is
still ahead.
-/

namespace GraphQuery

open Pool

/-! ## The machine -/

namespace Session

/-- The largest number of threads that the machine has room for. -/
def maxThreads : Nat := 32768

/-- The refusal of a machine without room for another thread. -/
def noRoom : Error := .inputOutput "Resource temporarily unavailable (os error 11)"

/-- The largest number of threads that can be written down, at 24 bytes each. -/
def maxHandles : Nat := 384307168202282325

/-- What becomes of the request for so many threads. -/
def room (threads : Nat) : Outcome Unit :=
  if maxHandles < threads then .abandoned
  else if maxThreads < threads then .error noRoom
  else .ok ()

end Session

/-- A service whose pool was just started on the machine of the sessions. -/
def Service.start {σ : Type} (config : Config) (state : σ) : Outcome (Service σ) :=
  (Pool.start Session.room config).map fun pool => ⟨pool, .start state, false⟩

/-! ## Names -/

/-- What a caller keeps by name. -/
abbrev Named (α : Type) := List (String × α)

/-- The names without the given one. -/
def Named.erase {α : Type} (name : String) (entries : Named α) : Named α :=
  entries.filter (·.1 != name)

/-- The names with a new value for the given one. -/
def Named.put {α : Type} (name : String) (a : α) (entries : Named α) : Named α :=
  (name, a) :: entries.erase name

/-- The values in the order of their names. -/
def Named.sorted {α : Type} (entries : Named α) : List α :=
  (entries.mergeSort fun a b => a.1 ≤ b.1).map Prod.snd

/-! ## Steps and replies -/

/-- The state of a session. -/
structure Session where
  settings : Settings
  service : Service Script
  flags : Flags
  tokens : Named Token
  transactions : Named Transaction

namespace Session

/-- Where a token comes from. -/
inductive Source where
  /-- A token of its own, perhaps with a deadline. -/
  | fresh (deadline? : Option Time)
  /-- A copy of the token with the given name. -/
  | copy (name : String)

/-- How a call is told when to stop. -/
inductive Patience where
  /-- By the time that the settings allow. -/
  | standard
  /-- By the token with the given name. -/
  | token (name : String)

/-- What a caller can do. -/
inductive Step where
  /-- Change the script of the backend. -/
  | script (change : Script → Script)
  /-- Hold the workers back. -/
  | hold
  /-- Let the workers go. -/
  | letGo
  /-- Keep a token. -/
  | token (name : String) (source : Source)
  /-- Raise the flag of a token. -/
  | cancel (name : String)
  /-- Look at a token as the settings give it to calls. -/
  | standardToken
  /-- A single call. -/
  | call (command : Client.Command) (patience : Patience)
  /-- Begin a transaction and keep it. -/
  | begin (name : String) (mode : AccessMode) (patience : Patience)
  /-- Use a transaction, or fail before that. -/
  | use (name : String) (command : Except Error Transaction.Command)
  /-- Commit a transaction. -/
  | commit (name : String)
  /-- Discard a transaction. -/
  | discard (name : String)
  /-- Let go of a transaction. -/
  | release (name : String)
  /-- Look at a transaction. -/
  | look (name : String)
  /-- Buffer a mutation. -/
  | buffer (q : Query)
  /-- Buffer a mutation, and let the workers go when nothing else can happen. -/
  | bufferHeld (q : Query)
  /-- Buffer a mutation, close the pool when nothing else can happen, and let the workers go. -/
  | bufferAndShutDown (q : Query)
  /-- Wait until the pool is idle. -/
  | flush
  /-- Wait a while for the pool to be idle. -/
  | flushFor
  /-- Look at the retry list. -/
  | retries
  /-- Take the retry list. -/
  | takeRetries
  /-- Replay what is in the retry list. -/
  | replay
  /-- Look at the statistics of the pool. -/
  | stats
  /-- Close the pool and wait for its workers. -/
  | shutDown

/-- What a caller hears. -/
inductive Reply where
  /-- It was done. -/
  | done
  /-- There is no token or transaction with the name. -/
  | unknownName
  /-- A verdict. -/
  | verdict (v : Outcome Unit)
  /-- The response to a statement. -/
  | response (r : Outcome Response)
  /-- The mode of a new transaction. -/
  | begun (mode : Except Error AccessMode)
  /-- A transaction. -/
  | transaction (t : Transaction)
  /-- Whether a token is cancelled and whether it has a deadline. -/
  | token (isCancelled hasDeadline : Bool)
  /-- A number or the number of a mutation; nothing if the call does not return. -/
  | number (n? : Option (Except Error Nat))
  /-- The same, and whether the call could not return while the workers were held back. -/
  | blocked (isBlocked : Bool) (n? : Option (Except Error Nat))
  /-- Whether the pool is idle. -/
  | idle (isIdle : Bool)
  /-- Mutations that failed. -/
  | failed (fs : List Failed)
  /-- The statistics of a pool. -/
  | stats (s : PoolStats)

/-! ## Behaviour -/

/-- A session that has just begun. -/
def start (settings : Settings) : Outcome Session :=
  match settings.check with
  | .error f => .error f.error
  | .ok settings =>
    (Service.start settings.pool.config .start).map fun service =>
      { settings, service, flags := .empty, tokens := [], transactions := [] }

/-- The token has fired. -/
def isFired (s : Session) (t : Token) : Bool := s.flags.isCancelled 0 t

/-- The connection of the client. -/
def connection (s : Session) : Connection Script := s.service.connection

/-- The session with its connection in another state. -/
def withConnection (s : Session) (connection : Connection Script) : Session :=
  { s with service := { s.service with connection } }

/-- A token of its own. -/
def issue (s : Session) (deadline? : Option Time) : Token × Session :=
  ((s.flags.issue deadline?).1, { s with flags := (s.flags.issue deadline?).2 })

/-- A token with which the settings let a call come to an end. -/
def standardToken (s : Session) : Token × Session :=
  s.issue (s.settings.timeout?.map UInt64.toNat)

/-- The token of a call, if there is one. -/
def tokenFor? (s : Session) : Patience → Option (Token × Session)
  | .standard => some s.standardToken
  | .token name => (s.tokens.lookup name).map (·, s)

/-- Keep a token. -/
def keepToken (s : Session) (name : String) : Source → Reply × Session
  | .fresh deadline? =>
    let (t, s) := s.issue deadline?
    (.done, { s with tokens := s.tokens.put name t })
  | .copy source =>
    match s.tokens.lookup source with
    | none => (.unknownName, s)
    | some t => (.done, { s with tokens := s.tokens.put name t })

/-- Begin a transaction and let go of an older one with its name. -/
def begin (s : Session) (name : String) (mode : AccessMode) (token : Token) : Reply × Session :=
  match Transaction.begin Script.backend s.isFired mode token s.connection with
  | (.error e, c) => (.begun (.error e), s.withConnection c)
  | (.ok t, c) =>
    let c := match s.transactions.lookup name with
      | none => c
      | some old => (old.release Script.backend c).2
    (.begun (.ok mode),
      { s.withConnection c with transactions := s.transactions.put name t })

/-- Do something with a transaction that is no longer kept then. -/
def finish (s : Session) (name : String)
    (f : Transaction → Connection Script → Reply × Connection Script) : Reply × Session :=
  match s.transactions.lookup name with
  | none => (.unknownName, s)
  | some t =>
    let (r, c) := f t s.connection
    (r, { s.withConnection c with transactions := s.transactions.erase name })

/-- Use a transaction. -/
def use (s : Session) (name : String) (command : Except Error Transaction.Command) :
    Reply × Session :=
  match s.transactions.lookup name, command with
  | none, _ => (.unknownName, s)
  | some _, .error e => (.response (.error e), s)
  | some t, .ok command =>
    let (r, t, c) := t.run Script.backend s.isFired command s.connection
    (.response r, { s.withConnection c with transactions := s.transactions.put name t })

/-- The session after its workers were let go. -/
def letGo (s : Session) : Session :=
  { s with service := s.service.letGo Script.backend }

/-- The session after its pool was closed. -/
def shutDown (s : Session) : Session :=
  { s with service := s.service.shutDown Script.backend }

/-- The session after waiting until its pool is idle. -/
def flush (s : Session) : Session :=
  { s with service := (s.service.call Script.backend (.await false)).1 }

/-- Submit the statement of a query. -/
def buffer (s : Session) (q : Query) : Option (Except Error Nat) × Session :=
  match q.compile with
  | .error e => (some (.error e), s)
  | .ok statement =>
    let (r, service) := s.service.submit Script.backend statement
    (r, { s with service })

/-- Submit the statement of a query; once nothing can happen any more, let the session go on in
some way and hear again from a call that has not returned. -/
def bufferThen (s : Session) (q : Query) (goOn : Session → Session) : Reply × Session :=
  let thread := s.service.pool.threads.length
  match s.buffer q with
  | (some r, s) => (.blocked false (some r), goOn s)
  | (none, s) =>
    let s := goOn s
    (.blocked true (s.service.submitted? thread), s)

/-- Take a step. -/
def perform (s : Session) : Step → Reply × Session
  | .script change =>
    (.done, s.withConnection { s.connection with state := change s.connection.state })
  | .hold => (.done, { s with service := { s.service with isHeld := true } })
  | .letGo => (.done, s.letGo)
  | .token name source => s.keepToken name source
  | .cancel name =>
    match s.tokens.lookup name with
    | none => (.unknownName, s)
    | some t => (.done, { s with flags := s.flags.cancel t })
  | .standardToken =>
    let (t, s) := s.standardToken
    (.token (s.isFired t) t.deadline?.isSome, s)
  | .call command patience =>
    match s.tokenFor? patience with
    | none => (.unknownName, s)
    | some (t, s) =>
      let (r, service) := s.service.single Script.backend s.isFired t command
      (.response r, { s with service })
  | .begin name mode patience =>
    match s.tokenFor? patience with
    | none => (.unknownName, s)
    | some (t, s) => s.begin name mode t
  | .use name command => s.use name command
  | .commit name =>
    s.finish name fun t c =>
      let (r, _, c) := t.commit Script.backend s.isFired c
      (.verdict r, c)
  | .discard name =>
    s.finish name fun t c =>
      let (r, _, c) := t.discard Script.backend c
      (.verdict (.ofExcept r), c)
  | .release name => s.finish name fun t c => (.done, (t.release Script.backend c).2)
  | .look name =>
    match s.transactions.lookup name with
    | none => (.unknownName, s)
    | some t => (.transaction t, s)
  | .buffer q =>
    let (r, s) := s.buffer q
    (.number r, s)
  | .bufferHeld q => s.bufferThen q letGo
  | .bufferAndShutDown q => s.bufferThen q fun s => s.shutDown.letGo
  | .flush => (.done, s.letGo.flush)
  | .flushFor =>
    let (isIdle, service) := s.service.flushFor Script.backend
    (.idle isIdle, { s with service })
  | .retries => (.failed s.service.pool.retries, s)
  | .takeRetries =>
    let (fs, service) := s.service.takeRetries Script.backend
    (.failed fs, { s with service })
  | .replay =>
    let (r, service) := s.service.replay Script.backend
    (.number r, { s with service })
  | .stats => (.stats s.service.pool.stats, s)
  | .shutDown => (.done, s.letGo.shutDown)

/-- The client in words. -/
def describe (s : Session) : String :=
  "Client \x7b endpoint: " ++ Text.visibly s.settings.endpoint.address ++ ", pipeline: "
    ++ s.service.pool.config.describe ++ " \x7d"

/-- Bring a session to an end: let the workers go, let go of all transactions in the order of their
names, and close the pool. -/
def finishAll (s : Session) : Session :=
  let s := s.letGo
  let c := s.transactions.sorted.foldl (fun c t => (t.release Script.backend c).2) s.connection
  { s.withConnection c with transactions := [] }.shutDown

/-- The calls of the backend that a session has made since an earlier state. -/
def eventsSince (s earlier : Session) : List Event :=
  s.connection.log.drop earlier.connection.log.length

end Session

end GraphQuery
