import GraphQuery.Error
import GraphQuery.Pool.Basic
import GraphQuery.Text.Blank

/-!
# Settings

What a client has to know before its first call: where the database listens,
how large its pool is, how long a call may take, and the certificates for an
encrypted connection.  Every part but the certificates has a standard value.

`Settings.check` says whether a client can work with the settings; nothing
else looks at the host, so any text is a host for the other functions.
-/

namespace GraphQuery

/-- Where the database listens. -/
structure Endpoint where
  host : String
  portNumber : UInt16
  deriving DecidableEq

namespace Endpoint

/-- The endpoint of a database on this machine. -/
def standard : Endpoint := ⟨"localhost", 9080⟩

/-- The host and the number behind it. -/
def address (e : Endpoint) : String := e.host ++ ":" ++ toString e.portNumber.toNat

end Endpoint

/-- The size of a pool as it is configured. -/
structure PoolSettings where
  workers : UInt64
  /-- The largest length of the queue; zero stands for one place for each worker. -/
  queueCapacity : UInt64
  /-- How often a mutation may be executed, replays included. -/
  maxAttempts : UInt32
  deriving DecidableEq

namespace PoolSettings

/-- Five workers with one place each. -/
def standard : PoolSettings := ⟨5, 0, 3⟩

/-- One worker, so that mutations are executed in the order in which they were buffered. -/
def singleWorker : PoolSettings := ⟨1, 1, 3⟩

/-- Many workers and a long queue. -/
def throughput : PoolSettings := ⟨16, 1024, 5⟩

/-- The largest length of the queue; a pool without workers has one place. -/
def capacity (s : PoolSettings) : Nat :=
  if s.queueCapacity = 0 then max 1 s.workers.toNat else s.queueCapacity.toNat

/-- The pool that is meant. -/
def config (s : PoolSettings) : Pool.Config := ⟨s.workers.toNat, s.capacity, s.maxAttempts.toNat⟩

end PoolSettings

/-- The files with which a connection is encrypted. -/
structure Certificates where
  authority : String
  client? : Option String
  clientKey? : Option String
  serverName? : Option String
  deriving DecidableEq

/-- What a client has to know before its first call. -/
structure Settings where
  /-- How many milliseconds a call may take that was not given a token. -/
  timeout? : Option UInt64
  endpoint : Endpoint
  pool : PoolSettings
  certificates? : Option Certificates
  deriving DecidableEq

namespace Settings

/-- The settings for a database on this machine. -/
def standard : Settings := ⟨none, .standard, .standard, none⟩

/-- Why settings are of no use. -/
inductive Fault where
  | emptyHost
  | noWorker
  | noAttempt
  deriving DecidableEq

/-- The fault in words. -/
def Fault.message : Fault → String
  | emptyHost => "invalid config: endpoint.host cannot be empty"
  | noWorker => "invalid config: pipeline.workers must be at least 1"
  | noAttempt => "invalid config: pipeline.max_attempts must be at least 1"

/-- The fault as the refusal of a call. -/
def Fault.error (f : Fault) : Error := .invalidArgument f.message

/-- The first fault of the settings, if there is one. -/
def fault? (s : Settings) : Option Fault :=
  if Text.allBlank s.endpoint.host then some .emptyHost
  else if s.pool.workers = 0 then some .noWorker
  else if s.pool.maxAttempts = 0 then some .noAttempt
  else none

/-- The settings, unless they have a fault. -/
def check (s : Settings) : Except Fault Settings :=
  match s.fault? with
  | none => .ok s
  | some f => .error f

end Settings

end GraphQuery
