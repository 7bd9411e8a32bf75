import GraphQuery.Settings

/-!
# Reading settings from documents

Settings can be written in more than one format.  A `Datum` is what they look
for in a document of any of them: texts, integers, lists and records.

A record is read from a record, whose further members are of no interest, or
from a list of its parts in their order.  A part that is missing has its
standard value.  Certificates have none: a record has to name the authority,
and a list has to have all four parts.

Formats differ in whether a list may go on behind the parts of a record;
`Extent` says which it is.
-/

namespace GraphQuery

/-- A document, as far as settings can be read from it. -/
inductive Datum where
  /-- Nothing where something could be. -/
  | absent
  | text (s : String)
  | integer (n : Int)
  | list (items : List Datum)
  | record (members : List (String × Datum))
  /-- A value that settings have no use for. -/
  | other

/-- How long a list may be that stands for a record. -/
inductive Extent where
  /-- It has no more items than the record has parts. -/
  | tight
  /-- It may go on behind the parts. -/
  | loose

namespace Datum

/-- The characters of a text. -/
def text? : Datum → Option String
  | text s => some s
  | _ => none

/-- The value of an integer from zero to below the bound. -/
def natBelow? (bound : Nat) : Datum → Option Nat
  | integer n => if 0 ≤ n ∧ n < bound then some n.toNat else none
  | _ => none

/-- A value that may be absent. -/
def optional? {α : Type} (f : Datum → Option α) : Datum → Option (Option α)
  | absent => some none
  | d => (f d).map some

/-- The datum can stand for a record with so many parts. -/
def isRecord (extent : Extent) (size : Nat) : Datum → Bool
  | record _ => true
  | list items => extent matches .loose || items.length ≤ size
  | _ => false

/-- The part of a record with the given key and place. -/
def part? (key : String) (place : Nat) : Datum → Option Datum
  | record members => members.lookup key
  | list items => items[place]?
  | _ => none

/-- A part that is read with `f`, or its standard value if it is missing. -/
def partOr {α : Type} (f : Datum → Option α) (standard : α) : Option Datum → Option α
  | none => some standard
  | some d => f d

/-- A part that may be absent; a record may leave it out, but a list may not. -/
def optionalPart? {α : Type} (f : Datum → Option α) (key : String) (place : Nat) (d : Datum) :
    Option (Option α) :=
  match d with
  | record _ => partOr (optional? f) none (d.part? key place)
  | d => d.part? key place >>= optional? f

end Datum

/-- The endpoint that a datum stands for. -/
def Endpoint.ofDatum? (extent : Extent) (d : Datum) : Option Endpoint := do
  guard (d.isRecord extent 2)
  let host ← Datum.partOr Datum.text? standard.host (d.part? "host" 0)
  let portNumber ← Datum.partOr (Datum.natBelow? UInt16.size) standard.portNumber.toNat
    (d.part? "port" 1)
  return ⟨host, .ofNat portNumber⟩

/-- The size of a pool that a datum stands for. -/
def PoolSettings.ofDatum? (extent : Extent) (d : Datum) : Option PoolSettings := do
  guard (d.isRecord extent 3)
  let workers ← Datum.partOr (Datum.natBelow? UInt64.size) standard.workers.toNat
    (d.part? "workers" 0)
  let queueCapacity ← Datum.partOr (Datum.natBelow? UInt64.size) standard.queueCapacity.toNat
    (d.part? "queue_capacity" 1)
  let maxAttempts ← Datum.partOr (Datum.natBelow? UInt32.size) standard.maxAttempts.toNat
    (d.part? "max_attempts" 2)
  return ⟨.ofNat workers, .ofNat queueCapacity, .ofNat maxAttempts⟩

/-- The certificates that a datum stands for. -/
def Certificates.ofDatum? (extent : Extent) (d : Datum) : Option Certificates := do
  guard (d.isRecord extent 4)
  let authority ← d.part? "ca_cert" 0 >>= Datum.text?
  let client? ← d.optionalPart? Datum.text? "client_cert" 1
  let clientKey? ← d.optionalPart? Datum.text? "client_key" 2
  let serverName? ← d.optionalPart? Datum.text? "server_name" 3
  return { authority, client?, clientKey?, serverName? }

/-- The settings that a datum stands for. -/
def Settings.ofDatum? (extent : Extent) (d : Datum) : Option Settings := do
  guard (d.isRecord extent 4)
  let timeout? ← Datum.partOr (Datum.optional? (Datum.natBelow? UInt64.size)) none
    (d.part? "default_timeout_ms" 0)
  let endpoint ← Datum.partOr (Endpoint.ofDatum? extent) .standard (d.part? "endpoint" 1)
  let pool ← Datum.partOr (PoolSettings.ofDatum? extent) .standard (d.part? "pipeline" 2)
  let certificates? ← Datum.partOr (Datum.optional? (Certificates.ofDatum? extent)) none
    (d.part? "tls" 3)
  return { timeout? := timeout?.map .ofNat, endpoint, pool, certificates? }

end GraphQuery
