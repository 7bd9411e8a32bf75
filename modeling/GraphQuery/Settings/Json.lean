import GraphQuery.Json.Basic
import GraphQuery.Settings.Datum

/-!
# Settings as JSON

Settings are written as an object with all of their parts, and null for a
part that they do not have.  They are read from objects or arrays; an array
has no more items than the record for which it stands has parts.
-/

namespace GraphQuery

/-- The datum of a document: null is absent, and neither a truth value nor a double is of use. -/
def Json.toDatum : Json → Datum
  | .null => .absent
  | .bool _ => .other
  | .number (.integer n) => .integer n
  | .number (.double _) => .other
  | .string s => .text s
  | .array items => .list (itemData items)
  | .object members => .record (memberData members)
where
  /-- The datum of each item. -/
  itemData : List Json → List Datum
    | [] => []
    | item :: items => item.toDatum :: itemData items
  /-- The members with the datum of each value. -/
  memberData : List (String × Json) → List (String × Datum)
    | [] => []
    | (key, value) :: members => (key, value.toDatum) :: memberData members

/-- The endpoint as JSON. -/
def Endpoint.toJson (e : Endpoint) : Json :=
  .object [("host", .string e.host), ("port", .nat e.portNumber.toNat)]

/-- The size of a pool as JSON. -/
def PoolSettings.toJson (s : PoolSettings) : Json :=
  .object [("max_attempts", .nat s.maxAttempts.toNat),
    ("queue_capacity", .nat s.queueCapacity.toNat), ("workers", .nat s.workers.toNat)]

/-- The size of a pool that is written as JSON. -/
def PoolSettings.ofJson? (j : Json) : Option PoolSettings := ofDatum? .tight j.toDatum

/-- The certificates as JSON. -/
def Certificates.toJson (c : Certificates) : Json :=
  .object [("ca_cert", .string c.authority), ("client_cert", .ofOption .string c.client?),
    ("client_key", .ofOption .string c.clientKey?),
    ("server_name", .ofOption .string c.serverName?)]

namespace Settings

/-- The settings as JSON. -/
def toJson (s : Settings) : Json :=
  .object [("default_timeout_ms", .ofOption (fun ms => .nat ms.toNat) s.timeout?),
    ("endpoint", s.endpoint.toJson), ("pipeline", s.pool.toJson),
    ("tls", .ofOption Certificates.toJson s.certificates?)]

/-- The settings that are written as JSON. -/
def ofJson? (j : Json) : Option Settings := ofDatum? .tight j.toDatum

end Settings

end GraphQuery
