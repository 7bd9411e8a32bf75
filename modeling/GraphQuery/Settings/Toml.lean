import GraphQuery.Toml.Reader

/-!
# Settings as TOML

Settings are written with the timeout first, if there is one, and then a table
for each of their other parts, with a blank line between any two.  What the
settings do not have is left out.  An integer above the largest that the
format knows cannot be written, nor can a text with too many quotes in a row.

They are read from any document of the format.  An array may stand for a
record, and may go on behind its parts.  `Settings.load` is what a client does
with a document: it reads the settings and checks them.
-/

namespace GraphQuery

namespace Settings

/-- A line with a key and the text of its value. -/
def line (key value : String) : String := key ++ " = " ++ value ++ "\n"

/-- A line with an integer, unless that is too large. -/
def integerLine? (key : String) (n : Nat) : Option String :=
  if (n : Int) ≤ Int64.maxValue.toInt then some (line key (toString n)) else none

/-- A line with a text. -/
def textLine (key value : String) : String := line key (Toml.Quoted.encode value)

/-- A line with a text, or nothing. -/
def optionalLine (key : String) : Option String → String
  | none => ""
  | some value => textLine key value

/-- A table with its header. -/
def tableText (name : String) (lines : List String) : String :=
  "[" ++ name ++ "]\n" ++ String.join lines

/-- The timeout as a block of its own. -/
def timeoutBlocks? (s : Settings) : Option (List String) :=
  match s.timeout? with
  | none => some []
  | some ms => (integerLine? "default_timeout_ms" ms.toNat).map fun l => [l]

/-- The table of an endpoint. -/
def endpointBlock? (e : Endpoint) : Option String := do
  return tableText "endpoint" [textLine "host" e.host, ← integerLine? "port" e.portNumber.toNat]

/-- The table of the size of a pool. -/
def poolBlock? (p : PoolSettings) : Option String := do
  return tableText "pipeline" [← integerLine? "workers" p.workers.toNat,
    ← integerLine? "queue_capacity" p.queueCapacity.toNat,
    ← integerLine? "max_attempts" p.maxAttempts.toNat]

/-- The table of certificates. -/
def certificatesBlock (c : Certificates) : String :=
  tableText "tls" [textLine "ca_cert" c.authority, optionalLine "client_cert" c.client?,
    optionalLine "client_key" c.clientKey?, optionalLine "server_name" c.serverName?]

/-- The texts that settings hold. -/
def texts (s : Settings) : List String :=
  s.endpoint.host :: match s.certificates? with
    | none => []
    | some c => c.authority :: [c.client?, c.clientKey?, c.serverName?].filterMap id

/-- Why settings cannot be written. -/
inductive WriteFault where
  /-- An integer is too large for the format. -/
  | largeInteger
  /-- A text has too many quotes in a row. -/
  | longRun
  deriving DecidableEq

/-- The settings as a document, unless they hold an integer that is too large for one. -/
def document? (s : Settings) : Option String := do
  let blocks := (← s.timeoutBlocks?) ++ [← endpointBlock? s.endpoint, ← poolBlock? s.pool]
    ++ (s.certificates?.map certificatesBlock).toList
  return "\n".intercalate blocks

/-- The settings as a document. -/
def toToml (s : Settings) : Except WriteFault String :=
  match s.document? with
  | none => .error .largeInteger
  | some t => if s.texts.all Toml.Quoted.isWritable then .ok t else .error .longRun

/-- The settings that a document describes. -/
def ofToml? (text : String) : Option Settings := do
  ofDatum? .loose (Toml.Value.table .header (← Toml.Document.read? text)).toDatum

/-- Why settings could not be loaded. -/
inductive LoadError where
  /-- There is no file. -/
  | missing
  /-- The text is no document of the format, or describes no settings. -/
  | malformed
  /-- The settings are of no use. -/
  | invalid (f : Fault)
  deriving DecidableEq

/-- The settings that a document describes, if a client can work with them. -/
def load (text : String) : Except LoadError Settings :=
  match ofToml? text with
  | none => .error .malformed
  | some s => s.check.mapError .invalid

/-- The settings of a file, which has to exist. -/
def loadFile : Option String → Except LoadError Settings
  | none => .error .missing
  | some text => load text

/-- The settings of a file, or the standard ones if there is no file. -/
def loadOrStandard : Option String → Except LoadError Settings
  | none => .ok standard
  | some text => load text

end Settings

end GraphQuery
