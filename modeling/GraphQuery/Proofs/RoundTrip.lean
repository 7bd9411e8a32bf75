import GraphQuery.Proofs.Documents
import GraphQuery.Proofs.Sheets
import GraphQuery.Settings.Toml

/-!
# Settings are read as they were written

`Settings.load_toToml` says that settings can be written and loaded again: what
is read is what was written, whatever the texts in it are, unless the settings
have a fault, which the reader complains about just as a check of them does.
Only an integer that is too large for the format is in the way.

Settings are written as a `Sheet`, with a table for each part.  The two halves
meet at it:

* `document?_written`: the document consists of the lines of the sheet.  Parts
  that the settings do not have are left out.
* `ofDatum?_sheet`: from the table of the sheet the settings are read.  Parts that
  are missing get their standard value, which is that there is none.
-/

namespace GraphQuery

/-! ## Settings as tables -/

open Toml

/-- A member with a text, or none. -/
def optionalMember (key : String) (text? : Option String) : Table :=
  (text?.map fun s => (key, .string s)).toList

/-- The members of the table of an endpoint. -/
def Endpoint.members (e : Endpoint) : Table :=
  [("host", .string e.host), ("port", .integer e.portNumber.toNat)]

/-- The members of the table of the size of a pool. -/
def PoolSettings.members (p : PoolSettings) : Table :=
  [("workers", .integer p.workers.toNat), ("queue_capacity", .integer p.queueCapacity.toNat),
    ("max_attempts", .integer p.maxAttempts.toNat)]

/-- The members of the table of certificates. -/
def Certificates.members (c : Certificates) : Table :=
  [[("ca_cert", .string c.authority)], optionalMember "client_cert" c.client?,
    optionalMember "client_key" c.clientKey?, optionalMember "server_name" c.serverName?].flatten

/-- The sheet on which settings are written. -/
def Settings.sheet (s : Settings) : Sheet where
  members := (s.timeout?.map fun ms => ("default_timeout_ms", .integer ms.toNat)).toList
  sections := [("endpoint", s.endpoint.members), ("pipeline", s.pool.members)] ++
    (s.certificates?.map fun c => ("tls", c.members)).toList

/-- The integers that settings hold. -/
def Settings.integers (s : Settings) : List Nat :=
  (s.timeout?.map UInt64.toNat).toList ++ [s.endpoint.portNumber.toNat, s.pool.workers.toNat,
    s.pool.queueCapacity.toNat, s.pool.maxAttempts.toNat]

theorem Certificates.nodup_members (c : Certificates) : (c.members.map Prod.fst).Nodup := by
  obtain ⟨authority, client?, clientKey?, serverName?⟩ := c
  cases client? <;> cases clientKey? <;> cases serverName? <;> simp [members, optionalMember]

/-- No name is written twice in one table. -/
theorem Settings.isProper_sheet (s : Settings) : s.sheet.IsProper where
  table := by
    cases htimeout : s.timeout? <;> cases hcertificates : s.certificates? <;>
      simp [sheet, Sheet.table, htimeout, hcertificates]
  sections t ht := by
    rw [sheet, List.mem_append, Option.mem_toList, Option.map_eq_some_iff] at ht
    rcases ht with ht | ⟨c, -, rfl⟩
    · rcases List.mem_pair.mp ht with rfl | rfl
      · simp [Endpoint.members]
      · simp [PoolSettings.members]
    · exact c.nodup_members

/-! ## The tables are read -/

namespace Datum

theorem natBelow?_natCast {n bound : Nat} (h : n < bound) :
    natBelow? bound (.integer n) = some n := by
  have hbounds : (0 : Int) ≤ n ∧ (n : Int) < bound := ⟨Int.natCast_nonneg n, Int.ofNat_lt.mpr h⟩
  rw [natBelow?, if_pos hbounds, Int.toNat_natCast]

/-- A part that is there exactly where the option is. -/
theorem partOr_optional {α β : Type} {f : Datum → Option β} {g : α → Datum} {b : α → β}
    (hread : ∀ a, f (g a) = some (b a)) (hpresent : ∀ a, g a ≠ absent) (o : Option α) :
    partOr (optional? f) none (o.map g) = some (o.map b) := by
  cases o with
  | none => rfl
  | some a =>
    rw [Option.map_some, partOr, optional?.eq_def]
    split
    next heq => exact absurd heq (hpresent a)
    next => rw [hread]; rfl

end Datum

/-- The datum of a table. -/
def Toml.Table.toDatum (t : Table) : Datum := (Value.table .header t).toDatum

theorem Endpoint.ofDatum?_members (e : Endpoint) :
    ofDatum? .loose (Table.toDatum e.members) = some e := by
  have hhost : (Table.toDatum e.members).part? "host" 0 = some (.text e.host) := rfl
  have hport : (Table.toDatum e.members).part? "port" 1 = some (.integer e.portNumber.toNat) := rfl
  rw [ofDatum?, hhost, hport, Datum.partOr, Datum.partOr,
    Datum.natBelow?_natCast e.portNumber.toNat_lt_size]
  simp [Table.toDatum, Value.toDatum, Datum.isRecord, Datum.text?]

theorem PoolSettings.ofDatum?_members (p : PoolSettings) :
    ofDatum? .loose (Table.toDatum p.members) = some p := by
  have hworkers : (Table.toDatum p.members).part? "workers" 0 =
      some (.integer p.workers.toNat) := rfl
  have hcapacity : (Table.toDatum p.members).part? "queue_capacity" 1 =
      some (.integer p.queueCapacity.toNat) := rfl
  have hattempts : (Table.toDatum p.members).part? "max_attempts" 2 =
      some (.integer p.maxAttempts.toNat) := rfl
  rw [ofDatum?, hworkers, hcapacity, hattempts, Datum.partOr, Datum.partOr, Datum.partOr,
    Datum.natBelow?_natCast p.workers.toNat_lt_size,
    Datum.natBelow?_natCast p.queueCapacity.toNat_lt_size,
    Datum.natBelow?_natCast p.maxAttempts.toNat_lt_size]
  simp [Table.toDatum, Value.toDatum, Datum.isRecord]

/-- What certificates do not have is left out, and is read as missing. -/
theorem Certificates.ofDatum?_members (c : Certificates) :
    ofDatum? .loose (Table.toDatum c.members) = some c := by
  obtain ⟨authority, client?, clientKey?, serverName?⟩ := c
  cases client? <;> cases clientKey? <;> cases serverName? <;> rfl

namespace Settings

variable {s : Settings}

/-- The parts of settings stand under their names, and those that they do not have are missing. -/
theorem part?_sheet (s : Settings) :
    (Table.toDatum s.sheet.table).part? "default_timeout_ms" 0 =
        s.timeout?.map (fun ms => .integer ms.toNat) ∧
      (Table.toDatum s.sheet.table).part? "endpoint" 1 =
        some (Table.toDatum s.endpoint.members) ∧
      (Table.toDatum s.sheet.table).part? "pipeline" 2 = some (Table.toDatum s.pool.members) ∧
      (Table.toDatum s.sheet.table).part? "tls" 3 =
        s.certificates?.map fun c => Table.toDatum c.members := by
  obtain ⟨timeout?, endpoint, pool, certificates?⟩ := s
  cases timeout? <;> cases certificates? <;> exact ⟨rfl, rfl, rfl, rfl⟩

/-- Settings are read from the table that they are written as. -/
theorem ofDatum?_sheet (s : Settings) : ofDatum? .loose (Table.toDatum s.sheet.table) = some s := by
  obtain ⟨htimeout, hendpoint, hpool, hcertificates⟩ := part?_sheet s
  have htimeout? := Datum.partOr_optional
    (fun ms : UInt64 => Datum.natBelow?_natCast ms.toNat_lt_size)
    (fun _ => Datum.noConfusion) s.timeout?
  have hcertificates? := Datum.partOr_optional Certificates.ofDatum?_members
    (fun _ => Datum.noConfusion) s.certificates?
  have hback : UInt64.ofNat ∘ UInt64.toNat = id := funext fun _ => UInt64.ofNat_toNat
  rw [ofDatum?, htimeout, hendpoint, hpool, hcertificates, htimeout?, hcertificates?,
    Datum.partOr, Datum.partOr, s.endpoint.ofDatum?_members, s.pool.ofDatum?_members]
  simp [Table.toDatum, Value.toDatum, Datum.isRecord, hback]

/-! ## The tables are written -/

variable {key name : String} {n : Nat}

theorem integerLine?_of_le (h : (n : Int) ≤ Int64.maxValue.toInt) :
    integerLine? key n = some (line key (toString n)) := if_pos h

theorem integerLine?_of_lt (h : Int64.maxValue.toInt < n) : integerLine? key n = none :=
  if_neg (Int.not_le.mpr h)

theorem lines_integer (hkey : IsBareName key) (h : (n : Int) ≤ Int64.maxValue.toInt) :
    Lines (line key (toString n)) (assignments [(key, .integer n)]) :=
  Lines.assignment hkey (Value.isWritten_integer h)

theorem lines_text (hkey : IsBareName key) (value : String) :
    Lines (textLine key value) (assignments [(key, .string value)]) :=
  Lines.assignment hkey (Value.isWritten_string value)

theorem lines_optional (hkey : IsBareName key) (value? : Option String) :
    Lines (optionalLine key value?) (assignments (optionalMember key value?)) := by
  cases value? with
  | none => exact Lines.empty
  | some value => exact lines_text hkey value

/-- A table is written as its header and the lines of its members. -/
theorem lines_section (hname : IsBareName name) {lines : List String} (members : List Table)
    (h : List.Forall₂ (fun l ms => Lines l (assignments ms)) lines members) :
    Lines (tableText name lines) (Sheet.sectionExpressions (name, members.flatten)) := by
  have hjoin := Lines.join (List.forall₂_map_right_iff.mpr h)
  have hflatten : (members.map assignments).flatten = assignments members.flatten := by
    rw [assignments, List.map_flatten]
    rfl
  rw [hflatten] at hjoin
  exact (Lines.header hname).append hjoin

theorem endpointBlock?_written (e : Endpoint)
    (h : (e.portNumber.toNat : Int) ≤ Int64.maxValue.toInt) :
    ∃ text, endpointBlock? e = some text ∧
      Lines text (Sheet.sectionExpressions ("endpoint", e.members)) := by
  have hblock : endpointBlock? e = some (tableText "endpoint" [textLine "host" e.host,
      line "port" (toString e.portNumber.toNat)]) := by
    rw [endpointBlock?, integerLine?_of_le h]
    rfl
  exact ⟨_, hblock, lines_section (by decide) [[_], [_]]
    (.cons (lines_text (by decide) _) (.cons (lines_integer (by decide) h) .nil))⟩

theorem poolBlock?_written (p : PoolSettings)
    (hworkers : (p.workers.toNat : Int) ≤ Int64.maxValue.toInt)
    (hcapacity : (p.queueCapacity.toNat : Int) ≤ Int64.maxValue.toInt)
    (hattempts : (p.maxAttempts.toNat : Int) ≤ Int64.maxValue.toInt) :
    ∃ text, poolBlock? p = some text ∧
      Lines text (Sheet.sectionExpressions ("pipeline", p.members)) := by
  have hblock : poolBlock? p = some (tableText "pipeline"
      [line "workers" (toString p.workers.toNat),
        line "queue_capacity" (toString p.queueCapacity.toNat),
        line "max_attempts" (toString p.maxAttempts.toNat)]) := by
    rw [poolBlock?, integerLine?_of_le hworkers, integerLine?_of_le hcapacity,
      integerLine?_of_le hattempts]
    rfl
  exact ⟨_, hblock, lines_section (by decide) [[_], [_], [_]]
    (.cons (lines_integer (by decide) hworkers) (.cons (lines_integer (by decide) hcapacity)
      (.cons (lines_integer (by decide) hattempts) .nil)))⟩

theorem certificatesBlock_written (c : Certificates) :
    Lines (certificatesBlock c) (Sheet.sectionExpressions ("tls", c.members)) :=
  lines_section (by decide) _ (.cons (lines_text (by decide) _)
    (.cons (lines_optional (by decide) _) (.cons (lines_optional (by decide) _)
      (.cons (lines_optional (by decide) _) .nil))))

theorem timeoutBlocks?_written (h : ∀ ms ∈ s.timeout?, (ms.toNat : Int) ≤ Int64.maxValue.toInt) :
    ∃ blocks ess, s.timeoutBlocks? = some blocks ∧ List.Forall₂ Lines blocks ess ∧
      ess.flatten = assignments s.sheet.members := by
  rw [timeoutBlocks?, sheet]
  cases htimeout : s.timeout? with
  | none => exact ⟨[], [], rfl, .nil, rfl⟩
  | some ms =>
    have hms := h ms htimeout
    refine ⟨_, _, ?_, .cons (lines_integer (by decide) hms) .nil, rfl⟩
    show (integerLine? "default_timeout_ms" ms.toNat).map _ = _
    rw [integerLine?_of_le hms]
    rfl

/-- Settings whose integers fit are written as the lines of their sheet. -/
theorem document?_written (h : ∀ n ∈ s.integers, (n : Int) ≤ Int64.maxValue.toInt) :
    ∃ text, s.document? = some text ∧ Lines text s.sheet.expressions := by
  rw [integers, List.forall_mem_append] at h
  obtain ⟨htimeout, hrest⟩ := h
  simp only [List.forall_mem_cons] at hrest
  obtain ⟨hport, hworkers, hcapacity, hattempts, -⟩ := hrest
  obtain ⟨blocks, ess, hblocks, hlines, hflatten⟩ := timeoutBlocks?_written (s := s)
    fun ms hms => htimeout _ (by simp [Option.mem_def.mp hms])
  obtain ⟨endpoint, hendpoint, hendpointLines⟩ := endpointBlock?_written s.endpoint hport
  obtain ⟨pool, hpool, hpoolLines⟩ := poolBlock?_written s.pool hworkers hcapacity hattempts
  have hcertificates : List.Forall₂ Lines (s.certificates?.map certificatesBlock).toList
      (s.certificates?.map fun c => Sheet.sectionExpressions ("tls", c.members)).toList := by
    cases s.certificates? with
    | none => exact .nil
    | some c => exact .cons (certificatesBlock_written c) .nil
  have hall := List.rel_append (List.rel_append hlines
    (.cons hendpointLines (.cons hpoolLines .nil))) hcertificates
  have hexpressions : (ess ++ [Sheet.sectionExpressions ("endpoint", s.endpoint.members),
      Sheet.sectionExpressions ("pipeline", s.pool.members)] ++
      (s.certificates?.map fun c => Sheet.sectionExpressions ("tls", c.members)).toList).flatten =
        s.sheet.expressions := by
    rw [List.flatten_append, List.flatten_append, hflatten, Sheet.expressions]
    cases hcertificates? : s.certificates?
    all_goals simp [sheet, hcertificates?]
  refine ⟨_, ?_, hexpressions ▸ Lines.intercalate hall⟩
  rw [document?, hblocks, hendpoint, hpool]
  rfl

/-- An integer that is too large is in the way of a document. -/
theorem document?_eq_none (h : ∃ n ∈ s.integers, Int64.maxValue.toInt < n) :
    s.document? = none := by
  obtain ⟨n, hn, hlarge⟩ := h
  rw [integers, List.mem_append, Option.mem_toList, Option.map_eq_some_iff] at hn
  rcases hn with ⟨ms, hms, rfl⟩ | hn
  · simp [document?, timeoutBlocks?, hms, integerLine?_of_lt hlarge]
  simp only [List.mem_cons, List.not_mem_nil, or_false] at hn
  rcases hn with rfl | rfl | rfl | rfl
  · simp [document?, endpointBlock?, integerLine?_of_lt hlarge]
  · simp [document?, poolBlock?, integerLine?_of_lt hlarge]
  · simp [document?, poolBlock?, integerLine?_of_lt hlarge]
  · simp [document?, poolBlock?, integerLine?_of_lt hlarge]

/-- What is written as the lines of a sheet of settings is read as the settings. -/
theorem ofToml?_written {text : String} (h : Lines text s.sheet.expressions) :
    ofToml? text = some s := by
  have hread : Document.read? text = some s.sheet.table :=
    h.read?.trans (Sheet.ofExpressions?_expressions s.isProper_sheet)
  rw [ofToml?, hread]
  exact ofDatum?_sheet s

/-- A check that succeeds gives the settings themselves. -/
theorem check_eq_ok {c : Settings} (h : s.check = .ok c) : s.check = .ok s := by
  rw [check] at h ⊢
  split at h
  next => rfl
  next => cases h

/-- Settings that are written can be loaded again. If no integer is too large for the format there
is a document, and reading it gives the settings, or the fault that a check of them finds; and an
integer that is too large is refused when it is written.

That the format can write each of the texts is assumed: what writes a string keeps count of the
quotes in it and gives up when there are too many in a row. -/
theorem load_toToml (s : Settings) :
    ((∀ n ∈ s.integers, (n : Int) ≤ Int64.maxValue.toInt) →
      (∀ t ∈ s.texts, Quoted.isWritable t) →
      ∃ text, s.toToml = .ok text ∧ (∀ c, s.check = .ok c → load text = .ok s) ∧
        ∀ f, s.check = .error f → load text = .error (.invalid f)) ∧
    ((∃ n ∈ s.integers, Int64.maxValue.toInt < n) → s.toToml = .error .largeInteger) := by
  constructor
  · intro hintegers htexts
    obtain ⟨text, hdocument, hlines⟩ := document?_written hintegers
    have hload : load text = s.check.mapError .invalid := by
      rw [load, ofToml?_written hlines]
    refine ⟨text, ?_, ?_, ?_⟩
    · rw [toToml, hdocument]
      exact if_pos (List.all_eq_true.mpr htexts)
    · intro c hc
      rw [hload, check_eq_ok hc]
      rfl
    · intro f hf
      rw [hload, hf]
      rfl
  · intro h
    rw [toToml, document?_eq_none h]

/-- Settings with a text for every form of a string, and with some certificates only. -/
def awkward : Settings where
  timeout? := some 1500
  endpoint := ⟨"it's \"here\"\x07", 9080⟩
  pool := .throughput
  certificates? := some ⟨"c:\\ca.pem", some "first\r\nsecond", none, some "\"\"\"third\"\"\"\n"⟩

theorem load_toToml_awkward :
    (∃ text, awkward.toToml = .ok text ∧ load text = .ok awkward) ∧
    (∃ text, { awkward with endpoint := ⟨" ", 0⟩ }.toToml = .ok text ∧
      load text = .error (.invalid .emptyHost)) ∧
    { awkward with timeout? := some 0x8000000000000000 }.toToml = .error .largeInteger := by
  obtain ⟨text, htext, hload, -⟩ := (load_toToml awkward).1 (by decide) (by decide)
  obtain ⟨blank, hblank, -, hfault⟩ :=
    (load_toToml { awkward with endpoint := ⟨" ", 0⟩ }).1 (by decide) (by decide)
  refine ⟨⟨text, htext, hload awkward (by decide)⟩, ⟨blank, hblank, hfault _ (by decide)⟩, ?_⟩
  exact (load_toToml { awkward with timeout? := some 0x8000000000000000 }).2
    ⟨0x8000000000000000, by decide, by decide⟩

end Settings

end GraphQuery
