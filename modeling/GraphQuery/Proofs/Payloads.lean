import GraphQuery.Statement
import Mathlib

/-!
# What comes of a mutation

A query becomes a mutation with its first payload, and a mutation can be built
as such from the start.  The building steps never fail: a payload that could
not be encoded leaves its message behind, and everything else is looked at in
the end.  What the statement is then depends on the payloads alone, in the
order in which they were given, and on nothing else that the steps did.

* `payloads_build`, `encodingError?_build` and `operation_build` say what a run
  of building steps leaves in a query.
* `ComesOf` lists the outcomes in the order in which they take precedence: a
  failed encoding, no payload, payloads of both kinds, a statement.
* `ComesOf.compile_eq` says that these are the outcomes of a mutation.
-/

namespace GraphQuery

/-- A payload as it was given: as JSON, or with the error by which its encoding failed. -/
structure Encoding where
  kind : MutationKind
  result : Except Error Json

/-- What is left of a payload that could be encoded. -/
def Encoding.payload? (e : Encoding) : Option Payload :=
  match e.result with
  | .ok json => some ⟨e.kind, json⟩
  | .error _ => none

/-- What is left of a payload that could not be encoded. -/
def Encoding.message? (e : Encoding) : Option String :=
  match e.result with
  | .ok _ => none
  | .error e => some e.message

/-- A payload that could be encoded, as it was given. -/
def Payload.encoding (p : Payload) : Encoding := ⟨p.kind, .ok p.json⟩

theorem Payload.filterMap_encoding (ps : List Payload) :
    (ps.map encoding).filterMap Encoding.payload? = ps := by
  rw [List.filterMap_map]
  exact List.filterMap_some

theorem Payload.findSome?_encoding (ps : List Payload) :
    (ps.map encoding).findSome? Encoding.message? = none := by
  simp [encoding, Encoding.message?]

/-- The first payload that could not be encoded is found behind those that could. -/
theorem Payload.findSome?_encoding_append {ps : List Payload} {kind : MutationKind} {e : Error}
    {after : List Encoding} :
    (ps.map encoding ++ ⟨kind, .error e⟩ :: after).findSome? Encoding.message? =
      some e.message := by
  rw [List.findSome?_append, findSome?_encoding]
  rfl

/-- Either every payload could be encoded, or there is a first one that could not. -/
theorem Encoding.split (given : List Encoding) :
    (∃ ps : List Payload, given = ps.map Payload.encoding) ∨
      ∃ (ps : List Payload) (kind : MutationKind) (e : Error) (after : List Encoding),
        given = ps.map Payload.encoding ++ ⟨kind, .error e⟩ :: after := by
  induction given with
  | nil => exact Or.inl ⟨[], rfl⟩
  | cons x given ih =>
    obtain ⟨kind, result⟩ := x
    cases result with
    | error e => exact Or.inr ⟨[], kind, e, given, rfl⟩
    | ok json =>
      rcases ih with ⟨ps, rfl⟩ | ⟨ps, kind', e, after, rfl⟩
      · exact Or.inl ⟨⟨kind, json⟩ :: ps, rfl⟩
      · exact Or.inr ⟨⟨kind, json⟩ :: ps, kind', e, after, rfl⟩

namespace Query

/-! ## What the steps leave behind -/

/-- The payload that a step gives. -/
def Step.encoding? : Step → Option Encoding
  | .mutate kind result => some ⟨kind, result⟩
  | _ => none

/-- The payloads that the steps give, in their order. -/
def encodings (steps : List Step) : List Encoding := steps.filterMap Step.encoding?

variable {q : Query} {s : Step}

theorem encodings_cons {steps : List Step} :
    encodings (s :: steps) = s.encoding?.toList ++ encodings steps := by
  cases h : s.encoding? with
  | none => simp [encodings, h]
  | some e => simp [encodings, h]

theorem payloads_apply : (q.apply s).payloads =
    q.payloads ++ s.encoding?.toList.filterMap Encoding.payload? := by
  cases s with
  | mutate kind result => cases result <;> simp [apply, mutate, Step.encoding?, Encoding.payload?]
  | name | root | select | modify | direct | standalone => simp [apply, Step.encoding?]

/-- The message of an earlier failure is kept. -/
theorem encodingError?_apply : (q.apply s).encodingError? =
    q.encodingError?.or (s.encoding?.toList.findSome? Encoding.message?) := by
  cases s with
  | mutate kind result =>
    cases result <;> cases h : q.encodingError? <;>
      simp [apply, mutate, Step.encoding?, Encoding.message?, h]
  | name | root | select | modify | direct | standalone => simp [apply, Step.encoding?]

theorem operation_apply : (q.apply s).operation =
    if s.encoding?.isSome then .mutation else q.operation := by
  cases s with
  | mutate kind result => cases result <;> rfl
  | name | root | select | modify | direct | standalone => rfl

theorem payloads_build (steps : List Step) : (q.build steps).payloads =
    q.payloads ++ (encodings steps).filterMap Encoding.payload? := by
  induction steps generalizing q with
  | nil => simp [build, encodings]
  | cons s steps ih =>
    show ((q.apply s).build steps).payloads = _
    rw [ih, payloads_apply, encodings_cons, List.filterMap_append, List.append_assoc]

theorem encodingError?_build (steps : List Step) : (q.build steps).encodingError? =
    q.encodingError?.or ((encodings steps).findSome? Encoding.message?) := by
  induction steps generalizing q with
  | nil => simp [build, encodings]
  | cons s steps ih =>
    show ((q.apply s).build steps).encodingError? = _
    rw [ih, encodingError?_apply, encodings_cons, List.findSome?_append, Option.or_assoc]

theorem operation_build (steps : List Step) : (q.build steps).operation =
    if encodings steps = [] then q.operation else .mutation := by
  induction steps generalizing q with
  | nil => rfl
  | cons s steps ih =>
    show ((q.apply s).build steps).operation = _
    rw [ih, operation_apply, encodings_cons]
    cases s.encoding? with
    | none => rfl
    | some e => simp

/-- The steps end in a mutation: it was one from the start, or a payload is given. -/
def EndsInMutation (start : Query) (steps : List Step) : Prop :=
  start = .emptyMutation ∨ start = .empty ∧ encodings steps ≠ []

variable {start : Query} {steps : List Step}

/-- A mutation has the payloads that were given and the message of the first that failed. -/
theorem EndsInMutation.build (h : EndsInMutation start steps) :
    (start.build steps).operation = .mutation ∧
      (start.build steps).payloads = (encodings steps).filterMap Encoding.payload? ∧
      (start.build steps).encodingError? = (encodings steps).findSome? Encoding.message? := by
  rw [operation_build, payloads_build, encodingError?_build]
  rcases h with rfl | ⟨rfl, hne⟩
  · exact ⟨ite_self _, rfl, rfl⟩
  · exact ⟨if_neg hne, rfl, rfl⟩

/-! ## The statement of a mutation -/

theorem check_of_encodingError {message : String} (h : q.encodingError? = some message) :
    q.check = .error (.serialization message) := by
  rw [check, h]

theorem check_of_mutation (hq : q.operation = .mutation) (h : q.encodingError? = none) :
    q.check = q.checkMutation := by
  rw [check, h, hq]

/-- A mutation that passes its check is compiled to its statement. -/
theorem compile_of_mutation (hq : q.operation = .mutation) :
    q.compile = q.check >>= fun _ => q.mutationStatement := by
  rw [compile, hq]

/-- Payloads of one kind pass the check, and so do no others. -/
theorem checkMutation_of_kind {kind : MutationKind} (hne : q.payloads ≠ [])
    (h : ∀ p ∈ q.payloads, p.kind = kind) : q.checkMutation = .ok () := by
  rw [checkMutation]
  cases hps : q.payloads with
  | nil => exact absurd hps hne
  | cons first rest =>
    rw [hps] at h
    obtain ⟨hfirst, hrest⟩ := List.forall_mem_cons.mp h
    simpa [hfirst] using hrest

theorem checkMutation_of_kinds (hset : ∃ p ∈ q.payloads, p.kind = .set)
    (hdelete : ∃ p ∈ q.payloads, p.kind = .delete) :
    q.checkMutation = .error .mixedMutation := by
  rw [checkMutation]
  cases hps : q.payloads with
  | nil =>
    rw [hps] at hset
    simp at hset
  | cons first rest =>
    rw [hps] at hset hdelete
    simp only [Verdict.ofBool_eq_error_iff, and_true, List.all_eq_false, beq_iff_eq]
    cases hfirst : first.kind with
    | set =>
      obtain ⟨p, hp, hkind⟩ := hdelete
      exact ⟨p, List.mem_of_ne_of_mem (fun h => by simp [h, hfirst] at hkind) hp, by simp [hkind]⟩
    | delete =>
      obtain ⟨p, hp, hkind⟩ := hset
      exact ⟨p, List.mem_of_ne_of_mem (fun h => by simp [h, hfirst] at hkind) hp, by simp [hkind]⟩

theorem mutationStatement_of_kind {kind : MutationKind} (hne : q.payloads ≠ [])
    (h : ∀ p ∈ q.payloads, p.kind = kind) :
    q.mutationStatement = .ok ⟨kind.statementKind, q.payloadText, []⟩ := by
  obtain ⟨first, hfirst⟩ := Option.ne_none_iff_exists'.mp (mt List.head?_eq_none_iff.mp hne)
  have hkind : q.mutationKind? = some kind := by
    rw [mutationKind?, hfirst, Option.map_some, h first (List.mem_of_head? hfirst)]
  rw [mutationStatement, hkind]

theorem payloadText_of_several (h : 2 ≤ q.payloads.length) : q.payloadText =
    "[" ++ ",".intercalate (q.payloads.map fun p => p.json.text) ++ "]" := by
  have hmap : ∀ ps : List Payload, (Json.array (ps.map Payload.json)).text =
      "[" ++ ",".intercalate (ps.map fun p => p.json.text) ++ "]" := by
    intro ps
    rw [Json.text, Json.itemTexts_eq_map, List.map_map]
    rfl
  rw [payloadText]
  split
  next p hps =>
    rw [hps] at h
    simp at h
  next => exact hmap q.payloads

/-- What comes of a mutation that was given these payloads. -/
inductive ComesOf : List Encoding → Except Error Statement → Prop where
  /-- The first payload that could not be encoded is reported, whatever comes behind it. -/
  | failed {ps : List Payload} {kind : MutationKind} {e : Error} {after : List Encoding} :
    ComesOf (ps.map Payload.encoding ++ ⟨kind, .error e⟩ :: after)
      (.error (.serialization e.message))
  | empty : ComesOf [] (.error .emptyMutation)
  | mixed {ps : List Payload} (hset : ∃ p ∈ ps, p.kind = .set)
    (hdelete : ∃ p ∈ ps, p.kind = .delete) :
    ComesOf (ps.map Payload.encoding) (.error .mixedMutation)
  /-- A single payload is written as it is. -/
  | single {p : Payload} :
    ComesOf [p.encoding] (.ok ⟨p.kind.statementKind, p.json.text, []⟩)
  /-- Several payloads of one kind are written as an array. -/
  | several {ps : List Payload} {kind : MutationKind} (htwo : 2 ≤ ps.length)
    (hkind : ∀ p ∈ ps, p.kind = kind) :
    ComesOf (ps.map Payload.encoding)
      (.ok ⟨kind.statementKind, "[" ++ ",".intercalate (ps.map fun p => p.json.text) ++ "]", []⟩)

/-- Payloads are all of one kind, or both kinds occur. -/
theorem kind_or_kinds (ps : List Payload) : (∃ kind, ∀ p ∈ ps, p.kind = kind) ∨
    (∃ p ∈ ps, p.kind = .set) ∧ ∃ p ∈ ps, p.kind = .delete := by
  by_cases hset : ∃ p ∈ ps, p.kind = .set
  · by_cases hdelete : ∃ p ∈ ps, p.kind = .delete
    · exact Or.inr ⟨hset, hdelete⟩
    · refine Or.inl ⟨.set, fun p hp => ?_⟩
      cases hkind : p.kind with
      | set => rfl
      | delete => exact absurd ⟨p, hp, hkind⟩ hdelete
  · refine Or.inl ⟨.delete, fun p hp => ?_⟩
    cases hkind : p.kind with
    | set => exact absurd ⟨p, hp, hkind⟩ hset
    | delete => rfl

/-- Something comes of every list of payloads. -/
theorem exists_comesOf (given : List Encoding) : ∃ outcome, ComesOf given outcome := by
  rcases Encoding.split given with ⟨ps, rfl⟩ | ⟨ps, kind, e, after, rfl⟩
  · match ps with
    | [] => exact ⟨_, .empty⟩
    | [p] => exact ⟨_, .single⟩
    | p :: p' :: rest =>
      rcases kind_or_kinds (p :: p' :: rest) with ⟨kind, hkind⟩ | ⟨hset, hdelete⟩
      · exact ⟨_, .several (by simp) hkind⟩
      · exact ⟨_, .mixed hset hdelete⟩
  · exact ⟨_, .failed⟩

/-- Payloads that could be encoded are compiled when they pass the check. -/
theorem EndsInMutation.compile_eq_of_encoded {ps : List Payload} (h : EndsInMutation start steps)
    (hgiven : encodings steps = ps.map Payload.encoding) :
    (start.build steps).payloads = ps ∧ (start.build steps).compile =
      (start.build steps).checkMutation >>= fun _ => (start.build steps).mutationStatement := by
  obtain ⟨hoperation, hpayloads, herror⟩ := h.build
  rw [hgiven, Payload.filterMap_encoding] at hpayloads
  rw [hgiven, Payload.findSome?_encoding] at herror
  rw [compile_of_mutation hoperation, check_of_mutation hoperation herror]
  exact ⟨hpayloads, rfl⟩

/-- A mutation with payloads of one kind is compiled to its statement. -/
theorem EndsInMutation.compile_eq_of_kind {ps : List Payload} {kind : MutationKind}
    (h : EndsInMutation start steps) (hgiven : encodings steps = ps.map Payload.encoding)
    (hne : ps ≠ []) (hkind : ∀ p ∈ ps, p.kind = kind) :
    (start.build steps).compile =
      .ok ⟨kind.statementKind, (start.build steps).payloadText, []⟩ := by
  obtain ⟨hpayloads, hcompile⟩ := h.compile_eq_of_encoded hgiven
  rw [← hpayloads] at hne hkind
  rw [hcompile, checkMutation_of_kind hne hkind, mutationStatement_of_kind hne hkind]
  rfl

/-- A mutation is compiled to what comes of its payloads. -/
theorem ComesOf.compile_eq {outcome : Except Error Statement} (h : EndsInMutation start steps)
    (houtcome : ComesOf (encodings steps) outcome) : (start.build steps).compile = outcome := by
  generalize hgiven : encodings steps = given at houtcome
  cases houtcome with
  | failed =>
    obtain ⟨hoperation, -, herror⟩ := h.build
    rw [hgiven, Payload.findSome?_encoding_append] at herror
    rw [compile_of_mutation hoperation, check_of_encodingError herror]
    rfl
  | empty =>
    have hgiven' : encodings steps = ([] : List Payload).map Payload.encoding := hgiven
    obtain ⟨hpayloads, hcompile⟩ := h.compile_eq_of_encoded hgiven'
    rw [hcompile, checkMutation, hpayloads]
    rfl
  | mixed hset hdelete =>
    obtain ⟨hpayloads, hcompile⟩ := h.compile_eq_of_encoded hgiven
    rw [← hpayloads] at hset hdelete
    rw [hcompile, checkMutation_of_kinds hset hdelete]
    rfl
  | @single p =>
    have hgiven' : encodings steps = [p].map Payload.encoding := hgiven
    have hkind : ∀ p' ∈ [p], p'.kind = p.kind := by simp
    obtain ⟨hpayloads, -⟩ := h.compile_eq_of_encoded hgiven'
    rw [h.compile_eq_of_kind hgiven' (List.cons_ne_nil _ _) hkind, payloadText, hpayloads]
  | several htwo hkind =>
    obtain ⟨hpayloads, -⟩ := h.compile_eq_of_encoded hgiven
    have hne := List.ne_nil_of_length_pos (Nat.lt_of_lt_of_le Nat.zero_lt_two htwo)
    rw [h.compile_eq_of_kind hgiven hne hkind, payloadText_of_several (hpayloads ▸ htwo),
      hpayloads]

/-- Nothing comes of a mutation but changes to the graph. -/
theorem ComesOf.isMutation {given : List Encoding} {st : Statement}
    (h : ComesOf given (.ok st)) : st.isMutation = true := by
  have hkind : ∀ kind : MutationKind, (kind.statementKind != .query) = true := by
    intro kind
    cases kind <;> rfl
  cases h with
  | single | several => exact hkind _

/-- A mutation is compiled to what comes of the payloads that it was given, and to nothing else.
It is no query, and what else it was built of has no influence. -/
theorem mutation_comesOf (h : EndsInMutation start steps) :
    (∀ outcome, (start.build steps).compile = outcome ↔ ComesOf (encodings steps) outcome) ∧
      (∀ st, (start.build steps).compile = .ok st → st.isMutation = true) ∧
      ∀ start' steps', EndsInMutation start' steps' → encodings steps' = encodings steps →
        (start'.build steps').compile = (start.build steps).compile := by
  obtain ⟨outcome, houtcome⟩ := exists_comesOf (encodings steps)
  have hcompile := houtcome.compile_eq h
  refine ⟨fun other => ⟨?_, ComesOf.compile_eq h⟩, ?_, ?_⟩
  · rintro rfl
    exact hcompile ▸ houtcome
  · intro st hst
    obtain rfl := hcompile.symm.trans hst
    exact houtcome.isMutation
  · intro start' steps' h' hsame
    rw [← hsame] at houtcome
    rw [houtcome.compile_eq h', hcompile]

/-- Two nodes that are deleted. -/
def removed : List Payload :=
  [⟨.delete, .object [("uid", .string "0x1")]⟩, ⟨.delete, .object [("uid", .string "0x2")]⟩]

/-- Steps that delete two nodes, in between of which the query gets a name that is none. -/
def removals : List Step :=
  [.mutate .delete (.ok (.object [("uid", .string "0x1")])), .name "~",
    .mutate .delete (.ok (.object [("uid", .string "0x2")]))]

theorem mutation_comesOf_removals : EndsInMutation .empty removals ∧
    (empty.build removals).compile = .ok ⟨.delete,
      "[\x7b\x22uid\x22:\x220x1\x22\x7d,\x7b\x22uid\x22:\x220x2\x22\x7d]", []⟩ := by
  have h : EndsInMutation .empty removals :=
    Or.inr ⟨rfl, show removed.map Payload.encoding ≠ [] from List.cons_ne_nil _ _⟩
  have htext : "[" ++ ",".intercalate (removed.map fun p => p.json.text) ++ "]" =
      "[\x7b\x22uid\x22:\x220x1\x22\x7d,\x7b\x22uid\x22:\x220x2\x22\x7d]" := by
    cbv
  have hkind : ∀ p ∈ removed, p.kind = .delete := by simp [removed]
  have houtcome := ComesOf.several (show 2 ≤ removed.length from Nat.le_refl 2) hkind
  rw [htext] at houtcome
  exact ⟨h, ((mutation_comesOf h).1 _).mpr houtcome⟩

end Query

end GraphQuery
