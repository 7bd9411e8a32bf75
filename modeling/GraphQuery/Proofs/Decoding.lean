import GraphQuery.Json.Reader
import GraphQuery.Proofs.Payloads
import GraphQuery.Proofs.Scanning

/-!
# Payloads are read back from a statement

The text of a mutation is a document: its only payload, or an array of its
payloads that is put together from their texts.  `Query.payloads_decode` says
that reading the document gives the payloads again, whatever strings are in
them and however deep they nest, as long as an array around them does not go
beyond what is read.

`Json.Exact.foldlM_tokens` is the step from tokens to documents.  It says what
the tokens of a value do to a reader that expects a value, whatever arrays and
objects are open at that point: the value is complete, and all else is as it
was.  The items of an array and the members of an object are read one after
the other with those in front of them on the stack.
-/

namespace GraphQuery

namespace Json

variable {levels : Nat} {j : Json}

/-! ## From tokens to documents -/

namespace Reader

variable {r : Reader} {stack : List Frame} {t : Token} {ts : List Token} {levels : Nat}

/-- There is room for so many arrays and objects inside of the open ones. -/
def Fits (r : Reader) (stack : List Frame) (levels : Nat) : Prop :=
  ∀ limit ∈ r.limit?, stack.length + levels ≤ limit

theorem Fits.hasRoom (h : r.Fits stack (levels + 1)) : r.hasRoom stack = true := by
  rw [Reader.hasRoom]
  cases hlimit : r.limit? with
  | none => rfl
  | some limit =>
    have hle := h limit hlimit
    exact decide_eq_true (by omega)

theorem Fits.inside (h : r.Fits stack (levels + 1)) (f : Frame) : r.Fits (f :: stack) levels := by
  intro limit hlimit
  have hle := h limit hlimit
  rw [List.length_cons]
  omega

/-- The first item of an array is read like one behind others. -/
theorem foldlM_firstItem (h : t ≠ .closeArray) :
    (t :: ts).foldlM step? (r.goTo stack .firstItem) =
      (t :: ts).foldlM step? (r.goTo (.array [] :: stack) .value) := by
  have hstep : (r.goTo stack .firstItem).step? t =
      (r.goTo (.array [] :: stack) .value).step? t := by
    cases t with
    | closeArray => exact absurd rfl h
    | openArray | openObject | closeObject | comma | colon | string | atom => rfl
  rw [List.foldlM_cons, List.foldlM_cons, hstep]

/-- The items of an array are read behind others when each is read as a value. -/
theorem foldlM_items {item : Json} {items : List Json} (before : List Json)
    (h : ∀ x ∈ item :: items, ∀ before, x.tokens.foldlM step?
      (r.goTo (.array before :: stack) .value) =
        some (r.goTo (.array before :: stack) (.complete x))) :
    ([Token.comma].intercalate (tokens.itemTokens (item :: items)) ++ [Token.closeArray]).foldlM
        step? (r.goTo (.array before :: stack) .value) =
      some (r.goTo stack (.complete (.array (before.reverse ++ item :: items)))) := by
  obtain ⟨hitem, hitems⟩ := List.forall_mem_cons.mp h
  induction items generalizing item before with
  | nil =>
    rw [tokens.itemTokens, tokens.itemTokens, List.intercalate_singleton, List.foldlM_append,
      hitem before, ← List.reverse_cons]
    rfl
  | cons next items ih =>
    obtain ⟨hnext, hrest⟩ := List.forall_mem_cons.mp hitems
    have hbehind := ih (item :: before) hitems hnext hrest
    rw [List.reverse_cons, List.append_assoc] at hbehind
    rw [tokens.itemTokens, tokens.itemTokens, List.intercalate_cons_cons, List.append_assoc,
      List.append_assoc, List.foldlM_append, hitem before]
    exact hbehind

/-- The members of an object are read behind others when each value is read. -/
theorem foldlM_members {m : String × Json} {members : List (String × Json)}
    (before : List (String × Json)) (h : ∀ x ∈ m :: members, ∀ before, x.2.tokens.foldlM step?
      (r.goTo (.object before x.1 :: stack) .value) =
        some (r.goTo (.object before x.1 :: stack) (.complete x.2))) :
    ([Token.comma].intercalate (tokens.memberTokens (m :: members)) ++ [Token.closeObject]).foldlM
        step? (r.goTo stack (.key before)) =
      some (r.goTo stack (.complete (.object (before.reverse ++ m :: members)))) := by
  obtain ⟨hm, hmembers⟩ := List.forall_mem_cons.mp h
  have hfirst : (Token.string m.1 :: .colon :: m.2.tokens).foldlM step?
      (r.goTo stack (.key before)) =
        some (r.goTo (.object before m.1 :: stack) (.complete m.2)) := hm before
  induction members generalizing m before with
  | nil =>
    rw [tokens.memberTokens, tokens.memberTokens, List.intercalate_singleton, List.foldlM_append,
      hfirst, ← List.reverse_cons]
    rfl
  | cons next members ih =>
    obtain ⟨hnext, hrest⟩ := List.forall_mem_cons.mp hmembers
    have hbehind := ih (m :: before) hmembers hnext hrest (hnext (m :: before))
    rw [List.reverse_cons, List.append_assoc] at hbehind
    rw [tokens.memberTokens, tokens.memberTokens, List.intercalate_cons_cons, List.append_assoc,
      List.append_assoc, List.foldlM_append, hfirst]
    exact hbehind

end Reader

open Reader

/-- No value begins with the end of an array, and neither do the items of one. -/
theorem exists_tokens (j : Json) : ∃ t ts, j.tokens = t :: ts ∧ t ≠ .closeArray := by
  cases j with
  | null | bool | number | string | array | object => exact ⟨_, _, rfl, Token.noConfusion⟩

theorem exists_itemTokens (item : Json) (items : List Json) : ∃ t ts,
    [Token.comma].intercalate (tokens.itemTokens (item :: items)) = t :: ts ∧ t ≠ .closeArray := by
  obtain ⟨t, ts, htokens, hne⟩ := item.exists_tokens
  cases items with
  | nil =>
    rw [tokens.itemTokens, tokens.itemTokens, List.intercalate_singleton, htokens]
    exact ⟨t, ts, rfl, hne⟩
  | cons next items =>
    rw [tokens.itemTokens, tokens.itemTokens, List.intercalate_cons_cons, htokens]
    exact ⟨t, _, rfl, hne⟩

theorem exists_memberTokens (m : String × Json) (members : List (String × Json)) : ∃ ts,
    [Token.comma].intercalate (tokens.memberTokens (m :: members)) = .string m.1 :: ts := by
  cases members with
  | nil =>
    rw [tokens.memberTokens, tokens.memberTokens, List.intercalate_singleton]
    exact ⟨_, rfl⟩
  | cons next members =>
    rw [tokens.memberTokens, tokens.memberTokens, List.intercalate_cons_cons]
    exact ⟨_, rfl⟩

/-- The tokens of a document that fits are read as that document. -/
theorem Exact.foldlM_tokens (h : j.Exact levels) {r : Reader} {stack : List Frame}
    (hfits : r.Fits stack levels) :
    j.tokens.foldlM step? (r.goTo stack .value) = some (r.goTo stack (.complete j)) := by
  induction h generalizing stack with
  | null | bool | number | string => rfl
  | @array levels items hitems ih =>
    have hopen : (r.goTo stack .value).step? .openArray = some (r.goTo stack .firstItem) :=
      if_pos hfits.hasRoom
    rw [tokens, List.foldlM_cons, hopen]
    cases items with
    | nil => rfl
    | cons item items =>
      have hread := foldlM_items [] fun x hx before => ih x hx (hfits.inside (.array before))
      obtain ⟨t, ts, htokens, hne⟩ := exists_itemTokens item items
      rw [htokens, List.cons_append] at hread ⊢
      exact (foldlM_firstItem hne).trans hread
  | @object levels members hsorted hvalues ih =>
    have hopen : (r.goTo stack .value).step? .openObject = some (r.goTo stack .firstKey) :=
      if_pos hfits.hasRoom
    rw [tokens, List.foldlM_cons, hopen]
    cases members with
    | nil => rfl
    | cons m members =>
      have hread := foldlM_members [] fun x hx before =>
        ih x hx (hfits.inside (.object before x.1))
      obtain ⟨ts, htokens⟩ := exists_memberTokens m members
      rw [htokens, List.cons_append] at hread ⊢
      exact hread

/-- A document that does not nest too deep is read from its text. -/
theorem Exact.read?_text (h : j.Exact maxNesting) : read? j.text = some j := by
  have hfits : (start maxNesting).Fits [] maxNesting := by
    intro limit hlimit
    obtain rfl := Option.some.inj hlimit
    exact Nat.le_of_eq (Nat.zero_add _)
  have hread : j.tokens.foldlM step? (start maxNesting) =
      some ((start maxNesting).goTo [] (.complete j)) := h.foldlM_tokens hfits
  rw [read?, h.scan?_text, Option.bind_eq_bind, Option.bind_some, ofTokens?, hread]
  rfl

theorem Exact.succ (h : j.Exact levels) : j.Exact (levels + 1) := by
  induction h with
  | null => exact .null
  | bool => exact .bool
  | number hlow hhigh => exact .number hlow hhigh
  | string => exact .string
  | array hitems ih => exact .array ih
  | object hsorted hvalues ih => exact .object hsorted ih

/-! ## The value of a document -/

variable {items : List Json} {members sorted : List (String × Json)}

theorem canonicalItems_eq_map : canonical.canonicalItems items = items.map canonical := by
  induction items with
  | nil => rfl
  | cons item items ih => rw [canonical.canonicalItems, ih, List.map_cons]

theorem canonicalMembers_eq_map : canonical.canonicalMembers members =
    members.map fun m => (m.1, m.2.canonical) := by
  induction members with
  | nil => rfl
  | cons m members ih => rw [canonical.canonicalMembers, ih, List.map_cons]

/-- A member goes behind those with smaller keys. -/
theorem putMember_of_lt {key : String} {value : Json} (h : ∀ m ∈ sorted, m.1 < key) :
    putMember key value sorted = sorted ++ [(key, value)] := by
  induction sorted with
  | nil => rfl
  | cons m sorted ih =>
    obtain ⟨hm, hsorted⟩ := List.forall_mem_cons.mp h
    have hne : key ≠ m.1 := fun heq => String.lt_irrefl key (heq ▸ hm)
    rw [putMember, if_neg hne, if_neg (String.lt_asymm hm), ih hsorted, List.cons_append]

/-- Members that are sorted stay as they are. -/
theorem sortMembers_of_pairwise (h : members.Pairwise fun m m' => m.1 < m'.1) :
    sortMembers members = members := by
  suffices hfold : ∀ sorted : List (String × Json),
      (sorted ++ members).Pairwise (fun m m' => m.1 < m'.1) →
        members.foldl (fun sorted m => putMember m.1 m.2 sorted) sorted = sorted ++ members from
    hfold [] h
  clear h
  induction members with
  | nil => exact fun sorted _ => (List.append_nil sorted).symm
  | cons m members ih =>
    intro sorted h
    have hbefore : ∀ x ∈ sorted, x.1 < m.1 :=
      fun x hx => (List.pairwise_append.mp h).2.2 x hx m List.mem_cons_self
    rw [List.foldl_cons, putMember_of_lt hbefore]
    rw [List.append_cons sorted m members] at h ⊢
    exact ih _ h

theorem Exact.canonical_eq (h : j.Exact levels) : j.canonical = j := by
  induction h with
  | null | bool | number | string => rfl
  | @array levels items hitems ih =>
    rw [canonical, canonicalItems_eq_map, List.map_congr_left ih, List.map_id']
  | @object levels members hsorted hvalues ih =>
    have hvalues : members.map (fun m => (m.1, m.2.canonical)) = members :=
      (List.map_congr_left fun m hm => by rw [ih m hm]).trans (List.map_id' members)
    rw [canonical, canonicalMembers_eq_map, hvalues, sortMembers_of_pairwise hsorted]

/-- A text is read from its bytes. -/
theorem ofBytes?_toUTF8 (s : String) : ofBytes? s.toUTF8.data.toList = read? s := by
  have hbytes : String.fromUTF8? ⟨s.toUTF8.data.toList.toArray⟩ = some s := by
    rw [Array.toArray_toList, String.fromUTF8?]
    exact dif_pos s.isValidUTF8
  rw [ofBytes?, hbytes]
  rfl

/-- A document that does not nest too deep is read back from the bytes of its text. -/
theorem Exact.decode?_text (h : j.Exact maxNesting) :
    decode? j.text.toUTF8.data.toList = some j := by
  rw [decode?, ofBytes?_toUTF8, h.read?_text, Option.map_some, h.canonical_eq]

end Json

/-! ## The payloads of a mutation -/

/-- What is sent for payloads: a single one by itself, several as an array. -/
def Payload.document : List Payload → Json
  | [p] => p.json
  | ps => .array (ps.map Payload.json)

namespace Query

variable {start : Query} {steps : List Step} {ps : List Payload} {kind : MutationKind}

theorem payloadText_eq (q : Query) : q.payloadText = (Payload.document q.payloads).text := by
  rw [payloadText]
  rcases q.payloads with _ | ⟨p, _ | ⟨p', ps⟩⟩ <;> rfl

/-- Payloads with room for an array around them are sent as a document that can be read. -/
theorem exact_document {levels : Nat} (h : ∀ p ∈ ps, p.json.Exact levels) :
    (Payload.document ps).Exact (levels + 1) := by
  have harray : (Json.array (ps.map Payload.json)).Exact (levels + 1) :=
    .array (List.forall_mem_map.mpr h)
  match ps with
  | [p] => exact (h p (List.mem_singleton_self p)).succ
  | [] | _ :: _ :: _ => exact harray

/-- The payloads of a mutation are read back from its text: a single one as it is, several as an
array in the order in which they were given. -/
theorem payloads_decode (h : EndsInMutation start steps)
    (hgiven : encodings steps = ps.map Payload.encoding) (hne : ps ≠ [])
    (hkind : ∀ p ∈ ps, p.kind = kind) (hexact : ∀ p ∈ ps, p.json.Exact 126) :
    ∃ st, (start.build steps).compile = .ok st ∧
      Json.decode? st.text.toUTF8.data.toList = some (Payload.document ps) := by
  refine ⟨_, h.compile_eq_of_kind hgiven hne hkind, ?_⟩
  obtain ⟨hpayloads, -⟩ := h.compile_eq_of_encoded hgiven
  rw [payloadText_eq, hpayloads]
  exact (exact_document hexact).decode?_text

/-- A node with a text that has to be escaped, and a list of edge values. -/
def notes : List Payload :=
  [⟨.set, .object [("age", .int (-3)), ("note", .string "a \x22quoted\x22\n word\x01")]⟩,
    ⟨.set, .array [.null, .array [], .nat 18446744073709551615]⟩]

theorem payloads_decode_notes :
    EndsInMutation .empty (notes.map fun p => .mutate p.kind (.ok p.json)) ∧
      ∃ st, (empty.build (notes.map fun p => .mutate p.kind (.ok p.json))).compile = .ok st ∧
        Json.decode? st.text.toUTF8.data.toList = some (.array (notes.map Payload.json)) := by
  have h : EndsInMutation .empty (notes.map fun p => .mutate p.kind (.ok p.json)) :=
    Or.inr ⟨rfl, show notes.map Payload.encoding ≠ [] from List.cons_ne_nil _ _⟩
  have hkind : ∀ p ∈ notes, p.kind = .set := by simp [notes]
  have hage : (Json.int (-3)).Exact 125 := .number (by decide) (by decide)
  have hlargest : (Json.nat 18446744073709551615).Exact 125 := .number (by decide) (by decide)
  have hempty : (Json.array []).Exact 125 := .array (List.forall_mem_nil _)
  have hexact : ∀ p ∈ notes, p.json.Exact 126 := by
    have hkeys : "age" < "note" := by decide
    refine List.forall_mem_cons.mpr ⟨.object (by simpa using hkeys) ?_,
      List.forall_mem_singleton.mpr (.array ?_)⟩
    · simp [hage, Json.Exact.string]
    · simp [hlargest, hempty, Json.Exact.null]
  exact ⟨h, payloads_decode h rfl (List.cons_ne_nil _ _) hkind hexact⟩

end Query

end GraphQuery
