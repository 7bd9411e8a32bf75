import GraphQuery.Selection
import Mathlib

/-!
# Selections from paths

`Selection.ofPaths` inserts one path after the other, each by walking down
along its names and adding what is missing.  What comes of it is the forest of
all prefixes of the paths, and `Selection.PrefixForest` says so without any
walking: which chains of names lead from a root to a field, in which order
siblings stand, and what the fields look like.

* `empty_mem_names_iff`: which paths have an empty name in them.
* `siblings_insert`: inserting a path adds at most one field below each chain
  of names, at the end.
* `Merged.insert_of_mem`: a path that is there already changes nothing.
* `Merged.insertAll_chains`: the paths of all fields, inserted one after the
  other, build the same selection again.
-/

namespace GraphQuery

/-! ## Paths and their names -/

/-- The path that leads through the names. -/
def Path.ofNames (names : List String) : Path := "/".intercalate names

namespace Selection

variable {cs s : List Char}

theorem segments_cons_separator : segments (Path.separator :: cs) = [] :: segments cs :=
  if_pos rfl

/-- Another character than a slash belongs to the first segment. -/
theorem segments_cons_of_ne {c : Char} (h : c ≠ Path.separator) (cs : List Char) :
    ∃ first rest, segments cs = first :: rest ∧ segments (c :: cs) = (c :: first) :: rest := by
  have hsome : segments cs ≠ [] := by
    cases cs with
    | nil => exact List.cons_ne_nil _ _
    | cons d cs =>
      rw [segments]
      split
      · exact List.cons_ne_nil _ _
      · split <;> exact List.cons_ne_nil _ _
  obtain ⟨first, rest, heq⟩ := List.exists_cons_of_ne_nil hsome
  refine ⟨first, rest, heq, ?_⟩
  rw [segments, if_neg h, heq]

/-- No segment has a slash in it. -/
theorem separator_not_mem_segments (h : s ∈ segments cs) : Path.separator ∉ s := by
  induction cs generalizing s with
  | nil =>
    obtain rfl := List.mem_singleton.mp h
    exact List.not_mem_nil
  | cons c cs ih =>
    by_cases hc : c = Path.separator
    · subst hc
      rw [segments_cons_separator] at h
      rcases List.mem_cons.mp h with rfl | h
      · exact List.not_mem_nil
      · exact ih h
    · obtain ⟨first, rest, heq, hcons⟩ := segments_cons_of_ne hc cs
      rw [hcons] at h
      rcases List.mem_cons.mp h with rfl | h
      · have hfirst : Path.separator ∉ first := ih (heq ▸ List.mem_cons_self)
        simp [Ne.symm hc, hfirst]
      · exact ih (heq ▸ List.mem_cons_of_mem first h)

theorem segments_of_not_mem (h : Path.separator ∉ cs) : segments cs = [cs] := by
  induction cs with
  | nil => rfl
  | cons c cs ih =>
    obtain ⟨hc, hcs⟩ := not_or.mp (mt List.mem_cons.mpr h)
    obtain ⟨first, rest, heq, hcons⟩ := segments_cons_of_ne (Ne.symm hc) cs
    rw [ih hcs] at heq
    obtain ⟨rfl, rfl⟩ := List.cons.inj heq
    exact hcons

/-- A text without slashes in front of a slash is a segment. -/
theorem segments_append (h : Path.separator ∉ s) :
    segments (s ++ Path.separator :: cs) = s :: segments cs := by
  induction s with
  | nil => exact segments_cons_separator
  | cons c s ih =>
    obtain ⟨hc, hs⟩ := not_or.mp (mt List.mem_cons.mpr h)
    obtain ⟨first, rest, heq, hcons⟩ :=
      segments_cons_of_ne (Ne.symm hc) (s ++ Path.separator :: cs)
    rw [ih hs] at heq
    obtain ⟨rfl, rfl⟩ := List.cons.inj heq
    exact hcons

/-- Names without slashes are read back from their path. -/
theorem names_ofNames {ns : List String} (hne : ns ≠ [])
    (h : ∀ n ∈ ns, Path.separator ∉ n.toList) : names (Path.ofNames ns) = ns := by
  induction ns with
  | nil => exact absurd rfl hne
  | cons n ns ih =>
    obtain ⟨hn, hns⟩ := List.forall_mem_cons.mp h
    cases ns with
    | nil =>
      show (segments ("/".intercalate [n]).toList).map String.ofList = [n]
      rw [String.intercalate_singleton, segments_of_not_mem hn]
      simp
    | cons m ms =>
      have hpath : (Path.ofNames (n :: m :: ms)).toList =
          n.toList ++ Path.separator :: (Path.ofNames (m :: ms)).toList := by
        rw [Path.ofNames, String.intercalate_cons_cons, String.toList_append,
          String.toList_append, List.append_assoc]
        rfl
      rw [names, hpath, segments_append hn, List.map_cons, String.ofList_toList]
      exact congrArg (n :: ·) (ih (List.cons_ne_nil _ _) hns)

theorem separator_not_mem_names {path : Path} {n : String} (h : n ∈ names path) :
    Path.separator ∉ n.toList := by
  obtain ⟨s, hs, rfl⟩ := List.mem_map.mp h
  rw [String.toList_ofList]
  exact separator_not_mem_segments hs

/-- The first segment is empty where a slash begins the text or there is no text. -/
theorem nil_mem_segments : [] ∈ segments cs ↔
    (cs = [] ∨ [Path.separator] <+: cs) ∨ [] ∈ (segments cs).tail := by
  cases cs with
  | nil => simp [segments]
  | cons c cs =>
    by_cases hc : c = Path.separator
    · subst hc
      simp [segments_cons_separator, List.cons_prefix_cons]
    · obtain ⟨first, rest, heq, hcons⟩ := segments_cons_of_ne hc cs
      simp [hcons, List.cons_prefix_cons, Ne.symm hc]

/-- A later segment is empty where two slashes meet or a slash ends the text. -/
theorem nil_mem_tail_segments : [] ∈ (segments cs).tail ↔
    [Path.separator] <:+ cs ∨ [Path.separator, Path.separator] <:+: cs := by
  induction cs with
  | nil => simp [segments]
  | cons c cs ih =>
    by_cases hc : c = Path.separator
    · subst hc
      rw [segments_cons_separator, List.tail_cons, nil_mem_segments, ih, List.suffix_cons_iff,
        List.infix_cons_iff]
      simp [List.cons_prefix_cons, or_assoc, or_left_comm]
    · obtain ⟨first, rest, heq, hcons⟩ := segments_cons_of_ne hc cs
      rw [heq, List.tail_cons] at ih
      rw [hcons, List.tail_cons, ih, List.suffix_cons_iff, List.infix_cons_iff]
      simp [List.cons_prefix_cons, Ne.symm hc]

/-- A path has an empty name in it when it is empty, begins or ends with a slash, or has two slashes
in a row. -/
theorem empty_mem_names_iff {path : Path} : "" ∈ names path ↔ path = "" ∨
    [Path.separator] <+: path.toList ∨ [Path.separator] <:+ path.toList ∨
      [Path.separator, Path.separator] <:+: path.toList := by
  have hmem : "" ∈ names path ↔ [] ∈ segments path.toList := by
    rw [names, List.mem_map]
    constructor
    · rintro ⟨s, hs, heq⟩
      rwa [String.ofList_eq_empty_iff.mp heq] at hs
    · intro h
      exact ⟨[], h, rfl⟩
  rw [hmem, nil_mem_segments, nil_mem_tail_segments, String.toList_eq_nil_iff, or_assoc]

/-! ## Chains of names in a selection -/

/-- The names of the fields, without those of the fields below them. -/
def heads : Selection → List String
  | nil => []
  | cons f _ rest => f.name :: rest.heads

/-- What is below the first field of the name. -/
def beneath (name : String) : Selection → Selection
  | nil => nil
  | cons f children rest => if f.name = name then children else rest.beneath name

/-- The names of the fields below a chain of names, in order. -/
def siblings : List String → Selection → List String
  | [], s => s.heads
  | name :: chain, s => (s.beneath name).siblings chain

/-- The names from a root to a field, for every field, in the order in which the fields stand and
with what is below a field behind it. -/
def chains : Selection → List (List String)
  | nil => []
  | cons f children rest =>
    [f.name] :: children.chains.map (f.name :: ·) ++ rest.chains

/-- The paths of all fields, those below a field behind its own. -/
def paths (s : Selection) : List Path := s.chains.map Path.ofNames

end Selection

/-- What can be said of a field follows from its name and from what is below it. -/
structure Field.Unadorned (f : Field) (children : Selection) : Prop where
  isObject : f.isObject = true ↔ children ≠ .nil
  isReverse : f.isReverse = true ↔ ['~'] <+: f.name.toList
  alias? : f.alias? = none
  isList : f.isList = false
  wantsFacets : f.wantsFacets = false

/-- A field that has nothing but a name and the right flag is unadorned. -/
theorem Field.Unadorned.of_name {name : String} {isObject : Bool} {children : Selection}
    (h : isObject = true ↔ children ≠ .nil) :
    Field.Unadorned { name, isObject } children where
  isObject := h
  isReverse := by
    rw [Field.isReverse, Name.isReverse, beq_iff_eq]
    cases name.toList <;> simp [List.cons_prefix_cons, Name.reverseMark, eq_comm]
  alias? := rfl
  isList := rfl
  wantsFacets := rfl

namespace Selection

/-- No two fields side by side have the same name, on any level, and all fields are unadorned. -/
inductive Merged : Selection → Prop
  | nil : Merged nil
  | cons {f : Field} {children rest : Selection} (hname : f.name ∉ rest.heads)
    (hfield : f.Unadorned children) (hchildren : Merged children) (hrest : Merged rest) :
    Merged (cons f children rest)

/-- The prefixes of each chain, without the empty one and shorter ones first. -/
def prefixes (ways : List (List String)) : List (List String) :=
  ways.flatMap fun way => way.inits.tail

/-- The selection has a field for each prefix of the ways, and no other. Siblings stand in the order
in which the chains to them first occur. -/
structure PrefixForest (ways : List (List String)) (s : Selection) : Prop where
  merged : s.Merged
  chains : ∀ chain, chain ∈ s.chains ↔ chain ≠ [] ∧ ∃ way ∈ ways, chain <+: way
  order : ∀ chain, (s.siblings chain).Pairwise fun a b =>
    (prefixes ways).idxOf (chain ++ [a]) < (prefixes ways).idxOf (chain ++ [b])

variable {s children rest : Selection} {f : Field} {name : String} {chain way : List String}

/-! ## One more path -/

/-- The name that follows the chain on the way, if the way begins with the chain. -/
def next? : List String → List String → Option String
  | [], way => way.head?
  | _ :: _, [] => none
  | name :: chain, first :: way => if name = first then next? chain way else none

theorem next?_eq_some_iff : next? chain way = some name ↔ chain ++ [name] <+: way := by
  induction chain generalizing way with
  | nil => cases way <;> simp [next?, List.cons_prefix_cons, eq_comm]
  | cons first chain ih =>
    cases way with
    | nil => simp [next?]
    | cons second way =>
      by_cases h : first = second
      · simp [next?, h, ih, List.cons_prefix_cons]
      · simp [next?, h, List.cons_prefix_cons]

/-- The names with one more at the end, unless it is among them. -/
def addName (names : List String) : Option String → List String
  | none => names
  | some name => if name ∈ names then names else names ++ [name]

theorem heads_update {isObject : Bool} {change : Selection → Selection} :
    (s.update name isObject change).heads = addName s.heads (some name) := by
  induction s with
  | nil => rfl
  | cons f children rest _ ih =>
    rw [update]
    split
    next h => simp [heads, addName, h]
    next h =>
      rw [heads, ih]
      by_cases hmem : name ∈ rest.heads
      · simp [heads, addName, hmem]
      · simp [heads, addName, hmem, Ne.symm h]

theorem beneath_update_self {isObject : Bool} {change : Selection → Selection} :
    (s.update name isObject change).beneath name = change (s.beneath name) := by
  induction s with
  | nil => simp [update, single, beneath]
  | cons f children rest _ ih =>
    rw [update]
    split
    next h => simp [beneath, h]
    next h => simp [beneath, h, ih]

theorem beneath_update_of_ne {other : String} (hne : other ≠ name) {isObject : Bool}
    {change : Selection → Selection} :
    (s.update name isObject change).beneath other = s.beneath other := by
  induction s with
  | nil => simp [update, single, beneath, hne.symm]
  | cons f children rest _ ih =>
    rw [update]
    split
    next h => simp [beneath, h, hne.symm]
    next h => simp [beneath, ih]

/-- Inserting a way adds the name that follows a chain on the way to those below the chain. -/
theorem siblings_insert :
    (s.insert way).siblings chain = addName (s.siblings chain) (next? chain way) := by
  induction way generalizing s chain with
  | nil => cases chain <;> rfl
  | cons first way ih =>
    cases chain with
    | nil => exact heads_update
    | cons name chain =>
      rw [siblings, insert, next?, siblings]
      by_cases h : name = first
      · subst h
        rw [beneath_update_self, ih, if_pos rfl]
      · rw [beneath_update_of_ne h, if_neg h]
        rfl

theorem update_ne_nil {isObject : Bool} {change : Selection → Selection} :
    s.update name isObject change ≠ nil := by
  cases s with
  | nil => exact Selection.noConfusion
  | cons f children rest =>
    rw [update]
    split <;> exact Selection.noConfusion

/-- There is something below a field when there was before, or when the way goes on. -/
theorem insert_ne_nil_iff : s.insert way ≠ nil ↔ way ≠ [] ∨ s ≠ nil := by
  cases way with
  | nil => simp [insert]
  | cons first way => simp [insert, update_ne_nil]

/-- What is below a field may change if the flag of the field does, too. -/
theorem Merged.update {isObject : Bool} {change : Selection → Selection} (h : s.Merged)
    (hchange : ∀ t : Selection, t.Merged → (change t).Merged)
    (hobject : ∀ t, change t ≠ .nil ↔ isObject = true ∨ t ≠ .nil) :
    (s.update name isObject change).Merged := by
  induction h with
  | nil =>
    refine .cons List.not_mem_nil (Field.Unadorned.of_name ?_) (hchange .nil .nil) .nil
    simp [hobject]
  | @cons f children rest hname hfield hchildren hrest _ ih =>
    rw [Selection.update]
    split
    next heq =>
      refine .cons hname ⟨?_, hfield.isReverse, hfield.alias?, hfield.isList, hfield.wantsFacets⟩
        (hchange children hchildren) hrest
      rw [hobject, ← hfield.isObject, Bool.or_eq_true, or_comm]
    next heq =>
      refine .cons ?_ hfield hchildren ih
      rw [heads_update, addName]
      split
      · exact hname
      · simpa [heq] using hname

theorem Merged.insert (h : s.Merged) : (s.insert way).Merged := by
  induction way generalizing s with
  | nil => exact h
  | cons first way ih =>
    refine h.update (fun t ht => ih ht) fun t => ?_
    rw [insert_ne_nil_iff]
    simp

/-! ## Chains and siblings -/

theorem Merged.beneath (h : s.Merged) : (s.beneath name).Merged := by
  induction h with
  | nil => exact .nil
  | cons hname hfield hchildren hrest _ ih =>
    rw [Selection.beneath]
    split
    · exact hchildren
    · exact ih

theorem nil_not_mem_chains : [] ∉ s.chains := by
  induction s with
  | nil => exact List.not_mem_nil
  | cons f children rest _ ih => simp [Selection.chains, ih]

theorem head_mem_of_mem_chains (h : name :: chain ∈ s.chains) : name ∈ s.heads := by
  induction s with
  | nil => exact absurd h List.not_mem_nil
  | cons f children rest _ ih =>
    simp only [chains, List.mem_append, List.mem_cons, List.mem_map] at h
    rcases h with (h | ⟨c, -, h⟩) | h
    · exact (List.cons.inj h).1 ▸ List.mem_cons_self
    · exact (List.cons.inj h).1 ▸ List.mem_cons_self
    · exact List.mem_cons_of_mem _ (ih h)

theorem singleton_mem_chains : [name] ∈ s.chains ↔ name ∈ s.heads := by
  constructor
  · exact head_mem_of_mem_chains
  · intro h
    induction s with
    | nil => exact absurd h List.not_mem_nil
    | cons f children rest _ ih =>
      rcases List.mem_cons.mp h with rfl | h
      · simp [Selection.chains]
      · simp [Selection.chains, ih h]

/-- A longer chain goes on below the one field with its first name. -/
theorem Merged.cons_mem_chains (h : s.Merged) (hchain : chain ≠ []) :
    name :: chain ∈ s.chains ↔ chain ∈ (s.beneath name).chains := by
  induction h with
  | nil => simp [Selection.chains, Selection.beneath]
  | @cons f children rest hname hfield hchildren hrest _ ih =>
    rw [Selection.beneath]
    split
    next heq =>
      subst heq
      have hrest : f.name :: chain ∉ rest.chains := mt head_mem_of_mem_chains hname
      simp [Selection.chains, hchain, hrest]
    next heq =>
      rw [← ih]
      simp [Selection.chains, heq, Ne.symm heq]

/-- The siblings below a chain are the fields to which one more name leads. -/
theorem Merged.append_mem_chains (h : s.Merged) :
    chain ++ [name] ∈ s.chains ↔ name ∈ s.siblings chain := by
  induction chain generalizing s with
  | nil => exact singleton_mem_chains
  | cons first chain ih =>
    rw [List.cons_append, h.cons_mem_chains (by simp), ih h.beneath]
    rfl

/-! ## The forest of prefixes -/

theorem mem_addName {names : List String} {o : Option String} :
    name ∈ addName names o ↔ name ∈ names ∨ o = some name := by
  cases o with
  | none => simp [addName]
  | some other =>
    rw [addName]
    split
    next h =>
      constructor
      · exact Or.inl
      · rintro (h' | h')
        · exact h'
        · exact Option.some.inj h' ▸ h
    next h => simp [eq_comm]

theorem mem_tail_inits : chain ∈ way.inits.tail ↔ chain ≠ [] ∧ chain <+: way := by
  cases way with
  | nil => simp
  | cons first way =>
    rw [List.inits_cons, List.tail_cons, List.mem_map]
    constructor
    · rintro ⟨rest, hrest, rfl⟩
      exact ⟨List.cons_ne_nil _ _, List.cons_prefix_cons.mpr ⟨rfl, (List.mem_inits _ _).mp hrest⟩⟩
    · rintro ⟨hne, hpre⟩
      obtain ⟨other, rest, rfl⟩ := List.exists_cons_of_ne_nil hne
      obtain ⟨rfl, hrest⟩ := List.cons_prefix_cons.mp hpre
      exact ⟨rest, (List.mem_inits _ _).mpr hrest, rfl⟩

variable {ways : List (List String)}

theorem mem_prefixes : chain ∈ prefixes ways ↔ chain ≠ [] ∧ ∃ way ∈ ways, chain <+: way := by
  simp only [prefixes, List.mem_flatMap, mem_tail_inits]
  constructor
  · rintro ⟨way, hway, hne, hpre⟩
    exact ⟨hne, way, hway, hpre⟩
  · rintro ⟨hne, way, hway, hpre⟩
    exact ⟨way, hway, hne, hpre⟩

theorem prefixes_concat : prefixes (ways ++ [way]) = prefixes ways ++ way.inits.tail := by
  simp [prefixes]

theorem PrefixForest.mem_siblings (h : PrefixForest ways s) :
    name ∈ s.siblings chain ↔ chain ++ [name] ∈ prefixes ways := by
  rw [← h.merged.append_mem_chains, h.chains, mem_prefixes]

/-- A chain that occurred already keeps its place among the prefixes. -/
theorem idxOf_prefixes_concat (h : chain ∈ prefixes ways) :
    (prefixes (ways ++ [way])).idxOf chain = (prefixes ways).idxOf chain := by
  rw [prefixes_concat, List.idxOf_append_of_mem h]

/-- Inserting one more way keeps the siblings in order, since a new one comes last and its chain did
not occur before. -/
theorem PrefixForest.insert (h : PrefixForest ways s) :
    PrefixForest (ways ++ [way]) (s.insert way) where
  merged := h.merged.insert
  chains := by
    intro chain
    rcases List.eq_nil_or_concat chain with rfl | ⟨chain, name, rfl⟩
    · simp [nil_not_mem_chains]
    · rw [List.concat_eq_append, h.merged.insert.append_mem_chains, siblings_insert, mem_addName,
        h.mem_siblings, next?_eq_some_iff, mem_prefixes]
      simp [or_and_right, exists_or]
  order := by
    intro chain
    have hold : (s.siblings chain).Pairwise fun a b =>
        (prefixes (ways ++ [way])).idxOf (chain ++ [a]) <
          (prefixes (ways ++ [way])).idxOf (chain ++ [b]) := by
      refine (h.order chain).imp_of_mem fun {a b} ha hb hlt => ?_
      rwa [idxOf_prefixes_concat (h.mem_siblings.mp ha),
        idxOf_prefixes_concat (h.mem_siblings.mp hb)]
    rw [siblings_insert]
    cases hnext : next? chain way with
    | none => exact hold
    | some name =>
      rw [addName]
      split
      next => exact hold
      next hname =>
        refine List.pairwise_append.mpr ⟨hold, List.pairwise_singleton _ _, fun a ha b hb => ?_⟩
        obtain rfl := List.mem_singleton.mp hb
        have hmem := h.mem_siblings.mp ha
        have hnew : chain ++ [b] ∉ prefixes ways := mt h.mem_siblings.mpr hname
        rw [idxOf_prefixes_concat hmem, prefixes_concat, List.idxOf_append_of_notMem hnew]
        exact Nat.lt_add_right _ (List.idxOf_lt_length_of_mem hmem)

/-- The selection with all fields that the ways lead to. -/
def insertAll (s : Selection) (ways : List (List String)) : Selection :=
  ways.foldl (fun s way => s.insert way) s

theorem siblings_nil : nil.siblings chain = [] := by
  induction chain with
  | nil => rfl
  | cons name chain ih => exact ih

/-- Inserting ways one after the other builds the forest of their prefixes. -/
theorem prefixForest_insertAll (ways : List (List String)) :
    PrefixForest ways (insertAll nil ways) := by
  induction ways using List.reverseRecOn with
  | nil =>
    refine ⟨.nil, fun chain => ?_, fun chain => ?_⟩
    · simp [insertAll, Selection.chains]
    · rw [insertAll, List.foldl_nil, siblings_nil]
      exact .nil
  | append_singleton ways way ih =>
    rw [insertAll, List.foldl_append]
    exact ih.insert

/-! ## Paths that are inserted again -/

/-- A way that is there already changes nothing. -/
theorem Merged.insert_of_mem (h : s.Merged) (hway : way = [] ∨ way ∈ s.chains) :
    s.insert way = s := by
  induction way generalizing s with
  | nil => rfl
  | cons name way ih =>
    have hmem : name :: way ∈ s.chains := hway.resolve_left (List.cons_ne_nil _ _)
    clear hway
    induction h with
    | nil => exact absurd hmem List.not_mem_nil
    | @cons f children rest hname hfield hchildren hrest _ ihrest =>
      rw [Selection.insert, Selection.update]
      split
      next heq =>
        subst heq
        have hbelow : way = [] ∨ way ∈ children.chains := by
          by_contra hnot
          obtain ⟨hne, hnot⟩ := not_or.mp hnot
          have hbeneath := ((Merged.cons hname hfield hchildren hrest).cons_mem_chains hne).mp hmem
          rw [Selection.beneath, if_pos rfl] at hbeneath
          exact hnot hbeneath
        have hobject : (f.isObject || !way.isEmpty) = f.isObject := by
          rcases hbelow with rfl | hmem
          · simp
          · have hne : children ≠ .nil := by
              rintro rfl
              exact List.not_mem_nil hmem
            simp [hfield.isObject.mpr hne]
        rw [ih hchildren hbelow, hobject]
      next heq =>
        have hmem' : name :: way ∈ rest.chains := by
          simpa [Selection.chains, heq, Ne.symm heq] using hmem
        exact congrArg (Selection.cons f children) (ihrest hmem')

/-- Ways that are there already change nothing. -/
theorem Merged.insertAll_of_mem (h : s.Merged) (hways : ∀ way ∈ ways, way = [] ∨ way ∈ s.chains) :
    s.insertAll ways = s := by
  induction ways with
  | nil => rfl
  | cons way ways ih =>
    obtain ⟨hway, hways⟩ := List.forall_mem_cons.mp hways
    rw [insertAll, List.foldl_cons, h.insert_of_mem hway]
    exact ih hways

theorem append_assoc {a b c : Selection} : a ++ b ++ c = a ++ (b ++ c) := by
  induction a with
  | nil => rfl
  | cons f children rest _ ih => exact congrArg (cons f children) ih

theorem append_nil {a : Selection} : a ++ nil = a := by
  induction a with
  | nil => rfl
  | cons f children rest _ ih => exact congrArg (cons f children) ih

theorem heads_append {a b : Selection} : (a ++ b).heads = a.heads ++ b.heads := by
  induction a with
  | nil => rfl
  | cons f children rest _ ih => exact congrArg (f.name :: ·) ih

/-- A change to a field behind others leaves these alone. -/
theorem update_append {isObject : Bool} {change : Selection → Selection} {before : Selection}
    (h : name ∉ before.heads) : (before ++ s).update name isObject change =
      before ++ s.update name isObject change := by
  induction before with
  | nil => rfl
  | cons f children rest _ ih =>
    obtain ⟨hname, hrest⟩ := not_or.mp (mt List.mem_cons.mpr h)
    show (cons f children (rest ++ s)).update name isObject change = _
    rw [update, if_neg (Ne.symm hname), ih hrest]
    rfl

/-- Ways that begin with the name of the last field build what is below it. -/
theorem insertAll_map_cons {before : Selection} {g : Field} (h : g.name ∉ before.heads) :
    insertAll (before ++ single g children) (ways.map (g.name :: ·)) =
      before ++ single { g with isObject := g.isObject || ways.any (!·.isEmpty) }
        (insertAll children ways) := by
  induction ways generalizing g children with
  | nil => simp [insertAll]
  | cons way ways ih =>
    have hstep : (before ++ single g children).insert (g.name :: way) =
        before ++ single { g with isObject := g.isObject || !way.isEmpty }
          (children.insert way) := by
      rw [insert, update_append h]
      simp [single, update]
    rw [List.map_cons, insertAll, List.foldl_cons, hstep]
    have hrest := @ih (children.insert way) { g with isObject := g.isObject || !way.isEmpty } h
    rw [insertAll] at hrest
    rw [hrest]
    simp [insertAll, Bool.or_assoc]

theorem any_chains : (s.chains.any fun chain => !chain.isEmpty) = true ↔ s ≠ nil := by
  cases s <;> simp [Selection.chains]

/-- An unadorned field is known by its name and its flag. -/
theorem eq_of_unadorned (h : f.Unadorned children) : f =
    { name := f.name, isObject := children.chains.any fun chain => !chain.isEmpty } := by
  have hobject : f.isObject = children.chains.any fun chain => !chain.isEmpty :=
    Bool.eq_iff_iff.mpr (h.isObject.trans any_chains.symm)
  obtain ⟨-, -, halias, hlist, hfacets⟩ := h
  cases f
  simp_all

/-- The chains of a selection, inserted one after the other, build it again. -/
theorem Merged.insertAll_chains (h : s.Merged) (before : Selection)
    (hbefore : ∀ name ∈ s.heads, name ∉ before.heads) :
    before.insertAll s.chains = before ++ s := by
  induction h generalizing before with
  | nil => exact append_nil.symm
  | @cons f children rest hname hfield hchildren hrest ihchildren ihrest =>
    obtain ⟨hf, hbefore⟩ := List.forall_mem_cons.mp hbefore
    have hfirst : before.insert [f.name] = before ++ single { name := f.name } := by
      have hlast : before.insert [f.name] = (before ++ .nil).insert [f.name] := by rw [append_nil]
      exact hlast.trans (update_append hf)
    have hbelow : (before.insert [f.name]).insertAll (children.chains.map (f.name :: ·)) =
        before ++ single f children := by
      have hnil : insertAll .nil children.chains = children :=
        ihchildren .nil fun _ _ => List.not_mem_nil
      rw [hfirst]
      refine (insertAll_map_cons (g := { name := f.name }) hf).trans ?_
      rw [hnil, Bool.false_or, ← eq_of_unadorned hfield]
    have hbehind : ∀ name ∈ rest.heads, name ∉ (before ++ single f children).heads := by
      intro name hmem hnot
      rw [heads_append, List.mem_append] at hnot
      rcases hnot with hnot | hnot
      · exact hbefore name hmem hnot
      · exact hname (List.mem_singleton.mp hnot ▸ hmem)
    rw [Selection.chains, insertAll, List.foldl_append, List.foldl_cons]
    rw [insertAll] at hbelow
    rw [hbelow]
    refine (ihrest _ hbehind).trans ?_
    rw [append_assoc]
    rfl

/-! ## Selections of paths -/

variable {paths more : List Path}

theorem ofPaths_of_named (h : ∀ path ∈ paths, "" ∉ names path) :
    ofPaths paths = .ok (insertAll nil (paths.map names)) := by
  have hall : (paths.all fun path => (names path).all (· != "")) = true := by
    simp only [List.all_eq_true, bne_iff_ne]
    exact fun path hpath name hname hempty => h path hpath (hempty ▸ hname)
  rw [ofPaths, if_pos hall, insertAll, List.foldl_map]

theorem ofPaths_of_unnamed (h : ∃ path ∈ paths, "" ∈ names path) :
    ofPaths paths = .error .missingFieldName := by
  obtain ⟨path, hpath, hempty⟩ := h
  have hall : ¬(paths.all fun path => (names path).all (· != "")) = true := by
    simp only [List.all_eq_true, bne_iff_ne]
    exact fun hall => hall path hpath "" hempty rfl
  rw [ofPaths, if_neg hall]

/-- Paths in which no name is empty build the forest of their prefixes. -/
theorem ofPaths_eq_ok_iff : ofPaths paths = .ok s ↔
    (∀ path ∈ paths, "" ∉ names path) ∧ s = insertAll nil (paths.map names) := by
  by_cases h : ∀ path ∈ paths, "" ∉ names path
  · rw [ofPaths_of_named h, and_iff_right h, Except.ok.injEq, eq_comm]
  · have hsome : ∃ path ∈ paths, "" ∈ names path := by
      push Not at h
      exact h
    simp [ofPaths_of_unnamed hsome, h]

theorem ofPaths_eq_error_iff {e : Error} : ofPaths paths = .error e ↔
    e = .missingFieldName ∧ ∃ path ∈ paths, "" ∈ names path := by
  by_cases h : ∃ path ∈ paths, "" ∈ names path
  · rw [ofPaths_of_unnamed h]
    simp [h, eq_comm]
  · have hall : ∀ path ∈ paths, "" ∉ names path := by
      push Not at h
      exact h
    simp [ofPaths_of_named hall, h]

/-- Prefixes of paths that are there add nothing. -/
theorem ofPaths_append (h : ∀ path ∈ more, ∃ whole ∈ paths, names path <+: names whole) :
    ofPaths (paths ++ more) = ofPaths paths := by
  by_cases hnamed : ∀ path ∈ paths, "" ∉ names path
  · have hmore : ∀ path ∈ more, "" ∉ names path := by
      intro path hpath hempty
      obtain ⟨whole, hwhole, hpre⟩ := h path hpath
      exact hnamed whole hwhole (hpre.subset hempty)
    have hboth : ∀ path ∈ paths ++ more, "" ∉ names path :=
      List.forall_mem_append.mpr ⟨hnamed, hmore⟩
    have hforest := prefixForest_insertAll (paths.map names)
    have hthere : ∀ way ∈ more.map names,
        way = [] ∨ way ∈ (insertAll nil (paths.map names)).chains := by
      refine List.forall_mem_map.mpr fun path hpath => ?_
      obtain ⟨whole, hwhole, hpre⟩ := h path hpath
      by_cases hne : names path = []
      · exact Or.inl hne
      · exact Or.inr ((hforest.chains _).mpr ⟨hne, _, List.mem_map_of_mem hwhole, hpre⟩)
    rw [ofPaths_of_named hboth, ofPaths_of_named hnamed, List.map_append, insertAll,
      List.foldl_append]
    exact congrArg _ (hforest.merged.insertAll_of_mem hthere)
  · have hsome : ∃ path ∈ paths, "" ∈ names path := by
      push Not at hnamed
      exact hnamed
    obtain ⟨path, hpath, hempty⟩ := hsome
    rw [ofPaths_of_unnamed ⟨path, hpath, hempty⟩,
      ofPaths_of_unnamed ⟨path, List.mem_append_left more hpath, hempty⟩]

/-- The paths of all fields build the selection again. -/
theorem ofPaths_paths (h : ofPaths paths = .ok s) : ofPaths s.paths = .ok s := by
  obtain ⟨hnamed, rfl⟩ := ofPaths_eq_ok_iff.mp h
  have hforest := prefixForest_insertAll (paths.map names)
  generalize insertAll nil (paths.map names) = s at hforest
  -- Every name on the way to a field comes from one of the paths.
  have hnames : ∀ chain ∈ s.chains,
      names (Path.ofNames chain) = chain ∧ "" ∉ chain := by
    intro chain hchain
    obtain ⟨hne, way, hway, hpre⟩ := (hforest.chains chain).mp hchain
    obtain ⟨path, hpath, rfl⟩ := List.mem_map.mp hway
    refine ⟨names_ofNames hne fun n hn => ?_, fun hempty => ?_⟩
    · exact separator_not_mem_names (hpre.subset hn)
    · exact hnamed path hpath (hpre.subset hempty)
  refine ofPaths_eq_ok_iff.mpr ⟨?_, ?_⟩
  · refine List.forall_mem_map.mpr fun chain hchain => ?_
    rw [(hnames chain hchain).1]
    exact (hnames chain hchain).2
  · have hways : s.paths.map names = s.chains := by
      rw [Selection.paths, List.map_map]
      exact (List.map_congr_left fun chain hchain => (hnames chain hchain).1).trans (List.map_id _)
    rw [hways]
    exact (hforest.merged.insertAll_chains nil fun _ _ => List.not_mem_nil).symm

end Selection

/-- A list of paths is refused when one of them has an empty name in it. Otherwise it builds the
forest of all prefixes of the paths, to which paths of fields add nothing and which the paths of its
fields build again. -/
theorem Selection.ofPaths_forest (paths : List Path) :
    (∀ e, ofPaths paths = .error e ↔ e = .missingFieldName ∧ ∃ path ∈ paths, "" ∈ names path) ∧
    (∀ path, "" ∈ names path ↔ path = "" ∨ [Path.separator] <+: path.toList ∨
      [Path.separator] <:+ path.toList ∨
      [Path.separator, Path.separator] <:+: path.toList) ∧
    (∀ s, ofPaths paths = .ok s →
      PrefixForest (paths.map names) s ∧ ofPaths s.paths = .ok s) ∧
    ∀ more, (∀ path ∈ more, ∃ whole ∈ paths, names path <+: names whole) →
      ofPaths (paths ++ more) = ofPaths paths := by
  refine ⟨fun e => ofPaths_eq_error_iff, fun path => empty_mem_names_iff, fun s h => ?_,
    fun more h => ofPaths_append h⟩
  obtain ⟨-, rfl⟩ := ofPaths_eq_ok_iff.mp h
  exact ⟨prefixForest_insertAll _, ofPaths_paths h⟩

/-- Paths of which one extends another, and the forest that they build. -/
theorem Selection.ofPaths_forest_friends :
    let paths : List Path := ["friend", "name", "friend/pet/name", "friend/age"]
    let forest : Selection :=
      .cons { name := "friend", isObject := true }
        (.cons { name := "pet", isObject := true } (.single { name := "name" })
          (.single { name := "age" }))
        (.single { name := "name" })
    ofPaths paths = .ok forest ∧ PrefixForest (paths.map names) forest ∧
      forest.paths = ["friend", "friend/pet", "friend/pet/name", "friend/age", "name"] ∧
      ofPaths forest.paths = .ok forest ∧
      (∀ path ∈ ["friend/pet"], ∃ whole ∈ paths, names path <+: names whole) ∧
      ofPaths (paths ++ ["friend/pet"]) = .ok forest := by
  intro paths forest
  have hforest : ofPaths paths = .ok forest := by decide
  have hmore : ∀ path ∈ ["friend/pet"], ∃ whole ∈ paths, names path <+: names whole := by decide
  obtain ⟨-, -, hok, hadded⟩ := ofPaths_forest paths
  exact ⟨hforest, (hok forest hforest).1, by decide, (hok forest hforest).2, hmore,
    (hadded _ hmore).trans hforest⟩

end GraphQuery
