import GraphQuery.Toml.Reader
import Mathlib

/-!
# Tables are put together as they were written

Most documents are of a plain kind: members, and behind them tables with headers
that lie in no other table.  A `Sheet` is such a document.

`Sheet.ofExpressions?_expressions` says that the expressions of a sheet describe
the table of the sheet, if no name stands twice in one table.  The reader puts a
member into whichever table is open, so the step is the same in front of the
headers and behind each of them: `GrowsBy` is what the two have in common, and
`GrowsBy.assignments` the run of such steps.
-/

namespace GraphQuery.Toml

variable {d : Document} {t : Table} {name key : String} {v : Value}

/-- The expressions with which the members of a table are written. -/
def assignments (members : Table) : List Expression :=
  members.map fun m => .assignment ⟨[], m.1⟩ m.2

/-- A document of the plainest kind: members, and behind them tables with headers. -/
structure Sheet where
  members : Table
  sections : List (String × Table)

namespace Sheet

/-- The expressions of a table with its header. -/
def sectionExpressions (s : String × Table) : List Expression :=
  .header ⟨[], s.1⟩ :: assignments s.2

/-- The expressions of a sheet in the order in which they are written. -/
def expressions (s : Sheet) : List Expression :=
  assignments s.members ++ s.sections.flatMap sectionExpressions

/-- The table that a sheet describes. -/
def table (s : Sheet) : Table :=
  s.members ++ s.sections.map fun s => (s.1, .table .header s.2)

/-- No table of the sheet has two members of one name. -/
structure IsProper (s : Sheet) : Prop where
  table : (s.table.map Prod.fst).Nodup
  sections : ∀ t ∈ s.sections, (t.2.map Prod.fst).Nodup

end Sheet

theorem lookup_eq_none (h : key ∉ t.map Prod.fst) : t.lookup key = none := by
  rw [List.lookup_eq_none_iff]
  intro m hm
  exact bne_iff_ne.mpr fun heq => h (List.mem_map.mpr ⟨m, hm, heq.symm⟩)

/-- Among names that are all different, the one behind others is none of them. -/
theorem new_of_nodup {m : String × Value} {members : Table}
    (h : ((t ++ m :: members).map Prod.fst).Nodup) : m.1 ∉ t.map Prod.fst := by
  rw [List.map_append, List.map_cons, List.nodup_middle] at h
  exact fun hmem => (List.nodup_cons.mp h).1 (List.mem_append_left _ hmem)

theorem insert?_of_new (h : key ∉ t.map Prod.fst) :
    t.insert? ⟨[], key⟩ v = some (t ++ [(key, v)]) := by
  simp [Table.insert?, Table.descend?, Table.insert?.change, lookup_eq_none h, Table.append]

/-- A document whose open table grows by every member that is put into it. -/
def GrowsBy (d : Table → Document) : Prop :=
  ∀ t key v, key ∉ t.map Prod.fst →
    (d t).add? (.assignment ⟨[], key⟩ v) = some (d (t ++ [(key, v)]))

theorem GrowsBy.assignments {d : Table → Document} (hd : GrowsBy d) {members : Table}
    (h : ((t ++ members).map Prod.fst).Nodup) :
    (assignments members).foldlM Document.add? (d t) = some (d (t ++ members)) := by
  induction members generalizing t with
  | nil =>
    rw [List.append_nil]
    rfl
  | cons m members ih =>
    have hnew : m.1 ∉ t.map Prod.fst := new_of_nodup h
    rw [List.append_cons] at h ⊢
    show ((d t).add? (.assignment ⟨[], m.1⟩ m.2)).bind _ = _
    rw [hd t m.1 m.2 hnew, Option.bind_some]
    exact ih h

/-- The members in front of all headers are those of the document. -/
theorem growsBy_root : GrowsBy fun t => ⟨t, []⟩ := fun t key v h => by
  simp [Document.add?, Table.descend?, insert?_of_new h]

/-- The members behind a header are those of its table. -/
theorem growsBy_section {root : Table} (hname : name ∉ root.map Prod.fst) :
    GrowsBy fun t => ⟨root ++ [(name, .table .header t)], [name]⟩ := fun t key v h => by
  have hfound : (root ++ [(name, Value.table .header t)]).lookup name =
      some (.table .header t) := by
    rw [List.lookup_append, lookup_eq_none hname]
    simp
  have hroot : root.map (fun m => if m.1 = name then
      (name, Value.table .header (t ++ [(key, v)])) else m) = root := by
    refine (List.map_congr_left fun m hm => if_neg fun heq => ?_).trans (List.map_id root)
    exact hname (List.mem_map.mpr ⟨m, hm, heq⟩)
  have hreplace : Table.replace (root ++ [(name, .table .header t)]) name
      (.table .header (t ++ [(key, v)])) =
        root ++ [(name, .table .header (t ++ [(key, v)]))] := by
    rw [Table.replace, List.map_append, hroot]
    simp
  simp [Document.add?, Table.descend?, hfound, Table.mayPass, insert?_of_new h, hreplace]

/-- A header opens a new table behind the others. -/
theorem add?_header (h : name ∉ d.root.map Prod.fst) :
    d.add? (.header ⟨[], name⟩) = some ⟨d.root ++ [(name, .table .header [])], [name]⟩ := by
  simp [Document.add?, Table.header?, Table.descend?, Table.header?.change, lookup_eq_none h,
    Table.append]

namespace Sheet

/-- The tables with headers are put behind what the document has. -/
theorem foldlM_sections {sections : List (String × Table)}
    (h : ((d.root ++ sections.map fun s => (s.1, Value.table .header s.2)).map Prod.fst).Nodup)
    (hsections : ∀ t ∈ sections, (t.2.map Prod.fst).Nodup) :
    ∃ current, (sections.flatMap sectionExpressions).foldlM Document.add? d =
      some ⟨d.root ++ sections.map fun s => (s.1, .table .header s.2), current⟩ := by
  induction sections generalizing d with
  | nil => exact ⟨d.current, by simp⟩
  | cons s sections ih =>
    have hname : s.1 ∉ d.root.map Prod.fst := new_of_nodup h
    rw [List.map_cons, List.append_cons] at h ⊢
    have hmembers : (assignments s.2).foldlM Document.add?
        ⟨d.root ++ [(s.1, .table .header [])], [s.1]⟩ =
          some ⟨d.root ++ [(s.1, .table .header s.2)], [s.1]⟩ :=
      (growsBy_section hname).assignments (hsections s List.mem_cons_self)
    obtain ⟨current, hcurrent⟩ := ih (d := ⟨d.root ++ [(s.1, .table .header s.2)], [s.1]⟩) h
      fun t ht => hsections t (List.mem_cons_of_mem s ht)
    refine ⟨current, ?_⟩
    rw [List.flatMap_cons, List.foldlM_append, sectionExpressions, List.foldlM_cons,
      add?_header hname]
    simp only [Option.bind_eq_bind, Option.bind_some]
    rw [hmembers]
    exact hcurrent

/-- A document that is written from a sheet describes the table of the sheet. -/
theorem ofExpressions?_expressions {s : Sheet} (h : s.IsProper) :
    (Document.ofExpressions? s.expressions).map Document.root = some s.table := by
  have hmembers : ((assignments s.members).foldlM Document.add? Document.empty) =
      some ⟨s.members, []⟩ := by
    refine growsBy_root.assignments (t := []) ?_
    have hall := h.table
    rw [table, List.map_append] at hall
    exact hall.of_append_left
  obtain ⟨current, hsections⟩ := foldlM_sections (d := ⟨s.members, []⟩) h.table h.sections
  rw [Document.ofExpressions?, expressions, List.foldlM_append, hmembers]
  simp only [Option.bind_eq_bind, Option.bind_some, hsections]
  rfl

end Sheet

end GraphQuery.Toml
