import SchemaDesign.Proofs.Mapping.Cycle
import SchemaDesign.Proofs.Mapping.Mention

/-!
# Reordered designs

The tables and the columns of a design may be listed in another order.  Lookups by id do not see
it, and so every table has the same base and the lines are the same.  The order of columns matters
within a hierarchy, because these columns may end up on one table; there it is kept.
-/

namespace SchemaDesign

namespace Design

/-- The other design has the same records.  Only the order of its tables and of its columns may
differ, and columns whose tables have the same root keep theirs. -/
structure ReordersTo (design other : Design) : Prop where
  tables : design.tables.Perm other.tables
  columns : design.columns.Perm other.columns
  relations : design.relations = other.relations
  inheritance : design.inheritance = other.inheritance
  withinRoots : ∀ lineage, Lineage.of design = .ok lineage → ∀ root,
    design.columns.filter (fun column => lineage.root column.table == root) =
      other.columns.filter (fun column => lineage.root column.table == root)

end Design

variable {design other : Design} {ids : IdSupply} {lineage lineage' : Lineage}

/-! ### Lineages with the same lines -/

namespace Lineage

theorem exists_of_same_bases (hbase : ∀ id, other.baseOf id = design.baseOf id)
    (hlineage : Lineage.of design = .ok lineage) :
    ∃ lineage', Lineage.of other = .ok lineage' ∧ lineage'.line = lineage.line := by
  have hleads : other.baseSteps.Leads = design.baseSteps.Leads := by
    funext id base
    rw [eq_iff_iff, other.leads_baseSteps_iff, design.leads_baseSteps_iff, hbase]
  obtain ⟨lineage', hlineage'⟩ : ∃ lineage', Lineage.of other = .ok lineage' := by
    apply exists_of_no_cycle
    rw [hleads]
    exact Design.not_transGen_leads_of_lineage hlineage
  refine ⟨lineage', hlineage', ?_⟩
  funext id
  induction id using lineage.line_induction hlineage with
  | root id hself =>
      rw [lineage.line_of_base_eq hlineage hself,
        lineage'.line_of_base_eq hlineage' ((hbase id).trans hself)]
  | step id hne ih =>
      have hne' : other.baseOf id ≠ id := fun hself => hne ((hbase id).symm.trans hself)
      rw [lineage.line_of_base_ne hlineage hne, lineage'.line_of_base_ne hlineage' hne', hbase, ih]

theorem root_congr (hline : lineage'.line = lineage.line) : lineage'.root = lineage.root := by
  funext id
  rw [root, hline, root]

theorem base_congr (hline : lineage'.line = lineage.line) : lineage'.base = lineage.base := by
  funext id
  rw [base, hline, base]

theorem isRoot_congr (hline : lineage'.line = lineage.line) : lineage'.isRoot = lineage.isRoot := by
  funext id
  rw [isRoot, root_congr hline, isRoot]

end Lineage

namespace Design

theorem mergeHierarchies_congr (hline : lineage'.line = lineage.line) :
    design.mergeHierarchies ids lineage' = design.mergeHierarchies ids lineage := by
  simp only [mergeHierarchies, discriminators, Lineage.absorbingRoots, Column.atRoot,
    Relation.atRoots, Endpoint.atRoot, Lineage.root_congr hline, Lineage.isRoot_congr hline]

theorem linkClasses_congr (hline : lineage'.line = lineage.line) :
    design.linkClasses ids lineage' = design.linkClasses ids lineage := by
  simp only [linkClasses, keyLinks_eq, keyLink?, rootKey?, Lineage.root_congr hline,
    Lineage.isRoot_congr hline]

/-! ### Lookups -/

namespace ReordersTo

variable (h : design.ReordersTo other)

include h

theorem table?_eq (htables : design.tableIds.Nodup) (id : TableId) :
    design.table? id = other.table? id :=
  find?_key_of_perm h.tables htables id

theorem baseOf_eq (htables : design.tableIds.Nodup) (id : TableId) :
    other.baseOf id = design.baseOf id := by
  have hfound : design.table? = other.table? := funext (h.table?_eq htables)
  unfold baseOf parentOf? hasTable
  rw [h.relations, hfound]

theorem columnsOf_eq (hlineage : Lineage.of design = .ok lineage) (id : TableId) :
    design.columnsOf id = other.columnsOf id := by
  have hwithin : ∀ columns : List Column, columns.filter (·.table == id) =
      (columns.filter fun column => lineage.root column.table == lineage.root id).filter
        (·.table == id) := by
    intro columns
    rw [List.filter_filter]
    apply List.filter_congr
    intro column _
    by_cases howner : column.table = id
    · simp [howner]
    · simp [howner]
  rw [columnsOf, hwithin, h.withinRoots lineage hlineage, ← hwithin, columnsOf]

theorem primaryKeyOf?_eq (hlineage : Lineage.of design = .ok lineage) (id : TableId) :
    design.primaryKeyOf? id = other.primaryKeyOf? id := by
  rw [primaryKeyOf?_eq_find?_columnsOf, h.columnsOf_eq hlineage,
    ← primaryKeyOf?_eq_find?_columnsOf]

theorem mem_mentionedColumns_iff (id : ColumnId) :
    id ∈ other.mentionedColumns ↔ id ∈ design.mentionedColumns := by
  rw [other.mem_mentionedColumns_iff, design.mem_mentionedColumns_iff, h.relations, columnIds,
    columnIds, (h.columns.map _).mem_iff]

end ReordersTo

end Design

end SchemaDesign
