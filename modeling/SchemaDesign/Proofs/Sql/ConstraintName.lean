import SchemaDesign.Proofs.Mapping.JunctionTable
import SchemaDesign.Proofs.Sql.ForeignKey

/-!
# Names of constraints

A foreign key in a named clause is named after the column that refers, and after nothing else.  So
the names in a table definition are those of the columns to which relations lead whose source is
found, once for each relation.  The expansion of many-to-many relations takes no name from a table,
and a junction table has two names, which come from the tables that it joins.
-/

namespace SchemaDesign

namespace Sql

def Constraint.name? : Constraint → Option String
  | .primaryKey _ => none
  | .foreignKey name _ _ => name

def CreateTable.constraintNames (table : CreateTable) : List String :=
  table.constraints.filterMap (·.name?)

end Sql

open Sql

namespace Design

variable {design : Design} {ids : IdSupply} {id : TableId} {relation : Relation}

/-- The name of the column of a table to which the relation leads, if its source is found. -/
def referringName? (design : Design) (id : TableId) (relation : Relation) : Option String :=
  ((design.columnsOf id).find? (aimsAt relation ·)).bind fun column =>
    (design.referencedKey? relation).map fun _ => column.name

def referringNames (design : Design) (id : TableId) : List String :=
  (design.relationsTo id).filterMap (design.referringName? id)

theorem constraintNames_createTable (design : Design) (table : Table) :
    (design.createTable .namedClause table).constraintNames =
      (design.referringNames table.id).map ("FK_" ++ ·) := by
  have hkeys : (design.keyClauses table).filterMap (·.name?) = [] := by
    unfold keyClauses
    split <;> simp [Constraint.name?]
  have hclauses : (design.createTable .namedClause table).constraints =
      design.keyClauses table ++ design.referenceClauses .namedForeignKey table := rfl
  rw [CreateTable.constraintNames, hclauses, List.filterMap_append, hkeys, List.nil_append,
    referenceClauses, List.filterMap_filterMap, referringNames, List.map_filterMap]
  apply List.filterMap_congr
  intro relation _
  unfold referringName? aimsAt
  cases (design.columnsOf table.id).find? fun x => relation.target.column == some x.id with
  | none => rfl
  | some column =>
      cases design.referencedKey? relation with
      | none => rfl
      | some references => rfl

theorem referencedKey?_isSome_iff (design : Design) (relation : Relation) :
    (design.referencedKey? relation).isSome ↔ design.Finds relation.source := by
  unfold referencedKey? Finds hasTable
  cases design.table? relation.source.table with
  | none => simp
  | some table =>
      cases relation.source.column with
      | none => simp
      | some id => cases hcolumn : design.column? id <;> simp [hcolumn]

theorem referringName?_of_finds (hfinds : design.Finds relation.source) :
    design.referringName? id relation =
      ((design.columnsOf id).find? (aimsAt relation ·)).map (·.name) := by
  obtain ⟨references, hreferences⟩ :=
    Option.isSome_iff_exists.mp ((design.referencedKey?_isSome_iff relation).mpr hfinds)
  rw [referringName?, hreferences]
  cases (design.columnsOf id).find? (aimsAt relation ·) <;> rfl

theorem referringName?_of_not_finds (hmissing : ¬design.Finds relation.source) :
    design.referringName? id relation = none := by
  have hnone : design.referencedKey? relation = none := by
    rwa [← referencedKey?_isSome_iff, Option.not_isSome_iff_eq_none] at hmissing
  rw [referringName?, hnone]
  cases (design.columnsOf id).find? (aimsAt relation ·) <;> rfl

/-! ### Expanded relations -/

theorem referringName?_of_junction?_eq_none (htable : design.hasTable relation.target.table)
    (hkind : relation.kind = .manyToMany) (hnone : design.junction? relation = none) :
    design.referringName? relation.target.table relation = none := by
  rw [junction?_eq_none_iff hkind] at hnone
  by_cases hsource : design.Finds relation.source
  · have hcolumn : (design.columnsOf relation.target.table).find? (aimsAt relation ·) = none := by
      rw [List.find?_eq_none]
      intro column hmem haims
      have hid : relation.target.column = some column.id := by simpa [aimsAt] using haims
      apply hnone
      refine ⟨hsource, htable, column.id, hid, ?_⟩
      rw [column?_isSome_iff]
      exact List.mem_map_of_mem (List.mem_of_mem_filter hmem)
    rw [referringName?_of_finds hsource, hcolumn]
    rfl
  · exact referringName?_of_not_finds hsource

section Unused

variable (hunused : ids.UnusedIn design)

include hunused

/-- A table keeps the names that do not come from many-to-many relations, which it has not had. -/
theorem referringNames_expandJunctions (htable : design.hasTable id) :
    (design.expandJunctions ids).referringNames id =
      ((design.relationsTo id).filter (·.kind != .manyToMany)).filterMap
        (design.referringName? id) := by
  have hid := mem_mentionedTables_of_hasTable htable
  rw [referringNames, relationsTo_expandJunctions hunused hid, List.filterMap_filter,
    List.filterMap_filter]
  apply List.filterMap_congr
  intro relation hmem
  obtain ⟨hrelation, htarget⟩ := List.mem_filter.mp hmem
  rw [beq_iff_eq] at htarget
  have hname : (design.expandJunctions ids).referringName? id relation =
      design.referringName? id relation := by
    unfold referringName?
    rw [columnsOf_expandJunctions hunused hid,
      referencedKey?_expandJunctions hunused (mentions_of_end hrelation (.inl rfl))]
  rw [hname]
  by_cases hkind : relation.kind = .manyToMany
  · rw [hkind]
    cases hjunction : design.junction? relation with
    | none =>
        subst htarget
        exact referringName?_of_junction?_eq_none htable hkind hjunction
    | some junction => rfl
  · simp [junction?_eq, hkind]

theorem referringNames_junctionTable {x : Junction × Nat} (hx : x ∈ design.junctions.zipIdx) :
    (design.expandJunctions ids).referringNames (ids (3 * x.2)) =
      [x.1.source.name ++ "Id", x.1.target.name ++ "Id"] := by
  obtain ⟨relation, _, hjunction⟩ := List.mem_filterMap.mp (List.fst_mem_of_mem_zipIdx hx)
  obtain ⟨_, ⟨hsource, _, _, hsourceKey⟩, htarget, _, _, htargetKey⟩ := junction?_eq_some hjunction
  have hside : ∀ (table : Table) (key : Column), table ∈ design.tables → key ∈ design.columns →
      (design.expandJunctions ids).Finds ⟨table.id, some key.id⟩ := by
    intro table key htable hkey
    constructor
    · apply hasTable_of_mem
      rw [expandJunctions_tables]
      exact List.mem_append_left _ htable
    · refine ⟨key.id, rfl, ?_⟩
      rw [column?_isSome_iff]
      apply List.mem_map_of_mem
      rw [expandJunctions_columns]
      exact List.mem_append_left _ hkey
  have hsourceFinds := hside _ _ (mem_of_table? hsource).1 (mem_of_column? hsourceKey).1
  have htargetFinds := hside _ _ (mem_of_table? htarget).1 (mem_of_column? htargetKey).1
  have hne : ids (3 * x.2 + 2) ≠ ids (3 * x.2 + 1) := (keyIds_ne hunused.injective x.2).symm
  rw [referringNames, relationsTo_junctionTable hunused hx, Junction.relations,
    List.filterMap_cons, referringName?_of_finds hsourceFinds, List.filterMap_cons,
    referringName?_of_finds htargetFinds, columnsOf_junctionTable hunused hx]
  simp [Junction.columns, Junction.keyColumn, aimsAt, Relation.between, Column.create,
    Column.primaryKey, Column.foreignKey, hne]

end Unused

end Design

end SchemaDesign
