import SchemaDesign.Proofs.Mapping.Junction
import SchemaDesign.Proofs.Sql.Statement

/-!
# Lookups after expansion

The ids of junctions are unused, so lookups by the ids that a design mentions find the same records
after its many-to-many relations are expanded.  Only the expanded relations themselves are gone.  A
junction table has its two columns, and the two relations that lead to them, and nothing else.
-/

namespace SchemaDesign.Design

variable {design : Design} {ids : IdSupply}

/-- The table has two columns of its own, and one relation leads to each of them, from the two ends
of the relation that it stands for. -/
def JoinedBy (design : Design) (relation : Relation) (table : Table) : Prop :=
  ∃ x y, design.columnsOf table.id = [x, y] ∧
    design.relationsTo table.id =
      [ ⟨relation.source, ⟨table.id, some x.id⟩, .oneToMany⟩,
        ⟨relation.target, ⟨table.id, some y.id⟩, .oneToMany⟩ ]

def junctionRelations (design : Design) (ids : IdSupply) : List Relation :=
  design.junctions.zipIdx.flatMap fun (junction, position) =>
    junction.relations (ids (3 * position)) (ids (3 * position + 1)) (ids (3 * position + 2))

theorem expandJunctions_relations (design : Design) (ids : IdSupply) :
    (design.expandJunctions ids).relations =
      design.relations.filter (fun relation => (design.junction? relation).isNone) ++
        design.junctionRelations ids := rfl

theorem table_of_mem_columns {junction : Junction} {id : TableId} {sourceId targetId : ColumnId}
    {column : Column} (hmem : column ∈ junction.columns id sourceId targetId) :
    column.table = id := by
  rcases List.mem_cons.mp hmem with rfl | hmem
  · rfl
  · rw [List.mem_singleton.mp hmem]
    rfl

theorem target_of_mem_relations {junction : Junction} {id : TableId} {sourceId targetId : ColumnId}
    {relation : Relation} (hmem : relation ∈ junction.relations id sourceId targetId) :
    relation.target.table = id := by
  rcases List.mem_cons.mp hmem with rfl | hmem
  · rfl
  · rw [List.mem_singleton.mp hmem]
    rfl

theorem drawn_of_mem_junctionTables {table : Table} (hmem : table ∈ design.junctionTables ids) :
    ∃ position, ids position = table.id := by
  obtain ⟨x, _, rfl⟩ := List.mem_map.mp hmem
  exact ⟨3 * x.2, rfl⟩

theorem drawn_of_mem_junctionRelations {relation : Relation}
    (hmem : relation ∈ design.junctionRelations ids) :
    ∃ position, ids position = relation.target.table := by
  obtain ⟨x, _, hmade⟩ := List.mem_flatMap.mp hmem
  exact ⟨3 * x.2, (target_of_mem_relations hmade).symm⟩

theorem nodup_junctionIds (design : Design) (hinjective : Function.Injective ids) :
    (design.junctions.zipIdx.map fun x => ids (3 * x.2)).Nodup := by
  have hids := design.nodup_junctionTables hinjective
  rwa [junctionTables, List.map_map] at hids

/-- The junctions belong to the relations that resolve, in their order. -/
theorem forall₂_junctions (design : Design) :
    List.Forall₂ (fun relation x => design.junction? relation = some x.1)
      (design.relations.filter fun relation => (design.junction? relation).isSome)
      design.junctions.zipIdx := by
  have hmade := forall₂_filterMap design.junction? design.relations
  rwa [← junctions, ← List.zipIdx_map_fst 0 design.junctions, List.forall₂_map_right_iff] at hmade

/-- An end is told by the table and the column that it finds. -/
theorem endpoint_eq_of_found {endpoint : Endpoint} {table : Table} {key : Column}
    (htable : design.table? endpoint.table = some table)
    (hkey : ∃ id, endpoint.column = some id ∧ design.column? id = some key) :
    endpoint = ⟨table.id, some key.id⟩ := by
  obtain ⟨id, hid, hcolumn⟩ := hkey
  rw [(mem_of_table? htable).2, (mem_of_column? hcolumn).2, ← hid]

/-- Both sides of a junction are among the records of the design. -/
theorem mentions_sides_of_mem_junctions {junction : Junction} (hmem : junction ∈ design.junctions) :
    design.Mentions ⟨junction.source.id, some junction.sourceKey.id⟩ ∧
      design.Mentions ⟨junction.target.id, some junction.targetKey.id⟩ := by
  have hside : ∀ (table : Table) (key : Column) (tableId : TableId) (keyId : ColumnId),
      design.table? tableId = some table → design.column? keyId = some key →
      design.Mentions ⟨table.id, some key.id⟩ := by
    intro table key tableId keyId htable hkey
    constructor
    · exact mem_mentionedTables_of_hasTable (hasTable_of_mem (mem_of_table? htable).1)
    · intro id hid
      obtain rfl : key.id = id := Option.some.inj hid
      exact mem_mentionedColumns_of_mem (mem_of_column? hkey).1
  obtain ⟨relation, _, hjunction⟩ := List.mem_filterMap.mp hmem
  obtain ⟨_, ⟨hsource, sourceId, _, hsourceKey⟩, htarget, targetId, _, htargetKey⟩ :=
    junction?_eq_some hjunction
  exact ⟨hside _ _ _ _ hsource hsourceKey, hside _ _ _ _ htarget htargetKey⟩

/-! ### Ids that are not drawn -/

theorem table?_expandJunctions_of_not_drawn {id : TableId} (hid : ∀ position, ids position ≠ id) :
    (design.expandJunctions ids).table? id = design.table? id := by
  unfold table?
  rw [expandJunctions_tables]
  apply find?_key_append
  intro table hmem hsame
  obtain ⟨position, hposition⟩ := drawn_of_mem_junctionTables hmem
  exact hid position (hposition.trans hsame)

theorem column?_expandJunctions_of_not_drawn {id : ColumnId}
    (hid : ∀ position, ids position ≠ id) :
    (design.expandJunctions ids).column? id = design.column? id := by
  unfold column?
  rw [expandJunctions_columns]
  apply find?_key_append
  intro column hmem hsame
  obtain ⟨position, hposition⟩ := (mem_junctionColumns hmem).1
  exact hid position (hposition.trans hsame)

theorem columnsOf_expandJunctions_of_not_drawn {id : TableId}
    (hid : ∀ position, ids position ≠ id) :
    (design.expandJunctions ids).columnsOf id = design.columnsOf id := by
  unfold columnsOf
  have hnone : (design.junctionColumns ids).filter (·.table == id) = [] := by
    rw [List.filter_eq_nil_iff]
    intro column hmem hsame
    obtain ⟨table, htable, howner⟩ := (mem_junctionColumns hmem).2
    obtain ⟨position, hposition⟩ := drawn_of_mem_junctionTables htable
    exact hid position (hposition.trans (howner.symm.trans (beq_iff_eq.mp hsame)))
  rw [expandJunctions_columns, List.filter_append, hnone, List.append_nil]

/-- Where no column is on a table whose id is drawn, a junction table has its own columns only. -/
theorem columnsOf_junctionTable_of_new (hinjective : Function.Injective ids)
    (hnew : ∀ column ∈ design.columns, ∀ position, ids position ≠ column.table)
    {x : Junction × Nat} (hx : x ∈ design.junctions.zipIdx) :
    (design.expandJunctions ids).columnsOf (ids (3 * x.2)) =
      x.1.columns (ids (3 * x.2)) (ids (3 * x.2 + 1)) (ids (3 * x.2 + 2)) := by
  have hold : design.columns.filter (·.table == ids (3 * x.2)) = [] := by
    rw [List.filter_eq_nil_iff]
    intro column hmem hsame
    exact hnew column hmem (3 * x.2) (beq_iff_eq.mp hsame).symm
  unfold columnsOf
  rw [expandJunctions_columns, List.filter_append, hold, List.nil_append]
  exact filter_flatMap_key (fun _ _ hmade => table_of_mem_columns hmade)
    (design.nodup_junctionIds hinjective) hx

/-- No end of the relation names an id of the supply. -/
def FreeOf (ids : IdSupply) (relation : Relation) : Prop :=
  ∀ endpoint, endpoint = relation.source ∨ endpoint = relation.target →
    ∀ position, endpoint.table ≠ ids position ∧ endpoint.column ≠ some (ids position)

theorem junction?_expandJunctions {relation : Relation} (hfree : FreeOf ids relation) :
    (design.expandJunctions ids).junction? relation = design.junction? relation := by
  apply junction?_congr
  intro endpoint hend
  constructor
  · exact table?_expandJunctions_of_not_drawn fun position hsame =>
      (hfree endpoint hend position).1 hsame.symm
  · intro id hid
    apply column?_expandJunctions_of_not_drawn
    intro position hsame
    exact (hfree endpoint hend position).2 (hid.trans (congrArg some hsame.symm))

/-! ### Known ids -/

section Known

variable (hunused : ids.UnusedIn design)

include hunused

theorem table?_expandJunctions {id : TableId} (hid : id ∈ design.mentionedTables) :
    (design.expandJunctions ids).table? id = design.table? id :=
  table?_expandJunctions_of_not_drawn fun position hsame =>
    hunused.tables position (hsame ▸ hid)

theorem column?_expandJunctions {id : ColumnId} (hid : id ∈ design.mentionedColumns) :
    (design.expandJunctions ids).column? id = design.column? id :=
  column?_expandJunctions_of_not_drawn fun position hsame =>
    hunused.columns position (hsame ▸ hid)

theorem columnsOf_expandJunctions {id : TableId} (hid : id ∈ design.mentionedTables) :
    (design.expandJunctions ids).columnsOf id = design.columnsOf id :=
  columnsOf_expandJunctions_of_not_drawn fun position hsame =>
    hunused.tables position (hsame ▸ hid)

/-- A known table loses the relations that became junctions. -/
theorem relationsTo_expandJunctions {id : TableId} (hid : id ∈ design.mentionedTables) :
    (design.expandJunctions ids).relationsTo id =
      (design.relationsTo id).filter fun relation => (design.junction? relation).isNone := by
  unfold relationsTo
  have hnone : (design.junctionRelations ids).filter (·.target.table == id) = [] := by
    rw [List.filter_eq_nil_iff]
    intro relation hmem hsame
    obtain ⟨position, hposition⟩ := drawn_of_mem_junctionRelations hmem
    apply hunused.tables position
    rwa [hposition, beq_iff_eq.mp hsame]
  rw [expandJunctions_relations, List.filter_append, hnone, List.append_nil,
    List.filter_comm]

theorem referencedKey?_expandJunctions {relation : Relation}
    (hsource : design.Mentions relation.source) :
    (design.expandJunctions ids).referencedKey? relation = design.referencedKey? relation :=
  referencedKey?_congr rfl (table?_expandJunctions hunused hsource.table) fun id hid =>
    column?_expandJunctions hunused (hsource.column id hid)

/-! ### Junction tables -/

theorem columnsOf_junctionTable {x : Junction × Nat} (hx : x ∈ design.junctions.zipIdx) :
    (design.expandJunctions ids).columnsOf (ids (3 * x.2)) =
      x.1.columns (ids (3 * x.2)) (ids (3 * x.2 + 1)) (ids (3 * x.2 + 2)) :=
  columnsOf_junctionTable_of_new hunused.injective (fun _ hcolumn position hsame =>
    hunused.tables position (hsame ▸ mem_mentionedTables_of_owner hcolumn)) hx

theorem relationsTo_junctionTable {x : Junction × Nat} (hx : x ∈ design.junctions.zipIdx) :
    (design.expandJunctions ids).relationsTo (ids (3 * x.2)) =
      x.1.relations (ids (3 * x.2)) (ids (3 * x.2 + 1)) (ids (3 * x.2 + 2)) := by
  have hold : (design.relations.filter fun relation =>
      (design.junction? relation).isNone).filter (·.target.table == ids (3 * x.2)) = [] := by
    rw [List.filter_eq_nil_iff]
    intro relation hmem hsame
    apply hunused.tables (3 * x.2)
    rw [← beq_iff_eq.mp hsame]
    exact mem_mentionedTables_of_end (List.mem_of_mem_filter hmem) (.inr rfl)
  unfold relationsTo
  rw [expandJunctions_relations, List.filter_append, hold, List.nil_append]
  exact filter_flatMap_key (fun _ _ hmade => target_of_mem_relations hmade)
    (design.nodup_junctionIds hunused.injective) hx

/-- The junction tables belong to the relations that are expanded, in their order. -/
theorem forall₂_joinedBy :
    List.Forall₂ (design.expandJunctions ids).JoinedBy
      (design.relations.filter fun relation => (design.junction? relation).isSome)
      (design.junctionTables ids) := by
  rw [junctionTables, List.forall₂_map_right_iff]
  refine (forall₂_and_mem_zip design.forall₂_junctions).imp ?_
  rintro relation x ⟨hjunction, hmem⟩
  obtain ⟨_, ⟨hsource, hsourceKey⟩, htarget, htargetKey⟩ := junction?_eq_some hjunction
  have hx := (List.of_mem_zip hmem).2
  refine ⟨_, _, columnsOf_junctionTable hunused hx, ?_⟩
  rw [endpoint_eq_of_found hsource hsourceKey, endpoint_eq_of_found htarget htargetKey]
  exact relationsTo_junctionTable hunused hx

end Known

end SchemaDesign.Design
