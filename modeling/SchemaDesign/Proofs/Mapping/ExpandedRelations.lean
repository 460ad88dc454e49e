import SchemaDesign.Proofs.Mapping.JunctionTable
import SchemaDesign.Proofs.Mapping.Normalize

/-!
# Expanded relations

A many-to-many relation is expanded if both its tables and both its columns are found.  It makes way
for a table, two columns that are the only ones of this table, and two relations that lead to them
from where the many-to-many relation had its ends.  All else stays in its place, and so every id
that the design mentions is looked up with the same result.
-/

namespace SchemaDesign

/-- The records that take the place of a many-to-many relation. -/
structure JunctionRecords where
  table : Table
  sourceColumn : Column
  targetColumn : Column
  fromSource : Relation
  fromTarget : Relation

namespace JunctionRecords

def columns (records : JunctionRecords) : List Column :=
  [records.sourceColumn, records.targetColumn]

def relations (records : JunctionRecords) : List Relation :=
  [records.fromSource, records.fromTarget]

/-- The records of a junction at a position, which take three ids of the supply. -/
def ofJunction (ids : IdSupply) (junction : Junction) (position : Nat) : JunctionRecords :=
  let id := ids (3 * position)
  { table := junction.table id
    sourceColumn := Junction.keyColumn (ids (3 * position + 1)) id junction.source junction.sourceKey
    targetColumn := Junction.keyColumn (ids (3 * position + 2)) id junction.target junction.targetKey
    fromSource := .between .oneToMany junction.source.id junction.sourceKey.id id
      (ids (3 * position + 1))
    fromTarget := .between .oneToMany junction.target.id junction.targetKey.id id
      (ids (3 * position + 2)) }

end JunctionRecords

namespace Design

variable {design : Design} {ids : IdSupply}

instance decidableFinds (endpoint : Endpoint) : Decidable (design.Finds endpoint) :=
  decidable_of_iff (design.hasTable endpoint.table ∧ (endpoint.column.bind design.column?).isSome)
    (and_congr_right' (by cases endpoint.column <;> simp))

/-- A many-to-many relation of which both tables and both columns are found. -/
def JoinsFound (design : Design) (relation : Relation) : Prop :=
  relation.kind = .manyToMany ∧ design.Finds relation.source ∧ design.Finds relation.target

instance decidableJoinsFound (relation : Relation) : Decidable (design.JoinsFound relation) :=
  inferInstanceAs (Decidable (_ ∧ _ ∧ _))

theorem junction?_isSome_iff (design : Design) (relation : Relation) :
    (design.junction? relation).isSome ↔ design.JoinsFound relation := by
  constructor
  · intro hsome
    obtain ⟨junction, hjunction⟩ := Option.isSome_iff_exists.mp hsome
    exact ⟨(junction?_eq_some hjunction).1, finds_of_junction?_eq_some hjunction⟩
  · rintro ⟨hkind, hfinds⟩
    rw [← Option.ne_none_iff_isSome, Ne, junction?_eq_none_iff hkind, not_not]
    exact hfinds

/-- The column of a junction table refers to a side of the relation: it is a key, named after the
table of the side and typed like its column, and the relation leads from there to it. -/
def RefersToSide (design : Design) (junction : Table) (side : Endpoint) (column : Column)
    (relation : Relation) : Prop :=
  ∃ table key, design.table? side.table = some table ∧
    side.column.bind design.column? = some key ∧
    column =
      { id := column.id, table := junction.id, name := table.name ++ "Id", typeText := key.typeText,
        isPrimaryKey := true, isForeignKey := true, isNullable := false, isUnique := false,
        defaultValue := none } ∧
    relation = ⟨side, ⟨junction.id, some column.id⟩, .oneToMany⟩

/-- The records take the place of the relation: a table named after both its tables, and for each
side a column with a relation to it. -/
def ExpandsTo (design : Design) (relation : Relation) (records : JunctionRecords) : Prop :=
  (∃ source target, design.table? relation.source.table = some source ∧
    design.table? relation.target.table = some target ∧
    records.table =
      { Table.create records.table.id (source.name ++ "_" ++ target.name) with
        position := source.position.midpoint target.position }) ∧
  design.RefersToSide records.table relation.source records.sourceColumn records.fromSource ∧
  design.RefersToSide records.table relation.target records.targetColumn records.fromTarget

/-- The two relations that lead to the table come from these two tables. -/
def IsBetween (design : Design) (source target : TableId) (table : Table) : Prop :=
  (design.relationsTo table.id).map (·.source.table) = [source, target]

instance decidableIsBetween (source target : TableId) (table : Table) :
    Decidable (design.IsBetween source target table) :=
  inferInstanceAs (Decidable (_ = _))

theorem refersToSide_keyColumn {junction table : Table} {side : Endpoint} {key : Column}
    (htable : design.table? side.table = some table)
    (hkey : ∃ id, side.column = some id ∧ design.column? id = some key) (id : ColumnId) :
    design.RefersToSide junction side (Junction.keyColumn id junction.id table key)
      (.between .oneToMany table.id key.id junction.id id) := by
  have hside := endpoint_eq_of_found htable hkey
  obtain ⟨keyId, hkeyId, hcolumn⟩ := hkey
  refine ⟨table, key, htable, by rw [hkeyId, Option.bind_some, hcolumn], rfl, ?_⟩
  rw [hside]
  rfl

/-- The records of all junctions, in the order of the relations. -/
def junctionRecords (design : Design) (ids : IdSupply) : List JunctionRecords :=
  design.junctions.zipIdx.map fun (junction, position) => .ofJunction ids junction position

theorem forall₂_expandsTo (design : Design) (ids : IdSupply) :
    List.Forall₂ design.ExpandsTo
      (design.relations.filter fun relation => design.JoinsFound relation)
      (design.junctionRecords ids) := by
  have hresolved : (design.relations.filter fun relation => (design.junction? relation).isSome) =
      design.relations.filter fun relation => design.JoinsFound relation := by
    apply List.filter_congr
    intro relation _
    rw [Bool.eq_iff_iff, junction?_isSome_iff, decide_eq_true_iff]
  rw [← hresolved, junctionRecords, List.forall₂_map_right_iff]
  refine design.forall₂_junctions.imp ?_
  rintro relation ⟨junction, position⟩ hjunction
  obtain ⟨_, ⟨hsource, hsourceKey⟩, htarget, htargetKey⟩ := junction?_eq_some hjunction
  exact ⟨⟨_, _, hsource, htarget, rfl⟩, refersToSide_keyColumn hsource hsourceKey _,
    refersToSide_keyColumn htarget htargetKey _⟩

theorem junctionRecords_tables (design : Design) (ids : IdSupply) :
    (design.junctionRecords ids).map (·.table) = design.junctionTables ids := by
  rw [junctionRecords, List.map_map]
  rfl

theorem junctionRecords_columns (design : Design) (ids : IdSupply) :
    (design.junctionRecords ids).flatMap (·.columns) = design.junctionColumns ids := by
  rw [junctionRecords, List.flatMap_map]
  rfl

theorem junctionRecords_relations (design : Design) (ids : IdSupply) :
    (design.junctionRecords ids).flatMap (·.relations) = design.junctionRelations ids := by
  rw [junctionRecords, List.flatMap_map]
  rfl

theorem filter_isNone_junction? (design : Design) :
    (design.relations.filter fun relation => (design.junction? relation).isNone) =
      design.relations.filter fun relation => ¬design.JoinsFound relation := by
  apply List.filter_congr
  intro relation _
  rw [Bool.eq_iff_iff, Option.isNone_iff_eq_none, decide_eq_true_iff, ← junction?_isSome_iff,
    Option.not_isSome_iff_eq_none]

section Expanded

variable (hunused : ids.UnusedIn design)

include hunused

/-- A new table has the records that were made with it, and no others. -/
theorem own_junctionRecords {records : JunctionRecords}
    (hrecords : records ∈ design.junctionRecords ids) :
    (design.expandJunctions ids).columnsOf records.table.id = records.columns ∧
      (design.expandJunctions ids).relationsTo records.table.id = records.relations := by
  obtain ⟨x, hx, rfl⟩ := List.mem_map.mp hrecords
  exact ⟨columnsOf_junctionTable hunused hx, relationsTo_junctionTable hunused hx⟩

theorem isBetween_iff {relation : Relation} {records : JunctionRecords}
    (hrecords : records ∈ design.junctionRecords ids) (hexpands : design.ExpandsTo relation records)
    (source target : TableId) :
    (design.expandJunctions ids).IsBetween source target records.table ↔
      relation.source.table = source ∧ relation.target.table = target := by
  obtain ⟨_, ⟨_, _, _, _, _, hsource⟩, _, _, _, _, _, htarget⟩ := hexpands
  unfold IsBetween
  rw [(own_junctionRecords hunused hrecords).2, JunctionRecords.relations, hsource, htarget]
  simp

theorem countP_isBetween (source target : TableId) :
    ((design.junctionRecords ids).map (·.table)).countP
        (fun table => (design.expandJunctions ids).IsBetween source target table) =
      design.relations.countP fun relation => design.JoinsFound relation ∧
        relation.source.table = source ∧ relation.target.table = target := by
  have hmade := forall₂_and_mem_zip (design.forall₂_expandsTo ids)
  have hbetween := forall₂_filter hmade (p := fun relation =>
      relation.source.table = source ∧ relation.target.table = target)
      (q := fun records => (design.expandJunctions ids).IsBetween source target records.table) (by
    rintro relation records ⟨hexpands, hmem⟩
    rw [Bool.eq_iff_iff, decide_eq_true_iff, decide_eq_true_iff]
    exact (isBetween_iff hunused (List.of_mem_zip hmem).2 hexpands source target).symm)
  have hcount := hbetween.length_eq
  rw [← List.countP_eq_length_filter, ← List.countP_eq_length_filter, List.countP_filter] at hcount
  rw [List.countP_map]
  simpa [Function.comp_def, and_comm] using hcount.symm

/-- Each many-to-many relation that joins what is found makes way for records of its own, in the
order of the relations, and all else that the design has or mentions is as before. -/
theorem designs_with_expanded_relations :
    ∃ (expanded : Design) (made : List JunctionRecords),
      expanded = design.expandJunctions ids ∧
      expanded.tables = design.tables ++ made.map (·.table) ∧
      expanded.columns = design.columns ++ made.flatMap (·.columns) ∧
      expanded.relations =
        (design.relations.filter fun relation => ¬design.JoinsFound relation) ++
          made.flatMap (·.relations) ∧
      List.Forall₂ design.ExpandsTo
        (design.relations.filter fun relation => design.JoinsFound relation) made ∧
      (∀ records ∈ made, expanded.columnsOf records.table.id = records.columns ∧
        expanded.relationsTo records.table.id = records.relations) ∧
      (made.map (·.table.id)).Nodup ∧ ((made.flatMap (·.columns)).map (·.id)).Nodup ∧
      (∀ id ∈ design.mentionedTables, expanded.table? id = design.table? id ∧
        expanded.columnsOf id = design.columnsOf id) ∧
      (∀ id ∈ design.mentionedColumns, expanded.column? id = design.column? id) ∧
      ∀ source target,
        (made.map (·.table)).countP (fun table => expanded.IsBetween source target table) =
          design.relations.countP fun relation => design.JoinsFound relation ∧
            relation.source.table = source ∧ relation.target.table = target := by
  refine ⟨_, design.junctionRecords ids, rfl, ?_, ?_, ?_, design.forall₂_expandsTo ids,
    fun records hrecords => own_junctionRecords hunused hrecords, ?_, ?_,
    fun id hid => ⟨table?_expandJunctions hunused hid, columnsOf_expandJunctions hunused hid⟩,
    fun id hid => column?_expandJunctions hunused hid, countP_isBetween hunused⟩
  · rw [junctionRecords_tables, expandJunctions_tables]
  · rw [junctionRecords_columns, expandJunctions_columns]
  · rw [junctionRecords_relations, expandJunctions_relations, filter_isNone_junction?]
  · have htables := design.nodup_junctionTables hunused.injective
    rwa [← junctionRecords_tables, List.map_map] at htables
  · rw [junctionRecords_columns]
    exact design.nodup_junctionColumns hunused.injective

end Expanded

/-- Students attend courses and assist in them, and courses are in a room.  What they like is not
a column of theirs, and so this relation stays. -/
def campus : Design where
  tables := ["student", "course", "room"].map fun name => Table.create name name
  columns :=
    [ (Column.create "number" "student" "number" "INT").primaryKey,
      (Column.create "code" "course" "code" "UUID").primaryKey,
      Column.create "floor" "room" "floor" "INT" ]
  relations :=
    [ .between .manyToMany "student" "number" "course" "code",
      .between .manyToMany "student" "likes" "course" "code",
      .between .oneToOne "room" "floor" "course" "code",
      .between .manyToMany "student" "number" "course" "code" ]
  inheritance := .classTable

theorem expanded_campus :
    hashes.UnusedIn campus ∧ ∃ (expanded : Design) (first second : JunctionRecords),
      expanded = campus.expandJunctions hashes ∧
      expanded.tables = campus.tables ++ [first.table, second.table] ∧
      expanded.relations =
        [ .between .manyToMany "student" "likes" "course" "code",
          .between .oneToOne "room" "floor" "course" "code",
          first.fromSource, first.fromTarget, second.fromSource, second.fromTarget ] ∧
      first.table.name = "student_course" ∧ first.table.id ≠ second.table.id ∧
      (expanded.columnsOf second.table.id).map (fun column => (column.name, column.typeText)) =
        [("studentId", "INT"), ("courseId", "UUID")] ∧
      expanded.column? "code" = campus.column? "code" := by
  have hunused : hashes.UnusedIn campus := hashes_unusedIn (by decide) (by decide)
  obtain ⟨expanded, made, rfl, htables, _, hrelations, hexpands, hown, hnodup, _, _, hlookup, _⟩ :=
    designs_with_expanded_relations hunused
  have hjoined : (campus.relations.filter fun relation => campus.JoinsFound relation) =
      [ .between .manyToMany "student" "number" "course" "code",
        .between .manyToMany "student" "number" "course" "code" ] := by
    rfl
  have hkept : (campus.relations.filter fun relation => ¬campus.JoinsFound relation) =
      [ .between .manyToMany "student" "likes" "course" "code",
        .between .oneToOne "room" "floor" "course" "code" ] := by
    rfl
  rw [hjoined] at hexpands
  rw [hkept] at hrelations
  obtain ⟨first, rest, hfirst, hrest, rfl⟩ := List.forall₂_cons_left_iff.mp hexpands
  obtain ⟨second, others, hsecond, hothers, rfl⟩ := List.forall₂_cons_left_iff.mp hrest
  obtain rfl := List.forall₂_nil_left_iff.mp hothers
  have hname : first.table.name = "student_course" := by
    obtain ⟨⟨source, target, hsource, htarget, htable⟩, _⟩ := hfirst
    obtain rfl : Table.create "student" "student" = source := Option.some.inj hsource
    obtain rfl : Table.create "course" "course" = target := Option.some.inj htarget
    rw [htable]
    rfl
  have hcolumns : second.columns.map (fun column => (column.name, column.typeText)) =
      [("studentId", "INT"), ("courseId", "UUID")] := by
    obtain ⟨_, ⟨source, sourceKey, hsource, hsourceKey, hsourceColumn, _⟩,
      target, targetKey, htarget, htargetKey, htargetColumn, _⟩ := hsecond
    obtain rfl : Table.create "student" "student" = source := Option.some.inj hsource
    obtain rfl : Table.create "course" "course" = target := Option.some.inj htarget
    rw [JunctionRecords.columns, hsourceColumn, htargetColumn, List.map_cons, List.map_singleton,
      ← Option.some.inj hsourceKey, ← Option.some.inj htargetKey]
    rfl
  refine ⟨hunused, _, first, second, rfl, htables, hrelations, hname, ?_, ?_, ?_⟩
  · simpa using hnodup
  · rw [(hown second (by simp)).1, hcolumns]
  · exact hlookup "code" (by decide)

end Design

end SchemaDesign
