import SchemaDesign.Proofs.Mapping.Descent
import SchemaDesign.Proofs.Mapping.JunctionTable
import SchemaDesign.Proofs.Mapping.Kept

/-!
# Column names of mapped designs

Tables get columns that other tables had, or that are named after tables and keys.  The names in a
mapped table are those of its own columns, followed by those that the mapping brings: where a
hierarchy becomes one table, the names of all its columns and that of the discriminator; where each
class has its table, the name of the root's key; and where columns are copied down, the names along
the line of the table.  A junction table has two columns, named after the tables that it joins.
-/

open Relation

namespace SchemaDesign

/-- Where names are distinct within each group, they are distinct in the whole list when no two
groups share one. -/
theorem nodup_map_iff_of_groups {α : Type} {key name : α → String} {list : List α}
    (hgroup : ∀ k, ((list.filter (key · == k)).map name).Nodup) :
    (list.map name).Nodup ↔
      ∀ x ∈ list, ∀ y ∈ list, key x ≠ key y → name x ≠ name y := by
  constructor
  · intro hnodup x hx y hy hne hname
    exact hne (congrArg key (List.inj_on_of_nodup_map hnodup hx hy hname))
  · intro hapart
    induction list with
    | nil => exact List.nodup_nil
    | cons x list ih =>
        rw [List.map_cons, List.nodup_cons]
        constructor
        · intro hmem
          obtain ⟨y, hy, hname⟩ := List.mem_map.mp hmem
          by_cases hkey : key x = key y
          · have hsame := hgroup (key x)
            rw [List.filter_cons_of_pos (by simp), List.map_cons, List.nodup_cons] at hsame
            apply hsame.1
            rw [← hname]
            exact List.mem_map_of_mem (List.mem_filter.mpr ⟨hy, by simp [hkey]⟩)
          · exact hapart x List.mem_cons_self y (List.mem_cons_of_mem _ hy) hkey hname.symm
        · apply ih
          · intro k
            exact (hgroup k).sublist (((List.sublist_cons_self x list).filter _).map name)
          · exact fun y hy z hz =>
              hapart y (List.mem_cons_of_mem _ hy) z (List.mem_cons_of_mem _ hz)

namespace Design

variable {design : Design} {ids : IdSupply} {lineage : Lineage}

/-- The names of the columns of a table. -/
def namesOf (design : Design) (id : TableId) : List String :=
  (design.columnsOf id).map (·.name)

/-- No table has two columns of one name. -/
def NamesColumnsApart (design : Design) : Prop :=
  ∀ table ∈ design.tables, (design.namesOf table.id).Nodup

theorem mem_namesOf_iff (design : Design) (id : TableId) (name : String) :
    name ∈ design.namesOf id ↔ ∃ x ∈ design.columns, x.table = id ∧ x.name = name := by
  simp [namesOf, columnsOf, and_assoc]

theorem Clean.nodup_namesOf (hclean : design.Clean) (hapart : design.NamesColumnsApart)
    (id : TableId) : (design.namesOf id).Nodup := by
  by_cases htable : design.hasTable id
  · obtain ⟨table, hmem, rfl⟩ := exists_mem_of_hasTable htable
    exact hapart table hmem
  · have hnone : design.columnsOf id = [] := by
      rw [columnsOf, List.filter_eq_nil_iff]
      intro x hx howner
      exact htable (beq_iff_eq.mp howner ▸ hclean.owner x hx)
    rw [namesOf, hnone]
    exact List.nodup_nil

/-! ### One table for each hierarchy -/

theorem mem_absorbingRoots_iff (lineage : Lineage) (tables : List Table) (root : TableId) :
    root ∈ lineage.absorbingRoots tables ↔
      ∃ table ∈ tables, lineage.root table.id = root ∧ ¬lineage.isRoot table.id := by
  simp [Lineage.absorbingRoots, List.mem_eraseDups, and_assoc, and_comm]

theorem map_name_discriminators (ids : IdSupply) (lineage : Lineage) {root : Table}
    (hroot : design.table? root.id = some root) :
    ((design.discriminators ids lineage).filter (·.table == root.id)).map (·.name) =
      if root.id ∈ lineage.absorbingRoots design.tables then [root.name ++ "_TYPE"] else [] := by
  obtain ⟨position, hfilter⟩ := exists_filter_discriminators design ids lineage root.id
  rw [hfilter]
  cases hfind : (lineage.absorbingRoots design.tables).find? (· == root.id) with
  | none =>
      have hnone : root.id ∉ lineage.absorbingRoots design.tables := fun hmem =>
        List.find?_eq_none.mp hfind root.id hmem (beq_self_eq_true _)
      simp [hnone]
  | some other =>
      obtain rfl : other = root.id := by simpa using List.find?_some hfind
      have hmem : root.id ∈ lineage.absorbingRoots design.tables := List.mem_of_find?_eq_some hfind
      simp [hmem, hroot, Table.discriminator, Column.create, Column.notNull]

/-- The names that come from the tables of a hierarchy are followed by that of the discriminator. -/
theorem namesOf_mergeHierarchies (design : Design) (ids : IdSupply) (lineage : Lineage)
    (id : TableId) :
    (design.mergeHierarchies ids lineage).namesOf id =
      (design.columns.filter (lineage.root ·.table == id)).map (·.name) ++
        ((design.discriminators ids lineage).filter (·.table == id)).map (·.name) := by
  unfold namesOf columnsOf mergeHierarchies
  rw [List.filter_append, List.map_append, List.filter_map, List.map_map]
  rfl

/-! ### One table for each class -/

/-- The key of the root of a table, if the root is another table. -/
theorem rootKey?_eq_some_iff (hlineage : Lineage.of design = .ok lineage) {table : Table}
    (htable : table ∈ design.tables) (key : Column) :
    design.rootKey? lineage table = some key ↔
      ¬lineage.isRoot table.id ∧ design.primaryKeyOf? (lineage.root table.id) = some key := by
  obtain ⟨root, hroot⟩ := Option.isSome_iff_exists.mp
    (lineage.hasTable_root hlineage (hasTable_of_mem htable))
  have hid : root.id = lineage.root table.id := (mem_of_table? hroot).2
  rw [rootKey?, hroot, Option.bind_some, hid]
  cases lineage.isRoot table.id <;> simp

theorem map_name_keyLinks (design : Design) (ids : IdSupply) (lineage : Lineage) (id : TableId) :
    ((design.keyLinks ids lineage).filter (·.column.table == id)).map (·.column.name) =
      (design.tables.filter (·.id == id)).filterMap fun table =>
        (design.rootKey? lineage table).map (·.name) := by
  have hmade : ∀ x : Table × Nat,
      (((design.keyLink? ids lineage x.1 x.2).filter (·.column.table == id)).map
        (·.column.name)) =
      if x.1.id == id then (design.rootKey? lineage x.1).map (·.name) else none := by
    intro x
    unfold keyLink?
    cases design.rootKey? lineage x.1 with
    | none => simp
    | some key =>
        by_cases howner : x.1.id = id
        · simp [howner, Option.filter]
        · simp [howner, Option.filter]
  rw [keyLinks_eq, List.filter_filterMap, List.map_filterMap, List.filterMap_filter]
  simp only [hmade]
  have hfst : design.tables = design.tables.zipIdx.map Prod.fst := (List.zipIdx_map_fst 0 _).symm
  conv_rhs => rw [hfst, List.filterMap_map]
  rfl

/-- The name of the key comes once for each record of the table. -/
theorem namesOf_linkClasses (design : Design) (ids : IdSupply) (lineage : Lineage) (table : Table) :
    (design.linkClasses ids lineage).namesOf table.id =
      design.namesOf table.id ++ (design.rootKey? lineage table).toList.flatMap fun key =>
        List.replicate (design.tableIds.count table.id) key.name := by
  have hnew : (((design.keyLinks ids lineage).map (·.column)).filter
      (·.table == table.id)).map (·.name) =
      (design.tables.filter (·.id == table.id)).filterMap fun _ =>
        (design.rootKey? lineage table).map (·.name) := by
    rw [List.filter_map, List.map_map]
    refine (map_name_keyLinks design ids lineage table.id).trans ?_
    apply List.filterMap_congr
    intro other hother
    have hid : other.id = table.id := beq_iff_eq.mp (List.mem_filter.mp hother).2
    rw [rootKey?, rootKey?, hid]
  have hcount : (design.tables.filter (·.id == table.id)).length =
      design.tableIds.count table.id := by
    rw [← List.countP_eq_length_filter, tableIds, List.count_eq_countP, List.countP_map]
    rfl
  rw [namesOf, columnsOf, linkClasses, List.filter_append, List.map_append, hnew, ← hcount]
  cases design.rootKey? lineage table with
  | none => simp [namesOf, columnsOf]
  | some key => simp [namesOf, columnsOf]

/-! ### Only concrete tables -/

theorem map_name_copiesFor (ids : IdSupply) (id : TableId) (start : Nat) (columns : List Column) :
    (copiesFor ids id start columns).map (·.name) = columns.map (·.name) := by
  unfold copiesFor
  rw [List.map_map]
  conv_rhs => rw [← List.zipIdx_map_fst start columns, List.map_map]
  rfl

/-- A completed table has the names along its line. -/
theorem map_name_completedColumns (ids : IdSupply) (hlineage : Lineage.of design = .ok lineage)
    (id : TableId) :
    ((design.completedColumns ids lineage).filter (·.table == id)).map (·.name) =
      (lineage.line id).flatMap design.namesOf := by
  induction id using lineage.line_induction hlineage with
  | root id hbase =>
      have hself : lineage.base id = id := (lineage.base_eq hlineage id).trans hbase
      rw [filter_completedColumns_of_base_eq hself, lineage.line_of_base_eq hlineage hbase,
        List.flatMap_singleton]
      rfl
  | step id hbase ih =>
      have hbaseEq := lineage.base_eq hlineage id
      obtain ⟨start, hfilter⟩ := exists_filter_completedColumns ids hlineage (hbaseEq ▸ hbase)
      rw [hfilter, List.map_append, map_name_copiesFor, hbaseEq, ih,
        lineage.line_of_base_ne hlineage hbase, List.flatMap_cons]
      rfl

theorem namesOf_flattenHierarchies (ids : IdSupply) (hlineage : Lineage.of design = .ok lineage)
    (id : TableId) :
    (design.flattenHierarchies ids lineage).namesOf id =
      if id ∈ design.abstractIds then [] else (lineage.line id).flatMap design.namesOf := by
  rw [namesOf, columnsOf_flattenHierarchies]
  split
  case isTrue => rfl
  case isFalse => exact map_name_completedColumns ids hlineage id

/-! ### Junction tables -/

theorem nodup_junction_names_iff (a b : String) : [a ++ "Id", b ++ "Id"].Nodup ↔ a ≠ b := by
  simp [String.append_left_inj]

/-- A junction table has two columns of one name exactly when it joins tables of one name. -/
theorem namesColumnsApart_expandJunctions_iff (hinjective : Function.Injective ids)
    (htables : ∀ position, ids position ∉ design.tableIds)
    (howners : ∀ column ∈ design.columns, ∀ position, ids position ≠ column.table) :
    (design.expandJunctions ids).NamesColumnsApart ↔
      design.NamesColumnsApart ∧
        ∀ junction ∈ design.junctions, junction.source.name ≠ junction.target.name := by
  have hold : ∀ table ∈ design.tables,
      (design.expandJunctions ids).namesOf table.id = design.namesOf table.id := by
    intro table hmem
    have hnotDrawn : ∀ position, ids position ≠ table.id := fun position hsame =>
      htables position (hsame ▸ List.mem_map_of_mem hmem)
    rw [namesOf, columnsOf_expandJunctions_of_not_drawn hnotDrawn]
    rfl
  have hnew : ∀ x ∈ design.junctions.zipIdx, (design.expandJunctions ids).namesOf (ids (3 * x.2)) =
      [x.1.source.name ++ "Id", x.1.target.name ++ "Id"] := by
    intro x hx
    rw [namesOf, columnsOf_junctionTable_of_new hinjective howners hx]
    rfl
  unfold NamesColumnsApart
  rw [expandJunctions_tables, List.forall_mem_append]
  apply and_congr
  · apply forall₂_congr
    intro table hmem
    rw [hold table hmem]
  · conv_rhs => rw [← List.zipIdx_map_fst 0 design.junctions, List.forall_mem_map]
    rw [junctionTables, List.forall_mem_map]
    apply forall₂_congr
    intro x hx
    have hnames : (design.expandJunctions ids).namesOf (x.1.table (ids (3 * x.2))).id =
        [x.1.source.name ++ "Id", x.1.target.name ++ "Id"] := hnew x hx
    rw [hnames, nodup_junction_names_iff]

end Design

end SchemaDesign
