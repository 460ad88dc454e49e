import SchemaDesign.Proofs.Mapping.Completion
import SchemaDesign.Proofs.Mapping.JunctionTable
import SchemaDesign.Proofs.Mapping.Normalize

/-!
# Inherited columns

Where columns are copied down, a table that stays has its own columns and after them copies of those
of its ancestors, from its parent up to its root.  The order in which tables and columns are listed
does not matter for this.  A copy of a copy is a copy of the original, so only originals have to be
spoken of, and each of them is copied once.
-/

namespace SchemaDesign

/-- The ancestors of a table, from its parent up to its root. -/
inductive Lineage.Above (lineage : Lineage) : TableId → List TableId → Prop where
  | root {id : TableId} (hself : lineage.base id = id) : Above lineage id []
  | step {id : TableId} {ancestors : List TableId} (hbase : lineage.base id ≠ id)
      (habove : Above lineage (lineage.base id) ancestors) :
      Above lineage id (lineage.base id :: ancestors)

/-- The column is the original in all but its id, which is drawn, and its table. -/
def Column.CopyFor (ids : IdSupply) (id : TableId) (original copy : Column) : Prop :=
  ∃ position, copy = original.copyTo (ids position) id

variable {design : Design} {ids : IdSupply} {lineage : Lineage}

theorem forall₂_copiesFor {id : TableId} {originals columns : List Column}
    (h : List.Forall₂ (fun original column => ∀ newId owner,
      column.copyTo newId owner = original.copyTo newId owner) originals columns) (start : Nat) :
    List.Forall₂ (Column.CopyFor ids id) originals (copiesFor ids id start columns) := by
  induction h generalizing start with
  | nil => exact .nil
  | @cons original column originals columns hsame _ ih =>
      have hcons : copiesFor ids id start (column :: columns) =
          column.copyTo (ids start) id :: copiesFor ids id (start + 1) columns := rfl
      rw [hcons]
      exact .cons ⟨start, hsame _ _⟩ (ih (start + 1))

namespace Design

theorem exists_inherited (ids : IdSupply) (hlineage : Lineage.of design = .ok lineage)
    (id : TableId) :
    ∃ ancestors copies, lineage.Above id ancestors ∧
      (design.completedColumns ids lineage).filter (·.table == id) =
        design.columnsOf id ++ copies ∧
      List.Forall₂ (Column.CopyFor ids id) (ancestors.flatMap design.columnsOf) copies := by
  induction id using lineage.line_induction hlineage with
  | root id hbase =>
      have hself : lineage.base id = id := (lineage.base_eq hlineage id).trans hbase
      refine ⟨[], [], .root hself, ?_, .nil⟩
      rw [filter_completedColumns_of_base_eq hself, List.append_nil]
  | step id hbase ih =>
      rw [← lineage.base_eq hlineage] at hbase ih
      obtain ⟨ancestors, copies, habove, hcompleted, hcopies⟩ := ih
      obtain ⟨start, hfilter⟩ := exists_filter_completedColumns ids hlineage hbase
      have horiginals : List.Forall₂ (fun original column => ∀ newId owner,
          column.copyTo newId owner = original.copyTo newId owner)
          ((lineage.base id :: ancestors).flatMap design.columnsOf)
          (design.columnsOf (lineage.base id) ++ copies) := by
        rw [List.flatMap_cons]
        apply List.rel_append
        · exact List.forall₂_same.mpr fun _ _ _ _ => rfl
        · refine hcopies.imp ?_
          rintro original copy ⟨position, rfl⟩ _ _
          rfl
      rw [hcompleted] at hfilter
      exact ⟨_, _, .step hbase habove, hfilter, forall₂_copiesFor horiginals start⟩

/-! ### New records -/

theorem mem_junctionTables {junction : Table} (hmem : junction ∈ design.junctionTables ids) :
    (∃ position, ids position = junction.id) ∧
      ∃ relation ∈ design.relations, relation.kind = .manyToMany ∧
        ∃ source target, design.table? relation.source.table = some source ∧
          design.table? relation.target.table = some target ∧
          junction.name = source.name ++ "_" ++ target.name := by
  obtain ⟨x, hx, rfl⟩ := List.mem_map.mp hmem
  obtain ⟨relation, hrelation, hjunction⟩ :=
    List.mem_filterMap.mp (List.fst_mem_of_mem_zipIdx hx)
  obtain ⟨hkind, ⟨hsource, _⟩, htarget, _⟩ := junction?_eq_some hjunction
  exact ⟨⟨3 * x.2, rfl⟩, relation, hrelation, hkind, _, _, hsource, htarget, rfl⟩

/-- The ids of new columns are distinct, those of copies and those of junction keys taken
together. -/
theorem nodup_new_columnIds (hlineage : Lineage.of design = .ok lineage)
    (hfresh : ids.FreshFor design) :
    ((((design.flattenHierarchies ids.left lineage).dropInheritance.expandJunctions
      ids.right).columns.filter (·.id ∉ design.columnIds)).map (·.id)).Nodup := by
  obtain ⟨copies, hcompletes⟩ := exists_completes ids.left hlineage
  have hcopies : (copies.map (·.id)).Nodup := by
    rw [hcompletes.ids_eq]
    exact List.Nodup.map hfresh.left.injective List.nodup_range'
  have hnew : ((design.flattenHierarchies ids.left lineage).columns.filter
      (·.id ∉ design.columnIds)).Sublist copies := by
    have hold : (design.columns.filter (·.table ∉ design.abstractIds)).filter
        (·.id ∉ design.columnIds) = [] := by
      rw [List.filter_eq_nil_iff]
      intro column hmem
      have hid : column.id ∈ design.columnIds :=
        List.mem_map_of_mem (List.mem_of_mem_filter hmem)
      simpa using hid
    rw [flattenHierarchies, hcompletes.split, List.filter_append, List.filter_append, hold,
      List.nil_append]
    exact List.filter_sublist.trans List.filter_sublist
  rw [expandJunctions_columns, List.filter_append, List.map_append, List.nodup_append]
  refine ⟨hcopies.sublist (hnew.map _), ?_, ?_⟩
  · have hkeys := nodup_junctionColumns (design.flattenHierarchies ids.left lineage).dropInheritance
      (IdSupply.injective_right hfresh.injective)
    exact hkeys.sublist (List.filter_sublist.map _)
  · intro id hcopy other hkey hsame
    obtain ⟨copy, hmem, rfl⟩ := List.mem_map.mp hcopy
    obtain ⟨key, hjunction, rfl⟩ := List.mem_map.mp hkey
    obtain ⟨left, hleft⟩ := hcompletes.drawn (hnew.subset hmem)
    obtain ⟨right, hright⟩ := (mem_junctionColumns (List.mem_of_mem_filter hjunction)).1
    have hdrawn : ids (2 * left) = ids (2 * right + 1) := hleft.trans (hsame.trans hright.symm)
    have heven := hfresh.injective hdrawn
    omega

theorem not_mem_abstractIds (htables : design.tableIds.Nodup) {table : Table}
    (hmem : table ∈ design.tables) (hconcrete : ¬table.isAbstract) :
    table.id ∉ design.abstractIds := by
  rw [mem_abstractIds_iff]
  rintro ⟨other, hother, habstract, hid⟩
  have hsame := List.inj_on_of_nodup_map htables hother hmem hid
  exact hconcrete (hsame ▸ habstract)

theorem drawn_ne_id (hfresh : ids.FreshFor design) {table : Table} (hmem : table ∈ design.tables)
    (position : Nat) : ids position ≠ table.id := by
  intro hsame
  have hid : table.id ∈ design.tableIds := List.mem_map_of_mem hmem
  exact hfresh.tables position (hsame ▸ hid)

theorem owner_ne_of_isAbstract (hfresh : ids.FreshFor design) {table : Table}
    (hmem : table ∈ design.tables) (habstract : table.isAbstract) {column : Column}
    (hcolumn : column ∈
      ((design.flattenHierarchies ids.left lineage).dropInheritance.expandJunctions
        ids.right).columns) :
    column.table ≠ table.id := by
  intro howner
  rcases List.mem_append.mp hcolumn with hcolumn | hcolumn
  · have hdropped := (design.mem_abstractIds_iff table.id).mpr ⟨table, hmem, habstract, rfl⟩
    have hkept := (List.mem_filter.mp hcolumn).2
    rw [howner] at hkept
    simp [hdropped] at hkept
  · obtain ⟨junction, hjunction, hsame⟩ := (mem_junctionColumns hcolumn).2
    obtain ⟨position, hid⟩ := (mem_junctionTables hjunction).1
    exact drawn_ne_id hfresh hmem (2 * position + 1) (hid.trans (hsame.symm.trans howner))

/-- Where columns are copied down, the tables that stay are those that are not abstract, and beside
them there are junctions only.  A table that stays has its own columns, and then a copy of each
column of its parent, of its parent's parent, and so on up to its root.  Copies have new ids, and
nothing is left of the abstract tables. -/
theorem columns_of_concrete_tables (htables : design.tableIds.Nodup)
    (hkind : design.inheritance = .concreteTable) (hlineage : Lineage.of design = .ok lineage)
    (hfresh : ids.FreshFor design) :
    ∃ normal junctions, design.normalize ids = .ok normal ∧
      normal.tables = design.tables.filter (!·.isAbstract) ++ junctions ∧
      (∀ junction ∈ junctions, (∃ position, junction.id = ids position) ∧
        ∃ relation ∈ design.relations, relation.kind = .manyToMany ∧
          ∃ source ∈ design.tables, ∃ target ∈ design.tables,
            relation.source.table = source.id ∧ relation.target.table = target.id ∧
            junction.name = source.name ++ "_" ++ target.name) ∧
      (∀ table ∈ design.tables, ¬table.isAbstract → ∃ ancestors copies,
        lineage.Above table.id ancestors ∧
        normal.columnsOf table.id = design.columnsOf table.id ++ copies ∧
        List.Forall₂ (Column.CopyFor ids table.id) (ancestors.flatMap design.columnsOf) copies) ∧
      ((normal.columns.filter (·.id ∉ design.columnIds)).map (·.id)).Nodup ∧
      ∀ table ∈ design.tables, table.isAbstract → ∀ x ∈ normal.columns, x.table ≠ table.id := by
  have hmapped : design.mapInheritance ids.left lineage =
      design.flattenHierarchies ids.left lineage := by
    rw [mapInheritance, hkind]
  have hnormal := normalize_of_lineage hlineage ids
  rw [hmapped] at hnormal
  refine ⟨_, _, hnormal, expandJunctions_tables _ _, ?_, ?_, nodup_new_columnIds hlineage hfresh,
    fun table hmem habstract x hx => owner_ne_of_isAbstract hfresh hmem habstract hx⟩
  · intro junction hmem
    obtain ⟨⟨position, hid⟩, relation, hrelation, hmanyToMany, source, target, hsource, htarget,
      hname⟩ := mem_junctionTables hmem
    obtain ⟨hsourceMem, hsourceId⟩ := mem_of_table? hsource
    obtain ⟨htargetMem, htargetId⟩ := mem_of_table? htarget
    exact ⟨⟨2 * position + 1, hid.symm⟩, relation, List.mem_of_mem_filter hrelation, hmanyToMany,
      source, List.mem_of_mem_filter hsourceMem, target, List.mem_of_mem_filter htargetMem,
      hsourceId.symm, htargetId.symm, hname⟩
  · intro table hmem hconcrete
    obtain ⟨ancestors, copies, habove, hcompleted, hcopies⟩ :=
      exists_inherited ids.left hlineage table.id
    refine ⟨ancestors, copies, habove, ?_, ?_⟩
    · have hold : ∀ position, ids.right position ≠ table.id :=
        fun position => drawn_ne_id hfresh hmem (2 * position + 1)
      rw [columnsOf_expandJunctions_of_not_drawn hold, ← hcompleted]
      have hkept := columnsOf_flattenHierarchies design ids.left lineage table.id
      rwa [if_neg (not_mem_abstractIds htables hmem hconcrete)] at hkept
    · refine hcopies.imp ?_
      rintro original copy ⟨position, hcopy⟩
      exact ⟨2 * position, hcopy⟩

/-- Motors have power and are vehicles; trucks and cars are motors, and a truck carries cars.  The
children are listed before their parents. -/
def fleet : Design where
  tables :=
    [ .create "truck" "Truck", .create "car" "Car", .create "motor" "Motor",
      (Table.create "vehicle" "Vehicle").asAbstract ]
  columns :=
    [ (Column.create "motor.power" "motor" "power" "INT"),
      (Column.create "car.plate" "car" "plate" "TEXT").primaryKey,
      (Column.create "vehicle.age" "vehicle" "age" "INT"),
      (Column.create "truck.load" "truck" "load" "INT").primaryKey,
      (Column.create "vehicle.maker" "vehicle" "maker" "TEXT") ]
  relations :=
    [ .inherits "truck" "motor", .inherits "motor" "vehicle", .inherits "car" "motor",
      .between .manyToMany "truck" "truck.load" "car" "car.plate" ]
  inheritance := .concreteTable

theorem columns_of_fleet :
    ∃ lineage normal, Lineage.of fleet = .ok lineage ∧ fleet.normalize hashes = .ok normal ∧
      normal.tables.map (·.name) = ["Truck", "Car", "Motor", "Truck_Car"] ∧
      (normal.columnsOf "truck").map (·.name) = ["load", "power", "age", "maker"] ∧
      ∃ ancestors copies, lineage.Above "truck" ancestors ∧
        normal.columnsOf "truck" = fleet.columnsOf "truck" ++ copies ∧
        List.Forall₂ (Column.CopyFor hashes "truck") (ancestors.flatMap fleet.columnsOf)
          copies := by
  have hfresh : hashes.FreshFor fleet := (hashes_unusedIn (by decide) (by decide)).freshFor
  have hnames : (fleet.normalize hashes).toOption.map (fun normal =>
      (normal.tables.map (·.name), (normal.columnsOf "truck").map (·.name))) =
        some (["Truck", "Car", "Motor", "Truck_Car"], ["load", "power", "age", "maker"]) := by
    decide +kernel
  cases hlineage : Lineage.of fleet with
  | error cycle => simp [normalize_eq, hlineage, Except.toOption, bind, Except.bind] at hnames
  | ok lineage =>
      obtain ⟨normal, _, hnormal, _, _, hcolumns, _⟩ :=
        columns_of_concrete_tables (by decide) rfl hlineage hfresh
      rw [hnormal] at hnames
      obtain ⟨htables, htruck⟩ := Prod.mk.inj (Option.some.inj hnames)
      exact ⟨lineage, normal, rfl, hnormal, htables, htruck,
        hcolumns (.create "truck" "Truck") List.mem_cons_self Bool.false_ne_true⟩

end Design

end SchemaDesign
