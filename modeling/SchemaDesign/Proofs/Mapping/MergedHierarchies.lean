import SchemaDesign.Proofs.Mapping.Normalize
import SchemaDesign.Proofs.Mapping.Root

/-!
# Merged hierarchies

Where every hierarchy becomes one table, nothing is lost and nothing comes twice.  The tables that
stay are the roots, every column moves to the root of its owner, and both ends of every relation
move to the roots of their tables.  The only new columns are those that tell the kind of a row, one
for each root that has tables below it, in the order in which the first of these tables are listed.
-/

namespace SchemaDesign

/-- Where repetitions are left out, the elements stand in the order in which the list has them
first. -/
theorem pairwise_eraseDups {α : Type} [BEq α] [LawfulBEq α] (list : List α) :
    list.eraseDups.Pairwise fun x y =>
      ∃ before after, list = before ++ after ∧ x ∈ before ∧ y ∉ before := by
  match list with
  | [] => exact .nil
  | x :: rest =>
      rw [List.eraseDups_cons, List.pairwise_cons]
      constructor
      · intro y hy
        have hne : y ≠ x := by
          rw [List.mem_eraseDups, List.mem_filter] at hy
          simpa using hy.2
        exact ⟨[x], rest, rfl, List.mem_singleton_self x, by simpa using hne⟩
      · refine (pairwise_eraseDups (rest.filter fun y => !y == x)).imp_of_mem ?_
        rintro y z _ hz ⟨before, after, hsplit, hybefore, hzbefore⟩
        obtain ⟨first, last, rfl, rfl, _⟩ := List.filter_eq_append_iff.mp hsplit
        refine ⟨x :: first, last, rfl, List.mem_cons_of_mem _ (List.mem_of_mem_filter hybefore), ?_⟩
        intro hmem
        rw [List.mem_eraseDups, List.mem_filter] at hz
        rcases List.mem_cons.mp hmem with rfl | hmem
        · simp at hz
        · exact hzbefore (List.mem_filter.mpr ⟨hmem, hz.2⟩)
termination_by list.length
decreasing_by exact Nat.lt_succ_of_le (List.length_filter_le _ _)

/-- The column is on the root and tells which kind of row is meant.  It is neither null nor a
key. -/
structure Column.TellsKindOf (column : Column) (root : Table) : Prop where
  table : column.table = root.id
  name : column.name = root.name ++ "_TYPE"
  typeText : column.typeText = "INT"
  notNull : ¬column.isNullable
  notKey : ¬column.isPrimaryKey ∧ ¬column.isForeignKey ∧ ¬column.isUnique
  defaultValue : column.defaultValue = none

namespace Design

variable {design : Design} {ids : IdSupply} {lineage : Lineage}

/-- The column is the former one, on the root of its owner. -/
def MovesColumn (design : Design) (former column : Column) : Prop :=
  ∃ root, design.HasRoot former.table root ∧ column = { former with table := root }

/-- The relation is the former one, between the roots of its tables. -/
def MovesRelation (design : Design) (former relation : Relation) : Prop :=
  ∃ source target, design.HasRoot former.source.table source ∧
    design.HasRoot former.target.table target ∧
    relation = { former with source.table := source, target.table := target }

/-- The column tells the kind of a row in the table with this id. -/
def TellsKind (design : Design) (root : TableId) (column : Column) : Prop :=
  ∃ table, design.table? root = some table ∧ column.TellsKindOf table

/-- The tables begin with some among which there is one below the first root and none below the
second. -/
def ListsFirst (design : Design) (root other : TableId) : Prop :=
  ∃ before after, design.tables = before ++ after ∧
    (∃ table ∈ before, design.Below table.id root) ∧
    ∀ table ∈ before, ¬design.Below table.id other

theorem HasRoot.self {id root : TableId} (h : design.HasRoot id root) : design.HasRoot root root :=
  (design.hasRoot_self_iff root).mpr h.1

/-! ### Roots with tables below them -/

theorem tellsKindOf_discriminator (root : Table) (id : ColumnId) :
    (root.discriminator id root.id).TellsKindOf root where
  table := rfl
  name := rfl
  typeText := rfl
  notNull := Bool.false_ne_true
  notKey := ⟨Bool.false_ne_true, Bool.false_ne_true, Bool.false_ne_true⟩
  defaultValue := rfl

section Absorbing

variable (hlineage : Lineage.of design = .ok lineage)

include hlineage

theorem mem_absorbingRoots_iff_below (root : TableId) :
    root ∈ lineage.absorbingRoots design.tables ↔
      ∃ table ∈ design.tables, design.Below table.id root := by
  simp only [Lineage.absorbingRoots, List.mem_eraseDups, List.mem_map, List.mem_filter,
    lineage.below_iff hlineage]
  constructor
  · rintro ⟨table, ⟨hmem, hbelow⟩, rfl⟩
    exact ⟨table, hmem, rfl, by simpa using hbelow⟩
  · rintro ⟨table, hmem, rfl, hbelow⟩
    exact ⟨table, ⟨hmem, by simpa using hbelow⟩, rfl⟩

theorem hasTable_of_mem_absorbingRoots {root : TableId}
    (hmem : root ∈ lineage.absorbingRoots design.tables) : design.hasTable root := by
  obtain ⟨table, htable, hroot, _⟩ := (mem_absorbingRoots_iff_below hlineage root).mp hmem
  rw [← (lineage.hasRoot_iff hlineage _ _).mp hroot]
  exact lineage.hasTable_root hlineage (hasTable_of_mem htable)

theorem forall₂_discriminators (ids : IdSupply) :
    List.Forall₂ design.TellsKind (lineage.absorbingRoots design.tables)
      (design.discriminators ids lineage) := by
  have hmade := forall₂_filterMap_zipIdx (fun x =>
    (design.table? x.1).map fun table => table.discriminator (ids x.2) x.1)
    design.hasTable (fun _ _ => Option.isSome_map) (lineage.absorbingRoots design.tables) 0
  rw [List.filter_eq_self.mpr fun root hmem => hasTable_of_mem_absorbingRoots hlineage hmem]
    at hmade
  refine hmade.imp ?_
  rintro root column ⟨position, hcolumn⟩
  obtain ⟨table, htable, rfl⟩ := Option.map_eq_some_iff.mp hcolumn
  obtain rfl : table.id = root := (mem_of_table? htable).2
  exact ⟨table, htable, tellsKindOf_discriminator table _⟩

theorem pairwise_absorbingRoots :
    (lineage.absorbingRoots design.tables).Pairwise design.ListsFirst := by
  refine (pairwise_eraseDups _).imp ?_
  rintro root other ⟨before, after, hsplit, hroot, hother⟩
  obtain ⟨kept, _, hkept, rfl, _⟩ := List.map_eq_append_iff.mp hsplit
  obtain ⟨first, last, htables, rfl, _⟩ := List.filter_eq_append_iff.mp hkept
  refine ⟨first, last, htables, ?_, ?_⟩
  · obtain ⟨table, hmem, rfl⟩ := List.mem_map.mp hroot
    obtain ⟨hmem, hbelow⟩ := List.mem_filter.mp hmem
    exact ⟨table, hmem, (lineage.below_iff hlineage _ _).mpr ⟨rfl, by simpa using hbelow⟩⟩
  · intro table hmem hbelow
    obtain ⟨hroot, hnot⟩ := (lineage.below_iff hlineage _ _).mp hbelow
    rw [← hroot] at hother
    exact hother (List.mem_map_of_mem (List.mem_filter.mpr ⟨hmem, by simpa using hnot⟩))

/-! ### What moves -/

theorem filter_isRoot_eq (tables : List Table) :
    (tables.filter fun table => lineage.isRoot table.id) =
      tables.filter fun table => design.HasRoot table.id table.id := by
  apply List.filter_congr
  intro table _
  rw [Bool.eq_iff_iff, lineage.isRoot_iff_hasRoot hlineage, decide_eq_true_iff]

theorem movesColumn_atRoot (column : Column) :
    design.MovesColumn column (column.atRoot lineage) :=
  ⟨_, lineage.hasRoot_root hlineage column.table, rfl⟩

theorem movesRelation_atRoots (relation : Relation) :
    design.MovesRelation relation (relation.atRoots lineage) :=
  ⟨_, _, lineage.hasRoot_root hlineage _, lineage.hasRoot_root hlineage _, rfl⟩

theorem owner_of_mem_mergeHierarchies {column : Column}
    (hmem : column ∈ (design.mergeHierarchies ids lineage).columns) :
    design.HasRoot column.table column.table := by
  rcases List.mem_append.mp hmem with hmem | hmem
  · obtain ⟨former, _, rfl⟩ := List.mem_map.mp hmem
    exact (lineage.hasRoot_root hlineage former.table).self
  · obtain ⟨table, _, howner⟩ := (mem_discriminators hmem).2
    rw [howner]
    exact (lineage.hasRoot_root hlineage table.id).self

theorem ends_of_mem_mergeHierarchies {relation : Relation}
    (hmem : relation ∈ (design.mergeHierarchies ids lineage).relations) :
    design.HasRoot relation.source.table relation.source.table ∧
      design.HasRoot relation.target.table relation.target.table := by
  obtain ⟨former, _, rfl⟩ := List.mem_map.mp hmem
  exact ⟨(lineage.hasRoot_root hlineage former.source.table).self,
    (lineage.hasRoot_root hlineage former.target.table).self⟩

end Absorbing

theorem relations_dropInheritance_mergeHierarchies (design : Design) (ids : IdSupply)
    (lineage : Lineage) :
    (design.mergeHierarchies ids lineage).dropInheritance.relations =
      (design.relations.filter fun relation => !relation.isInheritance).map
        (·.atRoots lineage) := by
  unfold dropInheritance mergeHierarchies
  rw [List.filter_map]
  rfl

/-- Where every hierarchy becomes one table, the roots stay as they are, and columns and relations
move to them in their order.  After the columns comes one that tells the kind of a row for each root
with tables below it, in the order in which the first of these are listed.  Nothing is left of the
tables below the roots, and only then many-to-many relations are expanded. -/
theorem designs_with_merged_hierarchies (hkind : design.inheritance = .singleTable)
    (hlineage : Lineage.of design = .ok lineage) (ids : IdSupply) :
    ∃ merged moved roots discriminators,
      merged = (design.mapInheritance ids.left lineage).dropInheritance ∧
      design.normalize ids = .ok (merged.expandJunctions ids.right) ∧
      merged.tables = (design.tables.filter fun table => design.HasRoot table.id table.id) ∧
      merged.columns = moved ++ discriminators ∧
      List.Forall₂ design.MovesColumn design.columns moved ∧
      List.Forall₂ design.TellsKind roots discriminators ∧
      (∀ root, root ∈ roots ↔ ∃ table ∈ design.tables, design.Below table.id root) ∧
      roots.Nodup ∧ roots.Pairwise design.ListsFirst ∧
      List.Forall₂ design.MovesRelation
        (design.relations.filter fun relation => !relation.isInheritance) merged.relations ∧
      ∀ table ∈ design.tables, ¬design.HasRoot table.id table.id →
        (∀ column ∈ merged.columns, column.table ≠ table.id) ∧
        ∀ relation ∈ merged.relations, ¬relation.touchesTable table.id := by
  have hmapped : (design.mapInheritance ids.left lineage).dropInheritance =
      (design.mergeHierarchies ids.left lineage).dropInheritance := by
    rw [mapInheritance, hkind]
  have hmoved : List.Forall₂ design.MovesColumn design.columns
      (design.columns.map (·.atRoot lineage)) :=
    List.forall₂_map_right_iff.mpr
      (List.forall₂_same.mpr fun column _ => movesColumn_atRoot hlineage column)
  have hrelations : List.Forall₂ design.MovesRelation
      (design.relations.filter fun relation => !relation.isInheritance)
      (design.mergeHierarchies ids.left lineage).dropInheritance.relations := by
    rw [relations_dropInheritance_mergeHierarchies]
    exact List.forall₂_map_right_iff.mpr
      (List.forall₂_same.mpr fun relation _ => movesRelation_atRoots hlineage relation)
  refine ⟨_, _, _, _, hmapped.symm, hmapped ▸ normalize_of_lineage hlineage ids,
    filter_isRoot_eq hlineage design.tables, rfl, hmoved, forall₂_discriminators hlineage ids.left,
    mem_absorbingRoots_iff_below hlineage, nodup_eraseDups _, pairwise_absorbingRoots hlineage,
    hrelations, ?_⟩
  intro table _ hbelow
  constructor
  · intro column hmem howner
    exact hbelow (howner ▸ owner_of_mem_mergeHierarchies hlineage hmem)
  · intro relation hmem htouches
    obtain ⟨hsource, htarget⟩ :=
      ends_of_mem_mergeHierarchies hlineage (List.mem_of_mem_filter hmem)
    rw [Relation.touchesTable, Bool.or_eq_true, beq_iff_eq, beq_iff_eq] at htouches
    rcases htouches with htouches | htouches
    · exact hbelow (htouches ▸ hsource)
    · exact hbelow (htouches ▸ htarget)

/-- Oaks are plants, and puppies are dogs, which are animals.  A column belongs to no table. -/
def kingdoms : Design where
  tables := ["oak", "puppy", "animal", "dog", "plant"].map fun name => Table.create name name
  columns :=
    [ Column.create "age" "puppy" "age" "INT",
      (Column.create "height" "oak" "height" "INT").primaryKey,
      Column.create "stray" "nowhere" "stray" "INT" ]
  relations :=
    [ .inherits "puppy" "dog", .between .oneToMany "oak" "height" "puppy" "age",
      .inherits "dog" "animal", .inherits "oak" "plant" ]
  inheritance := .singleTable

theorem merged_kingdoms :
    ∃ (lineage : Lineage) (merged : Design), Lineage.of kingdoms = .ok lineage ∧
      kingdoms.normalize hashes = .ok (merged.expandJunctions hashes.right) ∧
      merged.tables.map (·.name) = ["animal", "plant"] ∧
      merged.columns.map (fun column => (column.name, column.table)) =
        [ ("age", "animal"), ("height", "plant"), ("stray", "nowhere"), ("plant_TYPE", "plant"),
          ("animal_TYPE", "animal") ] ∧
      List.Forall₂ kingdoms.MovesRelation
        [.between .oneToMany "oak" "height" "puppy" "age"] merged.relations ∧
      ∀ column ∈ merged.columns, column.table ≠ "dog" := by
  have hrecords : (Lineage.of kingdoms).toOption.map (fun lineage =>
      let merged := (kingdoms.mapInheritance hashes.left lineage).dropInheritance
      (merged.tables.map (·.name), merged.columns.map fun column => (column.name, column.table))) =
      some (["animal", "plant"],
        [ ("age", "animal"), ("height", "plant"), ("stray", "nowhere"), ("plant_TYPE", "plant"),
          ("animal_TYPE", "animal") ]) := by
    decide +kernel
  cases hlineage : Lineage.of kingdoms with
  | error cycle => simp [hlineage, Except.toOption] at hrecords
  | ok lineage =>
      rw [hlineage] at hrecords
      obtain ⟨htables, hcolumns⟩ := Prod.mk.inj (Option.some.inj hrecords)
      obtain ⟨merged, _, _, _, rfl, hnormal, _, _, _, _, _, _, _, hrelations, hgone⟩ :=
        designs_with_merged_hierarchies rfl hlineage hashes
      have hdog : Table.create "dog" "dog" ∈ kingdoms.tables := by simp [kingdoms]
      exact ⟨lineage, _, rfl, hnormal, htables, hcolumns, hrelations,
        (hgone _ hdog (by decide)).1⟩

end Design

end SchemaDesign
