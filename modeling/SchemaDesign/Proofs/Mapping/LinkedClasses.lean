import SchemaDesign.Proofs.Mapping.ColumnNames
import SchemaDesign.Proofs.Mapping.Normalize
import SchemaDesign.Proofs.Mapping.Root

/-!
# Linked classes

Where each class has its table, all that was there stays as it is, and only links come after it.
Every table below a root with a key gets one column and one relation from the first key of the root
to this column, however far below the root it is.  Roots and tables below a root without a key get
nothing.
-/

namespace SchemaDesign.Design

variable {design : Design} {ids : IdSupply} {lineage : Lineage}

/-- The table is below the root, and this is the first key of the root. -/
def KeyAbove (design : Design) (table : Table) (root : TableId) (key : Column) : Prop :=
  design.Below table.id root ∧ design.primaryKeyOf? root = some key

/-- The column of the link is a key of the table, named and typed like that of the root, and its
relation leads from there to the column. -/
def LinksToRoot (design : Design) (ids : IdSupply) (table : Table) (link : KeyLink) : Prop :=
  ∃ root key position, design.KeyAbove table root key ∧
    link.column =
      { id := ids position, table := table.id, name := key.name, typeText := key.typeText,
        isPrimaryKey := true, isForeignKey := true, isNullable := false, isUnique := true,
        defaultValue := none } ∧
    link.relation = .between .oneToOne root key.id table.id link.column.id

theorem filter_isInheritance_keyLinks (design : Design) (ids : IdSupply) (lineage : Lineage) :
    ((design.keyLinks ids lineage).map (·.relation)).filter (fun relation =>
      !relation.isInheritance) = (design.keyLinks ids lineage).map (·.relation) := by
  rw [List.filter_eq_self]
  intro relation hmem
  obtain ⟨link, hlink, rfl⟩ := List.mem_map.mp hmem
  rw [Relation.isInheritance, kind_of_mem_keyLinks hlink]
  rfl

theorem relations_dropInheritance_linkClasses (design : Design) (ids : IdSupply)
    (lineage : Lineage) :
    (design.linkClasses ids lineage).dropInheritance.relations =
      design.dropInheritance.relations ++ (design.keyLinks ids lineage).map (·.relation) := by
  unfold dropInheritance linkClasses
  rw [List.filter_append, filter_isInheritance_keyLinks]

/-! ### What a table gets -/

theorem columnsOf_dropInheritance_linkClasses (design : Design) (ids : IdSupply)
    (lineage : Lineage) (id : TableId) :
    (design.linkClasses ids lineage).dropInheritance.columnsOf id = design.columnsOf id ++
      ((design.keyLinks ids lineage).filter (·.column.table == id)).map (·.column) := by
  change (design.linkClasses ids lineage).columnsOf id = _
  rw [columnsOf_linkClasses, List.filter_map]
  rfl

theorem relationsTo_dropInheritance_linkClasses (design : Design) (ids : IdSupply)
    (lineage : Lineage) (id : TableId) :
    (design.linkClasses ids lineage).dropInheritance.relationsTo id =
      ((design.relationsTo id).filter fun relation => !relation.isInheritance) ++
        ((design.keyLinks ids lineage).filter (·.column.table == id)).map (·.relation) := by
  rw [relationsTo, relations_dropInheritance_linkClasses, List.filter_append,
    filter_keyLinks_relations, relationsTo, dropInheritance, List.filter_comm]

theorem exists_own_link (htables : design.tableIds.Nodup) (ids : IdSupply) (lineage : Lineage)
    {table : Table} (htable : table ∈ design.tables) :
    ∃ position, (design.keyLinks ids lineage).filter (·.column.table == table.id) =
      (design.keyLink? ids lineage table position).toList := by
  obtain ⟨position, hfilter⟩ := exists_filter_keyLinks htables ids lineage table.id
  have hfound : design.table? table.id = some table := find?_key_of_nodup htables htable
  rw [hfound, Option.bind_some] at hfilter
  exact ⟨position, hfilter⟩

section Links

variable (hlineage : Lineage.of design = .ok lineage)

include hlineage

theorem rootKey?_eq_some_iff_keyAbove {table : Table} (htable : table ∈ design.tables)
    (key : Column) :
    design.rootKey? lineage table = some key ↔ ∃ root, design.KeyAbove table root key := by
  simp only [rootKey?_eq_some_iff hlineage htable, KeyAbove, lineage.below_iff hlineage]
  constructor
  · rintro ⟨hbelow, hkey⟩
    exact ⟨_, ⟨rfl, hbelow⟩, hkey⟩
  · rintro ⟨_, ⟨rfl, hbelow⟩, hkey⟩
    exact ⟨hbelow, hkey⟩

theorem linksToRoot_of_keyLink? {table : Table} (htable : table ∈ design.tables) {position : Nat}
    {link : KeyLink} (hlink : design.keyLink? ids lineage table position = some link) :
    design.LinksToRoot ids table link := by
  obtain ⟨key, hkey, rfl⟩ := Option.map_eq_some_iff.mp hlink
  obtain ⟨root, habove⟩ := (rootKey?_eq_some_iff_keyAbove hlineage htable key).mp hkey
  refine ⟨root, key, position, habove, rfl, ?_⟩
  rw [← (lineage.hasRoot_iff hlineage _ _).mp habove.1.1]
  rfl

theorem forall₂_keyLinks (ids : IdSupply) :
    List.Forall₂ (design.LinksToRoot ids)
      (design.tables.filter fun table => (design.rootKey? lineage table).isSome)
      (design.keyLinks ids lineage) := by
  have hmade := forall₂_filterMap_zipIdx (fun x => design.keyLink? ids lineage x.1 x.2)
    (fun table => (design.rootKey? lineage table).isSome) (fun _ _ => Option.isSome_map)
    design.tables 0
  rw [keyLinks_eq]
  refine (forall₂_and_mem_zip hmade).imp ?_
  rintro table link ⟨⟨position, hlink⟩, hmem⟩
  have htable := List.mem_of_mem_filter (List.of_mem_zip hmem).1
  exact linksToRoot_of_keyLink? hlineage htable hlink

theorem mem_filter_rootKey?_iff {table : Table} (htable : table ∈ design.tables) :
    (table ∈ design.tables.filter fun table => (design.rootKey? lineage table).isSome) ↔
      ∃ root key, design.KeyAbove table root key := by
  rw [List.mem_filter, and_iff_right htable, Option.isSome_iff_exists]
  simp only [rootKey?_eq_some_iff_keyAbove hlineage htable]
  exact exists_comm

end Links

/-- Where each class has its table, tables, columns and relations stay as they are, apart from
inheritance.  After the columns and the relations come the links, one for each table below a root
with a key, in the order of the tables.  Such a table gets the column of its link and nothing else,
and no other table gets anything.  Only then many-to-many relations are expanded. -/
theorem designs_with_linked_classes (hkind : design.inheritance = .classTable)
    (htables : design.tableIds.Nodup) (hlineage : Lineage.of design = .ok lineage)
    (ids : IdSupply) :
    ∃ linked below links,
      linked = (design.mapInheritance ids.left lineage).dropInheritance ∧
      design.normalize ids = .ok (linked.expandJunctions ids.right) ∧
      linked.tables = design.tables ∧
      linked.columns = design.columns ++ links.map (·.column) ∧
      linked.relations = (design.relations.filter fun relation => !relation.isInheritance) ++
        links.map (·.relation) ∧
      below.Sublist design.tables ∧
      (∀ table ∈ design.tables, table ∈ below ↔ ∃ root key, design.KeyAbove table root key) ∧
      List.Forall₂ (design.LinksToRoot ids.left) below links ∧
      (∀ table ∈ below, ∃ link ∈ links, design.LinksToRoot ids.left table link ∧
        linked.columnsOf table.id = design.columnsOf table.id ++ [link.column] ∧
        linked.relationsTo table.id =
          (design.relationsTo table.id).filter (fun relation => !relation.isInheritance) ++
            [link.relation]) ∧
      ∀ table ∈ design.tables, table ∉ below →
        linked.columnsOf table.id = design.columnsOf table.id ∧
        linked.relationsTo table.id =
          (design.relationsTo table.id).filter fun relation => !relation.isInheritance := by
  have hmapped : (design.mapInheritance ids.left lineage).dropInheritance =
      (design.linkClasses ids.left lineage).dropInheritance := by
    rw [mapInheritance, hkind]
  refine ⟨_, _, _, hmapped.symm, hmapped ▸ normalize_of_lineage hlineage ids, rfl, rfl,
    relations_dropInheritance_linkClasses design ids.left lineage, List.filter_sublist,
    fun table htable => mem_filter_rootKey?_iff hlineage htable,
    forall₂_keyLinks hlineage ids.left, ?_, ?_⟩
  · intro table hmem
    obtain ⟨htable, hsome⟩ := List.mem_filter.mp hmem
    obtain ⟨key, hkey⟩ := Option.isSome_iff_exists.mp hsome
    obtain ⟨position, hown⟩ := exists_own_link htables ids.left lineage htable
    obtain ⟨link, hlink⟩ : ∃ link, design.keyLink? ids.left lineage table position = some link := by
      rw [keyLink?, hkey]
      exact ⟨_, rfl⟩
    rw [hlink, Option.toList_some] at hown
    have hmem : link ∈ design.keyLinks ids.left lineage :=
      List.mem_of_mem_filter (hown ▸ List.mem_singleton_self link)
    refine ⟨link, hmem, linksToRoot_of_keyLink? hlineage htable hlink, ?_, ?_⟩
    · rw [columnsOf_dropInheritance_linkClasses, hown, List.map_singleton]
    · rw [relationsTo_dropInheritance_linkClasses, hown, List.map_singleton]
  · intro table htable hmem
    have hnone : design.rootKey? lineage table = none := by
      rw [List.mem_filter, and_iff_right htable] at hmem
      simpa using hmem
    obtain ⟨position, hown⟩ := exists_own_link htables ids.left lineage htable
    rw [keyLink?, hnone, Option.map_none, Option.toList_none] at hown
    constructor
    · rw [columnsOf_dropInheritance_linkClasses, hown, List.map_nil, List.append_nil]
    · rw [relationsTo_dropInheritance_linkClasses, hown, List.map_nil, List.append_nil]

/-- Managers are employees, and these are persons, who have two keys; a crate is a box, and boxes
have none. -/
def offices : Design where
  tables := ["manager", "crate", "person", "employee", "box"].map fun name => Table.create name name
  columns :=
    [ (Column.create "badge" "employee" "badge" "INT").primaryKey,
      Column.create "name" "person" "name" "TEXT",
      (Column.create "number" "person" "number" "BIGINT").primaryKey,
      (Column.create "taxes" "person" "taxes" "TEXT").primaryKey,
      Column.create "width" "box" "width" "INT" ]
  relations :=
    [ .inherits "manager" "employee", .inherits "crate" "box",
      .between .oneToMany "person" "number" "box" "width", .inherits "employee" "person" ]
  inheritance := .classTable

theorem linked_offices :
    ∃ (lineage : Lineage) (linked : Design) (link : KeyLink),
      Lineage.of offices = .ok lineage ∧
      offices.normalize hashes = .ok (linked.expandJunctions hashes.right) ∧
      linked.columns.map (·.name) =
        ["badge", "name", "number", "taxes", "width", "number", "number"] ∧
      offices.LinksToRoot hashes.left (.create "manager" "manager") link ∧
      linked.columnsOf "manager" = [link.column] ∧ linked.relationsTo "manager" = [link.relation] ∧
      linked.columnsOf "crate" = [] ∧ linked.relationsTo "crate" = [] := by
  have hrecords : (Lineage.of offices).toOption.map (fun lineage =>
      (offices.mapInheritance hashes.left lineage).dropInheritance.columns.map (·.name)) =
      some ["badge", "name", "number", "taxes", "width", "number", "number"] := by
    decide +kernel
  cases hlineage : Lineage.of offices with
  | error cycle => simp [hlineage, Except.toOption] at hrecords
  | ok lineage =>
      rw [hlineage] at hrecords
      have hcolumns := Option.some.inj hrecords
      obtain ⟨linked, below, _, rfl, hnormal, _, _, _, _, hbelow, _, hlinked, hothers⟩ :=
        designs_with_linked_classes rfl (by decide) hlineage hashes
      have hmanager : Table.create "manager" "manager" ∈ below :=
        (hbelow _ (by simp [offices])).mpr ⟨"person", _, ⟨⟨rfl, 2, rfl⟩, by decide⟩, rfl⟩
      have hcrate : Table.create "crate" "crate" ∉ below := by
        intro hmem
        obtain ⟨root, key, ⟨hroot, _⟩, hkey⟩ := (hbelow _ (by simp [offices])).mp hmem
        have hbox : offices.HasRoot "crate" "box" := ⟨rfl, 1, rfl⟩
        rw [hroot.unique hbox] at hkey
        have hnone : offices.primaryKeyOf? "box" = none := rfl
        exact absurd (hnone.symm.trans hkey) (by simp)
      obtain ⟨link, _, hlink, hown, hrelations⟩ := hlinked _ hmanager
      obtain ⟨hcrateColumns, hcrateRelations⟩ := hothers _ (by simp [offices]) hcrate
      exact ⟨lineage, _, link, rfl, hnormal, hcolumns, hlink, hown, hrelations, hcrateColumns,
        hcrateRelations⟩

end SchemaDesign.Design
