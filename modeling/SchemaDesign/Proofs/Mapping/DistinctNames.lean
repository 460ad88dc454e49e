import SchemaDesign.Proofs.Mapping.ColumnNames
import SchemaDesign.Proofs.Mapping.Mention
import SchemaDesign.Proofs.Mapping.Normalize
import SchemaDesign.Proofs.Sql.ForeignKey

/-!
# Tables with distinct column names

Neither the mappings nor the expansion look at the names of columns.  So names that are distinct in
every table of a design may meet in a table of the normal design, and they do exactly where

- tables that become one have columns of one name, or a column with the name of the discriminator;
- a table below a root has a column with the name of the root's key;
- a table and an ancestor of it, or two of its ancestors, have columns of one name; or
- a many-to-many relation joins a table to itself, so that both keys of the junction are named after
  this table.

The first three go with one inheritance kind each.
-/

open Relation

namespace SchemaDesign.Design

variable {design : Design} {ids : IdSupply} {lineage : Lineage}

/-- No two columns of a hierarchy have one name, and none has that of the discriminator, which a
hierarchy gets if it has more tables than its root. -/
structure HierarchiesApart (design : Design) : Prop where
  columns : ∀ x ∈ design.columns, ∀ y ∈ design.columns,
    design.Related x.table y.table → x.table ≠ y.table → x.name ≠ y.name
  discriminators : ∀ root child, design.table? root.id = some root → design.IsTop root.id →
    design.Descends child root.id →
    ∀ x ∈ design.columns, ReflTransGen design.Inherits x.table root.id →
      x.name ≠ root.name ++ "_TYPE"

/-- No table below a root with a key has a column with the name of the key, and the id of such a
table is not used twice. -/
structure KeysApart (design : Design) : Prop where
  columns : ∀ x ∈ design.columns, ∀ root key, design.Descends x.table root → design.IsTop root →
    design.primaryKeyOf? root = some key → x.name ≠ key.name
  once : ∀ id root key, design.Descends id root → design.IsTop root →
    design.primaryKeyOf? root = some key → design.tableIds.count id = 1

/-- No two columns of a table that stays and its ancestors have one name. -/
def LinesApart (design : Design) : Prop :=
  ∀ id ∉ design.abstractIds, ∀ x ∈ design.columns, ∀ y ∈ design.columns,
    ReflTransGen design.Inherits id x.table → ReflTransGen design.Inherits id y.table →
    x.table ≠ y.table → x.name ≠ y.name

def HierarchyNamesApart (design : Design) : Prop :=
  match design.inheritance with
  | .singleTable => design.HierarchiesApart
  | .classTable => design.KeysApart
  | .concreteTable => design.LinesApart

/-- No many-to-many relation that is expanded joins two tables that are one after the mapping. -/
def JoinsApart (design : Design) : Prop :=
  ∀ relation ∈ design.relations, relation.kind = .manyToMany →
    match design.inheritance with
    | .singleTable => ¬design.Related relation.source.table relation.target.table
    | .classTable => relation.source.table ≠ relation.target.table
    | .concreteTable => design.FindsConcrete relation.source →
        design.FindsConcrete relation.target → relation.source.table ≠ relation.target.table

section Clean

variable (hclean : design.Clean) (hapart : design.NamesColumnsApart)

include hclean hapart

/-! ### One table for each hierarchy -/

theorem nodup_namesOf_mergeHierarchies_iff (ids : IdSupply) (lineage : Lineage) {root : Table}
    (hroot : design.table? root.id = some root) :
    ((design.mergeHierarchies ids lineage).namesOf root.id).Nodup ↔
      (∀ x ∈ design.columns, ∀ y ∈ design.columns, lineage.root x.table = root.id →
        lineage.root y.table = root.id → x.table ≠ y.table → x.name ≠ y.name) ∧
      (root.id ∈ lineage.absorbingRoots design.tables →
        ∀ x ∈ design.columns, lineage.root x.table = root.id → x.name ≠ root.name ++ "_TYPE") := by
  have hgroup : ∀ k, (((design.columns.filter (lineage.root ·.table == root.id)).filter
      (·.table == k)).map (·.name)).Nodup := by
    intro k
    exact (hclean.nodup_namesOf hapart k).sublist ((List.filter_sublist.filter _).map _)
  have hmem : ∀ x, x ∈ design.columns.filter (lineage.root ·.table == root.id) ↔
      x ∈ design.columns ∧ lineage.root x.table = root.id := by
    intro x
    rw [List.mem_filter, beq_iff_eq]
  rw [namesOf_mergeHierarchies, map_name_discriminators ids lineage hroot, List.nodup_append,
    nodup_map_iff_of_groups hgroup]
  constructor
  · rintro ⟨hcolumns, _, hdiscriminator⟩
    constructor
    · intro x hx y hy hxroot hyroot
      exact hcolumns x ((hmem x).mpr ⟨hx, hxroot⟩) y ((hmem y).mpr ⟨hy, hyroot⟩)
    · intro habsorbs x hx hxroot
      rw [if_pos habsorbs] at hdiscriminator
      exact hdiscriminator _ (List.mem_map_of_mem ((hmem x).mpr ⟨hx, hxroot⟩)) _
        (List.mem_singleton_self _)
  · rintro ⟨hcolumns, hdiscriminator⟩
    refine ⟨?_, ?_, ?_⟩
    · intro x hx y hy
      obtain ⟨hx, hxroot⟩ := (hmem x).mp hx
      obtain ⟨hy, hyroot⟩ := (hmem y).mp hy
      exact hcolumns x hx y hy hxroot hyroot
    · split <;> simp
    · intro name hname other hother
      split at hother
      case isTrue habsorbs =>
        obtain ⟨x, hx, rfl⟩ := List.mem_map.mp hname
        obtain ⟨hx, hxroot⟩ := (hmem x).mp hx
        rw [List.mem_singleton.mp hother]
        exact hdiscriminator habsorbs x hx hxroot
      case isFalse => simp at hother

theorem namesColumnsApart_mergeHierarchies_iff (ids : IdSupply)
    (hlineage : Lineage.of design = .ok lineage) :
    (design.mergeHierarchies ids lineage).NamesColumnsApart ↔ design.HierarchiesApart := by
  have htop := lineage.root_eq_iff hclean hlineage
  constructor
  · intro hmerged
    have hroot : ∀ root, design.table? root.id = some root → design.IsTop root.id →
        ((design.mergeHierarchies ids lineage).namesOf root.id).Nodup := by
      intro root hroot hself
      apply hmerged
      apply List.mem_filter.mpr
      exact ⟨(mem_of_table? hroot).1, (lineage.isRoot_iff hclean hlineage _).mpr hself⟩
    constructor
    case columns =>
      intro x hx y hy hrelated
      have hsame := (lineage.root_eq_root_iff hclean hlineage _ _).mpr hrelated
      obtain ⟨root, hid, hfound⟩ :=
        exists_table?_eq (lineage.hasTable_root hlineage (hclean.owner x hx))
      have hnodup := hroot root hfound (hid ▸ lineage.isTop_root hclean hlineage x.table)
      exact ((nodup_namesOf_mergeHierarchies_iff hclean hapart ids lineage hfound).mp hnodup).1
        x hx y hy hid.symm (hsame.symm.trans hid.symm)
    case discriminators =>
      intro root child hfound hself hdescends x hx hreach
      have hnodup := hroot root hfound hself
      apply ((nodup_namesOf_mergeHierarchies_iff hclean hapart ids lineage hfound).mp hnodup).2
        _ x hx ((htop _ _).mpr ⟨hreach, hself⟩)
      obtain ⟨table, htable, rfl⟩ := exists_mem_of_hasTable hdescends.hasTable.1
      rw [mem_absorbingRoots_iff]
      exact ⟨table, htable, (lineage.descends_iff hclean hlineage hself _).mp hdescends⟩
  · intro hnames table htable
    obtain ⟨htable, hself⟩ := List.mem_filter.mp htable
    have hself := (lineage.isRoot_iff hclean hlineage _).mp hself
    obtain ⟨root, hid, hfound⟩ := exists_table?_eq (design.hasTable_of_mem htable)
    rw [← hid] at hself ⊢
    rw [nodup_namesOf_mergeHierarchies_iff hclean hapart ids lineage hfound]
    constructor
    · intro x hx y hy hxroot hyroot
      exact hnames.columns x hx y hy
        ((lineage.root_eq_root_iff hclean hlineage _ _).mp (hxroot.trans hyroot.symm))
    · intro habsorbs x hx hxroot
      obtain ⟨child, _, hchild⟩ := (mem_absorbingRoots_iff _ _ _).mp habsorbs
      have hdescends := (lineage.descends_iff hclean hlineage hself child.id).mpr hchild
      exact hnames.discriminators root child.id hfound hself hdescends x hx
        ((htop _ _).mp hxroot).1

/-! ### One table for each class -/

theorem nodup_namesOf_linkClasses_iff (ids : IdSupply) (lineage : Lineage) {table : Table}
    (htable : table ∈ design.tables) :
    ((design.linkClasses ids lineage).namesOf table.id).Nodup ↔
      ∀ key, design.rootKey? lineage table = some key →
        (∀ x ∈ design.columns, x.table = table.id → x.name ≠ key.name) ∧
          design.tableIds.count table.id = 1 := by
  have hown := hclean.nodup_namesOf hapart table.id
  have hpositive : 0 < design.tableIds.count table.id :=
    List.count_pos_iff.mpr (List.mem_map_of_mem htable)
  rw [namesOf_linkClasses]
  cases design.rootKey? lineage table with
  | none => simpa using hown
  | some key =>
      rw [Option.toList_some, List.flatMap_singleton, List.nodup_append, List.nodup_replicate]
      constructor
      · rintro ⟨_, honce, hnew⟩ _ ⟨⟩
        refine ⟨?_, by omega⟩
        intro x hx howner
        exact hnew x.name ((design.mem_namesOf_iff _ _).mpr ⟨x, hx, howner, rfl⟩) key.name
          (List.mem_replicate.mpr ⟨by omega, rfl⟩)
      · intro hkey
        obtain ⟨hcolumns, honce⟩ := hkey key rfl
        refine ⟨hown, by omega, ?_⟩
        intro name hname other hother
        obtain ⟨x, hx, howner, rfl⟩ := (design.mem_namesOf_iff _ _).mp hname
        rw [(List.mem_replicate.mp hother).2]
        exact hcolumns x hx howner

omit hapart in
/-- The key that a table is linked to is that of the table at the top of its hierarchy. -/
theorem rootKey?_eq_some_iff_descends (hlineage : Lineage.of design = .ok lineage) {table : Table}
    (htable : table ∈ design.tables) (key : Column) :
    design.rootKey? lineage table = some key ↔
      ∃ root, design.Descends table.id root ∧ design.IsTop root ∧
        design.primaryKeyOf? root = some key := by
  rw [rootKey?_eq_some_iff hlineage htable]
  constructor
  · rintro ⟨hbelow, hkey⟩
    have htop := lineage.isTop_root hclean hlineage table.id
    exact ⟨_, (lineage.descends_iff hclean hlineage htop _).mpr ⟨rfl, hbelow⟩, htop, hkey⟩
  · rintro ⟨root, hdescends, htop, hkey⟩
    obtain ⟨rfl, hbelow⟩ := (lineage.descends_iff hclean hlineage htop _).mp hdescends
    exact ⟨hbelow, hkey⟩

theorem namesColumnsApart_linkClasses_iff (ids : IdSupply)
    (hlineage : Lineage.of design = .ok lineage) :
    (design.linkClasses ids lineage).NamesColumnsApart ↔ design.KeysApart := by
  constructor
  · intro hlinked
    have hkey : ∀ id root key, design.Descends id root → design.IsTop root →
        design.primaryKeyOf? root = some key →
        (∀ x ∈ design.columns, x.table = id → x.name ≠ key.name) ∧
          design.tableIds.count id = 1 := by
      intro id root key hdescends htop hkey
      obtain ⟨table, htable, rfl⟩ := exists_mem_of_hasTable hdescends.hasTable.1
      have hnodup := hlinked table htable
      rw [nodup_namesOf_linkClasses_iff hclean hapart ids lineage htable] at hnodup
      apply hnodup
      rw [rootKey?_eq_some_iff_descends hclean hlineage htable]
      exact ⟨root, hdescends, htop, hkey⟩
    constructor
    case columns =>
      intro x hx root key hdescends htop hfound
      exact (hkey x.table root key hdescends htop hfound).1 x hx rfl
    case once =>
      intro id root key hdescends htop hfound
      exact (hkey id root key hdescends htop hfound).2
  · intro hkeys table htable
    rw [nodup_namesOf_linkClasses_iff hclean hapart ids lineage htable]
    intro key hkey
    obtain ⟨root, hdescends, htop, hfound⟩ :=
      (rootKey?_eq_some_iff_descends hclean hlineage htable key).mp hkey
    refine ⟨?_, hkeys.once _ root key hdescends htop hfound⟩
    intro x hx howner
    exact hkeys.columns x hx root key (howner ▸ hdescends) htop hfound

/-! ### Only concrete tables -/

theorem nodup_names_along_line_iff (hlineage : Lineage.of design = .ok lineage) (id : TableId) :
    ((lineage.line id).flatMap design.namesOf).Nodup ↔
      ∀ x ∈ design.columns, ∀ y ∈ design.columns, x.table ∈ lineage.line id →
        y.table ∈ lineage.line id → x.table ≠ y.table → x.name ≠ y.name := by
  rw [List.nodup_flatMap]
  constructor
  · rintro ⟨_, hdisjoint⟩ x hx y hy hxline hyline hne hname
    have hsymmetric : Std.Symm (Function.onFun List.Disjoint design.namesOf) :=
      ⟨fun _ _ h => h.symm⟩
    exact hdisjoint.forall hxline hyline hne ((design.mem_namesOf_iff _ _).mpr ⟨x, hx, rfl, rfl⟩)
      ((design.mem_namesOf_iff _ _).mpr ⟨y, hy, rfl, hname.symm⟩)
  · intro hcolumns
    refine ⟨fun a _ => hclean.nodup_namesOf hapart a, ?_⟩
    apply (lineage.nodup_line hlineage id).pairwise_of_forall_ne
    intro a ha b hb hne name hname hother
    obtain ⟨x, hx, rfl, rfl⟩ := (design.mem_namesOf_iff _ _).mp hname
    obtain ⟨y, hy, rfl, hsame⟩ := (design.mem_namesOf_iff _ _).mp hother
    exact hcolumns x hx y hy ha hb hne hsame.symm

theorem namesColumnsApart_flattenHierarchies_iff (ids : IdSupply)
    (hlineage : Lineage.of design = .ok lineage) :
    (design.flattenHierarchies ids lineage).NamesColumnsApart ↔ design.LinesApart := by
  have hline : ∀ id, ((lineage.line id).flatMap design.namesOf).Nodup ↔
      ∀ x ∈ design.columns, ∀ y ∈ design.columns, ReflTransGen design.Inherits id x.table →
        ReflTransGen design.Inherits id y.table → x.table ≠ y.table → x.name ≠ y.name := by
    intro id
    simp only [nodup_names_along_line_iff hclean hapart hlineage,
      lineage.mem_line_iff hclean hlineage]
  constructor
  · intro hflat id hkept x hx y hy hxreach
    have hstays : (design.flattenHierarchies ids lineage).hasTable id :=
      hasTable_flattenHierarchies (hasTable_of_reaches hxreach (hclean.owner x hx)) hkept
    obtain ⟨table, htable, rfl⟩ := exists_mem_of_hasTable hstays
    have hnodup := hflat table htable
    rw [namesOf_flattenHierarchies ids hlineage, if_neg hkept, hline] at hnodup
    exact hnodup x hx y hy hxreach
  · intro hlines table htable
    rw [namesOf_flattenHierarchies ids hlineage]
    split
    case isTrue => exact List.nodup_nil
    case isFalse hkept => exact (hline table.id).mpr (hlines table.id hkept)

theorem namesColumnsApart_mapInheritance_iff (ids : IdSupply)
    (hlineage : Lineage.of design = .ok lineage) :
    (design.mapInheritance ids lineage).NamesColumnsApart ↔ design.HierarchyNamesApart := by
  unfold mapInheritance HierarchyNamesApart
  cases design.inheritance with
  | singleTable => exact namesColumnsApart_mergeHierarchies_iff hclean hapart ids hlineage
  | classTable => exact namesColumnsApart_linkClasses_iff hclean hapart ids hlineage
  | concreteTable => exact namesColumnsApart_flattenHierarchies_iff hclean hapart ids hlineage

end Clean

/-! ### Junctions -/

/-- Where tables have distinct names, a junction joins tables of one name exactly when its relation
joins a table to itself. -/
theorem forall_junctions_iff (hnames : (design.tables.map (·.name)).Nodup) :
    (∀ junction ∈ design.junctions, junction.source.name ≠ junction.target.name) ↔
      ∀ relation ∈ design.relations, relation.kind = .manyToMany →
        design.Finds relation.source → design.Finds relation.target →
        relation.source.table ≠ relation.target.table := by
  constructor
  · intro hjunctions relation hmem hkind hsource htarget hsame
    have hexpands : design.junction? relation ≠ none := by
      rw [Ne, junction?_eq_none_iff hkind, not_not]
      exact ⟨hsource, htarget⟩
    obtain ⟨junction, hjunction⟩ := Option.ne_none_iff_exists'.mp hexpands
    obtain ⟨_, ⟨hsourceTable, _⟩, htargetTable, _⟩ := junction?_eq_some hjunction
    apply hjunctions junction (List.mem_filterMap.mpr ⟨relation, hmem, hjunction⟩)
    rw [hsame, htargetTable, Option.some.injEq] at hsourceTable
    rw [hsourceTable]
  · intro hrelations junction hmem hname
    obtain ⟨relation, hrelation, hjunction⟩ := List.mem_filterMap.mp hmem
    obtain ⟨hkind, ⟨hsource, _⟩, htarget, _⟩ := junction?_eq_some hjunction
    have hsame := List.inj_on_of_nodup_map hnames (mem_of_table? hsource).1
      (mem_of_table? htarget).1 hname
    obtain ⟨hsourceFound, htargetFound⟩ := finds_of_junction?_eq_some hjunction
    apply hrelations relation hrelation hkind hsourceFound htargetFound
    rw [← (mem_of_table? hsource).2, ← (mem_of_table? htarget).2, hsame]

theorem Clean.junctions_apart_iff (hclean : design.Clean)
    (hnames : (design.tables.map (·.name)).Nodup) (hlineage : Lineage.of design = .ok lineage)
    (hfresh : ids.FreshFor design) :
    (∀ junction ∈ (design.mapInheritance ids lineage).dropInheritance.junctions,
      junction.source.name ≠ junction.target.name) ↔ design.JoinsApart := by
  have hmapped : ((design.mapInheritance ids lineage).dropInheritance.tables.map
      (·.name)).Nodup := by
    rw [tables_mapInheritance]
    exact hnames.sublist (List.filter_sublist.map _)
  rw [forall_junctions_iff hmapped, forall_manyToMany_mapInheritance_iff]
  unfold JoinsApart
  apply forall₃_congr
  intro relation hmem hkind
  have hdata : ¬relation.isInheritance := by simp [Relation.isInheritance, hkind]
  have hsource := hclean.finds_end hmem hdata (.inl rfl)
  have htarget := hclean.finds_end hmem hdata (.inr rfl)
  unfold mapInheritance InheritanceKind.moves
  cases design.inheritance with
  | singleTable =>
      rw [← lineage.root_eq_root_iff hclean hlineage]
      exact ⟨fun h => h (hsource.mergeHierarchies hlineage) (htarget.mergeHierarchies hlineage),
        fun h _ _ => h⟩
  | classTable => exact ⟨fun h => h hsource.linkClasses htarget.linkClasses, fun h _ _ => h⟩
  | concreteTable =>
      rw [← hclean.finds_flattenHierarchies_iff hmem hdata hlineage hfresh (.inl rfl),
        ← hclean.finds_flattenHierarchies_iff hmem hdata hlineage hfresh (.inr rfl)]
      exact Iff.rfl

/-! ### Normal designs -/

theorem Clean.namesColumnsApart_normal_iff (hclean : design.Clean)
    (hnames : (design.tables.map (·.name)).Nodup) (hapart : design.NamesColumnsApart)
    (hlineage : Lineage.of design = .ok lineage) (hfresh : ids.FreshFor design) :
    ((design.mapInheritance ids.left lineage).dropInheritance.expandJunctions
        ids.right).NamesColumnsApart ↔ design.HierarchyNamesApart ∧ design.JoinsApart := by
  have hmentions : design.MentionsOnly ids.left
      (design.mapInheritance ids.left lineage).dropInheritance :=
    (mentionsOnly_mapInheritance hlineage).dropInheritance
  have hnew : ∀ position, ids.right position ∉ design.mentionedTables := fun position hmem =>
    hfresh.tables (2 * position + 1) (hclean.mentionedTables_subset hmem)
  rw [namesColumnsApart_expandJunctions_iff (IdSupply.injective_right hfresh.injective)
    (fun position hmem => hnew position (hmentions.tables hmem))
    (fun column hmem position hsame => hnew position (hsame ▸ hmentions.owners column hmem)),
    hclean.junctions_apart_iff hnames hlineage hfresh.left]
  exact and_congr_left' (namesColumnsApart_mapInheritance_iff hclean hapart ids.left hlineage)

/-- Where names are distinct to begin with, they are distinct in every table of the normal design,
and so no table definition lists a name twice, exactly when none meet in a hierarchy or a
junction. -/
theorem column_names_of_normalized_designs (hissues : design.issues = [])
    (hnames : (design.tables.map (·.name)).Nodup) (hapart : design.NamesColumnsApart)
    (hfresh : ids.FreshFor design) :
    ∃ normal, design.normalize ids = .ok normal ∧
      (normal.NamesColumnsApart ↔ design.HierarchyNamesApart ∧ design.JoinsApart) ∧
      ∀ place, (∀ table ∈ normal.tables, (normal.createTable place table).columnNames.Nodup) ↔
        design.HierarchyNamesApart ∧ design.JoinsApart := by
  have hclean := design.issues_eq_nil_iff.mp hissues
  obtain ⟨lineage, hlineage⟩ := Lineage.exists_of_acyclic hclean.acyclic
  have hnormal := hclean.namesColumnsApart_normal_iff hnames hapart hlineage hfresh
  refine ⟨_, normalize_of_lineage hlineage ids, hnormal, ?_⟩
  intro place
  simp only [columnNames_createTable]
  exact hnormal

/-- Dogs are animals with a key of their own, which has the given name. -/
def kennel (dogKey : String) : Design where
  tables := [.create "animal" "Animal", .create "dog" "Dog"]
  columns :=
    [ (Column.create "animal.id" "animal" "id" "INT").primaryKey,
      (Column.create "dog.key" "dog" dogKey "INT").primaryKey ]
  relations := [.inherits "dog" "animal"]
  inheritance := .classTable

theorem names_kennel_nodup (dogKey : String) : ((kennel dogKey).tables.map (·.name)).Nodup := by
  simp [kennel, Table.create]

theorem namesColumnsApart_kennel (dogKey : String) : (kennel dogKey).NamesColumnsApart := by
  simp [NamesColumnsApart, namesOf, columnsOf, kennel, Table.create, Column.create,
    Column.primaryKey]

theorem hashes_freshFor_kennel (dogKey : String) : hashes.FreshFor (kennel dogKey) :=
  (hashes_unusedIn (by simp [mentionedTables, tableIds, kennel, Table.create, Column.create,
      Column.primaryKey, Relation.inherits])
    (by simp [mentionedColumns, columnIds, kennel, Column.create, Column.primaryKey,
      Relation.inherits])).freshFor

theorem inherits_kennel (dogKey : String) : (kennel dogKey).Inherits "dog" "animal" :=
  ⟨rfl, rfl, _, List.mem_singleton_self _, rfl, rfl, rfl⟩

theorem keysApart_kennel_iff (dogKey : String) :
    (kennel dogKey).KeysApart ↔ dogKey ≠ "id" := by
  have htop : (kennel dogKey).IsTop "animal" := by
    rintro parent ⟨_, _, relation, hmem, _, hsource, _⟩
    rw [List.mem_singleton.mp hmem] at hsource
    exact absurd hsource (by decide)
  constructor
  · intro hkeys
    exact hkeys.columns _ (List.mem_cons_of_mem _ (List.mem_singleton_self _)) "animal" _
      (.single (inherits_kennel dogKey)) htop rfl
  · intro hne
    constructor
    case columns =>
      intro x hx root key hdescends hroot hkey
      have hbelow : x.table ≠ "animal" := by
        intro hsame
        obtain ⟨_, hstep, _⟩ := TransGen.head'_iff.mp hdescends
        exact htop _ (hsame ▸ hstep)
      have hatTop : key.table ≠ "dog" := by
        have howner : key.table = root := by
          have hfound := List.find?_some hkey
          rw [Bool.and_eq_true, beq_iff_eq] at hfound
          exact hfound.1
        intro hsame
        exact hroot "animal" (howner ▸ hsame ▸ inherits_kennel dogKey)
      have hxname : x.name = dogKey := by
        rcases List.mem_cons.mp hx with rfl | hx
        · exact absurd rfl hbelow
        · rw [List.mem_singleton.mp hx]
          rfl
      have hkeyname : key.name = "id" := by
        rcases List.mem_cons.mp (List.mem_of_find?_eq_some hkey) with rfl | hkey
        · rfl
        · rw [List.mem_singleton.mp hkey] at hatTop
          exact absurd rfl hatTop
      rw [hxname, hkeyname]
      exact hne
    case once =>
      intro id root key hdescends _ _
      have hmem := ((kennel dogKey).hasTable_iff id).mp hdescends.hasTable.1
      exact List.count_eq_one_of_mem (by simp [tableIds, kennel, Table.create]) hmem

theorem joinsApart_kennel (dogKey : String) : (kennel dogKey).JoinsApart := by
  intro relation hmem hkind
  rw [List.mem_singleton.mp hmem] at hkind
  cases hkind

/-- The new key of the dogs meets their own key only if both are called alike. -/
theorem column_names_of_kennels :
    ((kennel "tag").issues = [] ∧ (kennel "tag").NamesColumnsApart ∧
      ∃ normal, (kennel "tag").normalize hashes = .ok normal ∧ normal.NamesColumnsApart) ∧
    (kennel "id").issues = [] ∧ (kennel "id").NamesColumnsApart ∧
      ∃ normal, (kennel "id").normalize hashes = .ok normal ∧ ¬normal.NamesColumnsApart := by
  constructor
  · have hissues : (kennel "tag").issues = [] := rfl
    have hapart := namesColumnsApart_kennel "tag"
    obtain ⟨normal, hnormal, hnames, _⟩ := column_names_of_normalized_designs hissues
      (names_kennel_nodup "tag") hapart (hashes_freshFor_kennel "tag")
    have hkeys := (keysApart_kennel_iff "tag").mpr (by decide)
    exact ⟨hissues, hapart, normal, hnormal, hnames.mpr ⟨hkeys, joinsApart_kennel "tag"⟩⟩
  · have hissues : (kennel "id").issues = [] := rfl
    have hapart := namesColumnsApart_kennel "id"
    obtain ⟨normal, hnormal, hnames, _⟩ := column_names_of_normalized_designs hissues
      (names_kennel_nodup "id") hapart (hashes_freshFor_kennel "id")
    refine ⟨hissues, hapart, normal, hnormal, ?_⟩
    rw [hnames]
    exact fun h => (keysApart_kennel_iff "id").mp h.1 rfl

/-- Names that are distinct in every table of a design may meet in its normal design. -/
theorem column_names_meet_in_kennel :
    ¬∀ (design : Design) (ids : IdSupply) (normal : Design), design.issues = [] →
      (design.tables.map (·.name)).Nodup → design.NamesColumnsApart → ids.FreshFor design →
      design.normalize ids = .ok normal → normal.NamesColumnsApart := by
  intro hall
  have hissues : (kennel "id").issues = [] := rfl
  have hclean := (issues_eq_nil_iff _).mp hissues
  obtain ⟨lineage, hlineage⟩ := Lineage.exists_of_acyclic hclean.acyclic
  have hnames := names_kennel_nodup "id"
  have hapart := namesColumnsApart_kennel "id"
  have hfresh := hashes_freshFor_kennel "id"
  have hnormal := hall (kennel "id") hashes _ hissues hnames hapart hfresh
    (normalize_of_lineage hlineage hashes)
  rw [hclean.namesColumnsApart_normal_iff hnames hapart hlineage hfresh] at hnormal
  exact (keysApart_kennel_iff "id").mp hnormal.1 rfl

end SchemaDesign.Design
