import SchemaDesign.Proofs.Mapping.Completion
import SchemaDesign.Proofs.Mapping.Kept
import SchemaDesign.Proofs.Sql.ConstraintName

/-!
# Columns that refer

The foreign keys of a normal design can be read off the design that it is made of.  A one-to-one or
one-to-many relation lets its target refer, on the table that has this column after the mapping;
where columns are copied down, it does so only if neither end is lost.  Where each class has its
table, a table below a root refers with the column that shares the key of the root.
-/

namespace SchemaDesign

/-- The relation takes a key from its source to its target. -/
def Relation.refers (relation : Relation) : Bool :=
  relation.kind == .oneToOne || relation.kind == .oneToMany

theorem Relation.not_isInheritance_of_refers {relation : Relation} (hrefers : relation.refers) :
    ¬relation.isInheritance := by
  cases relation with
  | mk source target kind => cases kind <;> simp_all [refers, isInheritance]

/-- The table that has the columns of a table after the mapping. -/
def InheritanceKind.holder (kind : InheritanceKind) (lineage : Lineage) (id : TableId) : TableId :=
  match kind with
  | .singleTable => lineage.root id
  | _ => id

/-- The names of those columns that are on the given table. -/
def namesAt (columns : List (TableId × String)) (id : TableId) : List String :=
  columns.filterMap fun x => if x.1 = id then some x.2 else none

/-- The first element with a property is still the first one among those that share another. -/
theorem find?_filter_of_find? {α : Type} {p q : α → Bool} {list : List α} {x : α}
    (hfind : list.find? p = some x) (hx : q x) : (list.filter q).find? p = some x := by
  induction list with
  | nil => cases hfind
  | cons y list ih =>
      by_cases hy : p y
      · rw [List.find?_cons_of_pos hy] at hfind
        obtain rfl : y = x := Option.some.inj hfind
        rw [List.filter_cons_of_pos hx, List.find?_cons_of_pos hy]
      · rw [List.find?_cons_of_neg hy] at hfind
        by_cases hkept : q y
        · rw [List.filter_cons_of_pos hkept, List.find?_cons_of_neg hy]
          exact ih hfind
        · rw [List.filter_cons_of_neg hkept]
          exact ih hfind

namespace Design

variable {design : Design} {ids : IdSupply} {lineage : Lineage} {relation : Relation}
  {id : TableId}

theorem find?_aimsAt {column : ColumnId} (htarget : relation.target.column = some column)
    (columns : List Column) :
    columns.find? (aimsAt relation ·) = columns.find? (·.id == column) := by
  congr 1
  funext x
  simp only [aimsAt, htarget, Option.some_beq_some]
  exact Bool.beq_comm

theorem find?_target {cid : ColumnId} {column : Column} {property : Column → Bool}
    (htarget : relation.target.column = some cid) (hcolumn : design.column? cid = some column)
    (hproperty : property column) :
    (design.columns.filter property).find? (aimsAt relation ·) = some column := by
  rw [find?_aimsAt htarget]
  exact find?_filter_of_find? hcolumn hproperty

instance decidableFindsConcrete (endpoint : Endpoint) : Decidable (design.FindsConcrete endpoint) :=
  inferInstanceAs (Decidable (_ ∧ _))

/-- The relation becomes a foreign key.  Where abstract tables disappear, it does so only if its
target is not on such a table and its source is still found. -/
def Declares (design : Design) (relation : Relation) : Prop :=
  relation.refers ∧ (design.inheritance = .concreteTable →
    relation.target.table ∉ design.abstractIds ∧ design.FindsConcrete relation.source)

instance decidableDeclares (relation : Relation) : Decidable (design.Declares relation) :=
  inferInstanceAs (Decidable (_ ∧ (_ → _)))

def targetName? (design : Design) (relation : Relation) : Option String :=
  (relation.target.column.bind design.column?).map (·.name)

def referringColumn? (design : Design) (lineage : Lineage) (relation : Relation) :
    Option (TableId × String) :=
  if design.Declares relation then
    (design.targetName? relation).map fun name =>
      (design.inheritance.holder lineage relation.target.table, name)
  else none

/-- The columns that share the key of a root, where each class has its table. -/
def sharedKeys (design : Design) (lineage : Lineage) : List (TableId × String) :=
  if design.inheritance = .classTable then
    design.tables.filterMap fun table =>
      (design.rootKey? lineage table).map fun key => (table.id, key.name)
  else []

/-- The columns that refer to a key after the mapping, each with its table and once for every
foreign key. -/
def referringColumns (design : Design) (lineage : Lineage) : List (TableId × String) :=
  design.relations.filterMap (design.referringColumn? lineage) ++ design.sharedKeys lineage

def keptTable? (design : Design) (lineage : Lineage) (id : TableId) : Option Table :=
  (design.tables.filter (design.inheritance.keeps lineage)).find?
    (·.id == design.inheritance.holder lineage id)

/-- The relation is expanded.  Where abstract tables disappear, this is so only if both its ends are
still found. -/
def Expands (design : Design) (relation : Relation) : Prop :=
  relation.kind = .manyToMany ∧ (design.inheritance = .concreteTable →
    design.FindsConcrete relation.source ∧ design.FindsConcrete relation.target)

instance decidableExpands (relation : Relation) : Decidable (design.Expands relation) :=
  inferInstanceAs (Decidable (_ ∧ (_ → _)))

def joinedTables? (design : Design) (lineage : Lineage) (relation : Relation) :
    Option (Table × Table) :=
  if design.Expands relation then
    (design.keptTable? lineage relation.source.table).bind fun source =>
      (design.keptTable? lineage relation.target.table).map fun target => (source, target)
  else none

def joinedTables (design : Design) (lineage : Lineage) : List (Table × Table) :=
  design.relations.filterMap (design.joinedTables? lineage)

def nameFrom? (design : Design) (id : TableId) (relation : Relation) : Option String :=
  if relation.refers ∧ relation.target.table = id then design.referringName? id relation else none

theorem filterMap_dropInheritance (design : Design) (id : TableId) :
    ((design.dropInheritance.relationsTo id).filter (·.kind != .manyToMany)).filterMap
        (design.dropInheritance.referringName? id) =
      design.relations.filterMap (design.nameFrom? id) := by
  have hname : design.dropInheritance.referringName? id = design.referringName? id := rfl
  have hrelations : design.dropInheritance.relationsTo id =
      (design.relations.filter fun relation => !relation.isInheritance).filter
        (·.target.table == id) := rfl
  rw [hname, hrelations, List.filterMap_filter, List.filterMap_filter, List.filterMap_filter]
  apply List.filterMap_congr
  intro relation _
  unfold nameFrom?
  cases hkind : relation.kind <;> simp [Relation.isInheritance, Relation.refers, hkind]

theorem tables_moves (kind : InheritanceKind) (lineage : Lineage) (relation : Relation) :
    (kind.moves lineage relation).source.table = kind.holder lineage relation.source.table ∧
      (kind.moves lineage relation).target.table = kind.holder lineage relation.target.table := by
  cases kind <;> exact ⟨rfl, rfl⟩

theorem nameFrom?_moves {mapped : Design}
    (hname : relation.refers → design.inheritance.holder lineage relation.target.table = id →
      mapped.referringName? id (design.inheritance.moves lineage relation) =
        if design.Declares relation then design.targetName? relation else none) :
    mapped.nameFrom? id (design.inheritance.moves lineage relation) =
      (design.referringColumn? lineage relation).bind fun x =>
        if x.1 = id then some x.2 else none := by
  have hrefers : (design.inheritance.moves lineage relation).refers = relation.refers := by
    cases design.inheritance <;> rfl
  have htarget := (tables_moves design.inheritance lineage relation).2
  unfold nameFrom? referringColumn?
  rw [hrefers, htarget]
  by_cases hboth : relation.refers ∧ design.inheritance.holder lineage relation.target.table = id
  · rw [if_pos hboth, hname hboth.1 hboth.2]
    split
    · cases design.targetName? relation <;> simp [hboth.2]
    · rfl
  · rw [if_neg hboth]
    split
    case isTrue hdeclares =>
      have hne : design.inheritance.holder lineage relation.target.table ≠ id :=
        fun hsame => hboth ⟨hdeclares.1, hsame⟩
      cases design.targetName? relation <;> simp [hne]
    case isFalse => rfl

section Clean

variable (hclean : design.Clean)

include hclean

theorem Clean.exists_target (hmem : relation ∈ design.relations) (hrefers : relation.refers) :
    ∃ cid column, relation.target.column = some cid ∧ design.column? cid = some column ∧
      column.table = relation.target.table ∧ design.targetName? relation = some column.name := by
  have hdata := Relation.not_isInheritance_of_refers hrefers
  obtain ⟨_, cid, column, hcid, hcolumn, howner⟩ := hclean.resolves_end hmem hdata (.inr rfl)
  refine ⟨cid, column, hcid, hcolumn, howner, ?_⟩
  rw [targetName?, hcid, Option.bind_some, hcolumn]
  rfl

theorem Clean.finds_source (hmem : relation ∈ design.relations) (hrefers : relation.refers) :
    design.Finds relation.source :=
  hclean.finds_end hmem (Relation.not_isInheritance_of_refers hrefers) (.inl rfl)

/-! ### One table for each hierarchy -/

theorem referringName?_mergeHierarchies (hlineage : Lineage.of design = .ok lineage)
    (hmem : relation ∈ design.relations) (hrefers : relation.refers)
    (htable : lineage.root relation.target.table = id) :
    (design.mergeHierarchies ids lineage).referringName? id (relation.atRoots lineage) =
      design.targetName? relation := by
  obtain ⟨cid, column, hcid, hcolumn, howner, hname⟩ := hclean.exists_target hmem hrefers
  have hold : (design.columns.filter (lineage.root ·.table == id)).find? (aimsAt relation ·) =
      some column :=
    find?_target hcid hcolumn (by simp [howner, htable])
  have hmoved : ((design.columns.filter (lineage.root ·.table == id)).map
      (·.atRoot lineage)).find? (aimsAt (relation.atRoots lineage) ·) =
        some (column.atRoot lineage) := by
    rw [List.find?_map]
    exact congrArg (Option.map (·.atRoot lineage)) hold
  have hcolumns : (design.mergeHierarchies ids lineage).columnsOf id =
      (design.columns.filter (lineage.root ·.table == id)).map (·.atRoot lineage) ++
        (design.discriminators ids lineage).filter (·.table == id) := by
    unfold columnsOf mergeHierarchies
    rw [List.filter_append, List.filter_map]
    rfl
  have hfinds : (design.mergeHierarchies ids lineage).Finds (relation.atRoots lineage).source :=
    (hclean.finds_source hmem hrefers).mergeHierarchies hlineage
  rw [referringName?_of_finds hfinds, hcolumns, List.find?_append, hmoved, Option.some_or, hname]
  rfl

/-! ### One table for each class -/

theorem referringName?_linkClasses (hmem : relation ∈ design.relations) (hrefers : relation.refers)
    (htable : relation.target.table = id) :
    (design.linkClasses ids lineage).referringName? id relation = design.targetName? relation := by
  obtain ⟨cid, column, hcid, hcolumn, howner, hname⟩ := hclean.exists_target hmem hrefers
  have hold : (design.columnsOf id).find? (aimsAt relation ·) = some column :=
    find?_target hcid hcolumn (by simp [howner, htable])
  have hfinds : (design.linkClasses ids lineage).Finds relation.source :=
    (hclean.finds_source hmem hrefers).linkClasses
  rw [referringName?_of_finds hfinds, columnsOf_linkClasses, List.find?_append, hold,
    Option.some_or, hname]
  rfl

/-! ### Only concrete tables -/

theorem referringName?_flattenHierarchies (hlineage : Lineage.of design = .ok lineage)
    (hfresh : ids.FreshFor design) (hmem : relation ∈ design.relations)
    (hrefers : relation.refers) (htable : relation.target.table = id) :
    (design.flattenHierarchies ids lineage).referringName? id relation =
      if relation.target.table ∉ design.abstractIds ∧ design.FindsConcrete relation.source then
        design.targetName? relation
      else none := by
  obtain ⟨cid, column, hcid, hcolumn, howner, hname⟩ := hclean.exists_target hmem hrefers
  have hsource := hclean.finds_flattenHierarchies_iff hmem
    (Relation.not_isInheritance_of_refers hrefers) hlineage hfresh (.inl rfl)
  by_cases hfound : design.FindsConcrete relation.source
  · rw [referringName?_of_finds (hsource.mpr hfound), columnsOf_flattenHierarchies, htable]
    by_cases hdropped : id ∈ design.abstractIds
    · rw [if_pos hdropped, if_neg fun h => h.1 hdropped]
      rfl
    · obtain ⟨copies, hcompletes⟩ := exists_completes ids hlineage
      have hold : (design.columns.filter (·.table == id)).find? (aimsAt relation ·) =
          some column :=
        find?_target hcid hcolumn (by simp [howner, htable])
      rw [if_neg hdropped, if_pos ⟨hdropped, hfound⟩, hcompletes.split, List.filter_append,
        List.find?_append, hold, Option.some_or, hname]
      rfl
  · rw [referringName?_of_not_finds fun h => hfound (hsource.mp h), if_neg fun h => hfound h.2]

theorem nameFrom?_mapInheritance (hlineage : Lineage.of design = .ok lineage)
    (hfresh : ids.FreshFor design) (hmem : relation ∈ design.relations) :
    (design.mapInheritance ids lineage).nameFrom? id (design.inheritance.moves lineage relation) =
      (design.referringColumn? lineage relation).bind fun x =>
        if x.1 = id then some x.2 else none := by
  apply nameFrom?_moves
  intro hrefers htable
  have hcases : design.inheritance = .singleTable ∨ design.inheritance = .classTable ∨
      design.inheritance = .concreteTable := by
    cases design.inheritance <;> simp
  rcases hcases with hkind | hkind | hkind
  · have hdeclares : design.Declares relation := ⟨hrefers, by simp [hkind]⟩
    rw [if_pos hdeclares, mapInheritance, hkind]
    rw [hkind] at htable
    exact referringName?_mergeHierarchies hclean hlineage hmem hrefers htable
  · have hdeclares : design.Declares relation := ⟨hrefers, by simp [hkind]⟩
    rw [if_pos hdeclares, mapInheritance, hkind]
    rw [hkind] at htable
    exact referringName?_linkClasses hclean hmem hrefers htable
  · have hdeclares : design.Declares relation ↔
        relation.target.table ∉ design.abstractIds ∧ design.FindsConcrete relation.source := by
      simp [Declares, hrefers, hkind]
    rw [if_congr hdeclares rfl rfl, mapInheritance, hkind]
    rw [hkind] at htable
    exact referringName?_flattenHierarchies hclean hlineage hfresh hmem hrefers htable

theorem nameFrom?_keyLinks (hfresh : ids.FreshFor design) {link : KeyLink}
    (hlink : link ∈ design.keyLinks ids lineage) :
    (design.linkClasses ids lineage).nameFrom? id link.relation =
      if link.column.table = id then some link.column.name else none := by
  obtain ⟨position, _, _, key, hkey, hid, _, hrelation⟩ := mem_keyLinks hlink
  have htarget := target_of_mem_keyLinks hlink
  have hrefers : link.relation.refers := by rw [hrelation]; rfl
  by_cases howner : link.column.table = id
  · have hfinds : (design.linkClasses ids lineage).Finds link.relation.source := by
      rw [hrelation]
      refine ⟨hclean.owner key hkey, key.id, rfl, ?_⟩
      rw [column?_isSome_iff]
      exact List.mem_map_of_mem (List.mem_append_left _ hkey)
    have hold : (design.columnsOf id).find? (·.id == link.column.id) = none := by
      rw [List.find?_eq_none]
      intro x hx hsame
      have hknown : link.column.id ∈ design.columnIds :=
        beq_iff_eq.mp hsame ▸ List.mem_map_of_mem (List.mem_of_mem_filter hx)
      exact hfresh.columns position (hid ▸ hknown)
    have hnew : (((design.keyLinks ids lineage).map (·.column)).filter (·.table == id)).find?
        (·.id == link.column.id) = some link.column := by
      apply find?_key_of_nodup
      · exact (nodup_keyLinks hfresh.injective).sublist (List.filter_sublist.map _)
      · exact List.mem_filter.mpr ⟨List.mem_map_of_mem hlink, beq_iff_eq.mpr howner⟩
    rw [nameFrom?, if_pos ⟨hrefers, by rw [htarget, howner]⟩, referringName?_of_finds hfinds,
      find?_aimsAt (congrArg Endpoint.column htarget), columnsOf_linkClasses, List.find?_append,
      hold, hnew, if_pos howner]
    rfl
  · rw [nameFrom?, if_neg fun h => howner (by rw [← h.2, htarget]), if_neg howner]

omit hclean in
theorem map_keyLinks (ids : IdSupply) (hkind : design.inheritance = .classTable) :
    (design.keyLinks ids lineage).map (fun link => (link.column.table, link.column.name)) =
      design.sharedKeys lineage := by
  rw [sharedKeys, if_pos hkind, keyLinks_eq, List.map_filterMap]
  conv_rhs => rw [← List.zipIdx_map_fst 0 design.tables, List.filterMap_map]
  apply List.filterMap_congr
  rintro ⟨table, position⟩ _
  exact Option.map_map ..

omit hclean in
theorem relations_mapInheritance (design : Design) (ids : IdSupply) (lineage : Lineage) :
    (design.mapInheritance ids lineage).relations =
      design.relations.map (design.inheritance.moves lineage) ++
        if design.inheritance = .classTable then (design.keyLinks ids lineage).map (·.relation)
        else [] := by
  unfold mapInheritance
  cases design.inheritance with
  | singleTable => exact (List.append_nil _).symm
  | classTable =>
      have hmoves : design.relations.map (InheritanceKind.classTable.moves lineage) =
          design.relations := List.map_id _
      rw [hmoves]
      rfl
  | concreteTable =>
      have hmoves : design.relations.map (InheritanceKind.concreteTable.moves lineage) =
          design.relations := List.map_id _
      rw [hmoves]
      exact (List.append_nil _).symm

/-- What refers from a table after the mapping can be told before it. -/
theorem names_mapInheritance (hlineage : Lineage.of design = .ok lineage)
    (hfresh : ids.FreshFor design) (id : TableId) :
    (design.mapInheritance ids lineage).relations.filterMap
        ((design.mapInheritance ids lineage).nameFrom? id) =
      namesAt (design.referringColumns lineage) id := by
  have hmoved : (design.relations.map (design.inheritance.moves lineage)).filterMap
      ((design.mapInheritance ids lineage).nameFrom? id) =
        namesAt (design.relations.filterMap (design.referringColumn? lineage)) id := by
    rw [namesAt, List.filterMap_map, List.filterMap_filterMap]
    apply List.filterMap_congr
    intro relation hmem
    exact nameFrom?_mapInheritance hclean hlineage hfresh hmem
  rw [relations_mapInheritance, List.filterMap_append, hmoved, referringColumns, namesAt, namesAt,
    List.filterMap_append]
  congr 1
  by_cases hkind : design.inheritance = .classTable
  · rw [if_pos hkind, ← map_keyLinks ids hkind, List.filterMap_map, List.filterMap_map,
      mapInheritance, hkind]
    apply List.filterMap_congr
    intro link hlink
    exact nameFrom?_keyLinks hclean hfresh hlink
  · rw [if_neg hkind, sharedKeys, if_neg hkind]
    rfl

/-! ### Junctions -/

theorem finds_moves_iff (hlineage : Lineage.of design = .ok lineage) (hfresh : ids.FreshFor design)
    (hmem : relation ∈ design.relations) (hdata : ¬relation.isInheritance) :
    (design.mapInheritance ids lineage).Finds (design.inheritance.moves lineage relation).source ∧
        (design.mapInheritance ids lineage).Finds
          (design.inheritance.moves lineage relation).target ↔
      (design.inheritance = .concreteTable →
        design.FindsConcrete relation.source ∧ design.FindsConcrete relation.target) := by
  have hsource := hclean.finds_end hmem hdata (.inl rfl)
  have htarget := hclean.finds_end hmem hdata (.inr rfl)
  unfold mapInheritance InheritanceKind.moves
  cases design.inheritance with
  | singleTable =>
      exact iff_of_true ⟨hsource.mergeHierarchies hlineage, htarget.mergeHierarchies hlineage⟩ nofun
  | classTable => exact iff_of_true ⟨hsource.linkClasses, htarget.linkClasses⟩ nofun
  | concreteTable =>
      simp only [forall_const]
      exact and_congr
        (hclean.finds_flattenHierarchies_iff hmem hdata hlineage hfresh (.inl rfl))
        (hclean.finds_flattenHierarchies_iff hmem hdata hlineage hfresh (.inr rfl))

theorem junction?_moves (hlineage : Lineage.of design = .ok lineage) (hfresh : ids.FreshFor design)
    (hmem : relation ∈ design.relations) :
    ((design.mapInheritance ids lineage).junction?
        (design.inheritance.moves lineage relation)).map (fun x => (x.source, x.target)) =
      design.joinedTables? lineage relation := by
  have hkept : ∀ id, design.keptTable? lineage id =
      (design.mapInheritance ids lineage).table? (design.inheritance.holder lineage id) := by
    intro id
    have htables : (design.mapInheritance ids lineage).tables =
        design.tables.filter (design.inheritance.keeps lineage) :=
      tables_mapInheritance design ids lineage
    rw [keptTable?, table?, htables]
  have hmoved := design.inheritance.moves_kind lineage relation
  by_cases hkind : relation.kind = .manyToMany
  · have hdata : ¬relation.isInheritance := by simp [Relation.isInheritance, hkind]
    have hnone : (design.mapInheritance ids lineage).junction?
        (design.inheritance.moves lineage relation) = none ↔
          ¬(design.inheritance = .concreteTable →
            design.FindsConcrete relation.source ∧ design.FindsConcrete relation.target) := by
      rw [junction?_eq_none_iff (hmoved.trans hkind),
        finds_moves_iff hclean hlineage hfresh hmem hdata]
    cases hjunction : (design.mapInheritance ids lineage).junction?
        (design.inheritance.moves lineage relation) with
    | none =>
        rw [joinedTables?, if_neg fun h => hnone.mp hjunction h.2]
        rfl
    | some junction =>
        have hexpands : design.Expands relation := by
          refine ⟨hkind, ?_⟩
          by_contra hlost
          rw [hnone.mpr hlost] at hjunction
          cases hjunction
        obtain ⟨_, ⟨hsource, _⟩, htarget, _⟩ := junction?_eq_some hjunction
        obtain ⟨hsourceTable, htargetTable⟩ :=
          tables_moves design.inheritance lineage relation
        rw [hsourceTable, ← hkept] at hsource
        rw [htargetTable, ← hkept] at htarget
        rw [joinedTables?, if_pos hexpands, hsource, htarget]
        rfl
  · have hnone : (design.mapInheritance ids lineage).junction?
        (design.inheritance.moves lineage relation) = none := by
      rw [junction?_eq, if_neg fun h => hkind (hmoved.symm.trans h)]
    rw [hnone, joinedTables?, if_neg fun h => hkind h.1]
    rfl

/-- The junctions join the tables that are told before the mapping. -/
theorem map_junctions_mapInheritance (hlineage : Lineage.of design = .ok lineage)
    (hfresh : ids.FreshFor design) :
    (design.mapInheritance ids lineage).dropInheritance.junctions.map
        (fun x => (x.source, x.target)) =
      design.joinedTables lineage := by
  have hplain : (design.mapInheritance ids lineage).dropInheritance.junctions =
      (design.mapInheritance ids lineage).relations.filterMap
        (design.mapInheritance ids lineage).junction? := by
    have hjunction : (design.mapInheritance ids lineage).dropInheritance.junction? =
        (design.mapInheritance ids lineage).junction? := rfl
    rw [junctions, hjunction, dropInheritance, List.filterMap_filter]
    apply List.filterMap_congr
    intro relation _
    cases hkind : relation.kind <;> simp [Relation.isInheritance, junction?_eq, hkind]
  have hlinks : ((design.keyLinks ids lineage).map (·.relation)).filterMap
      (design.mapInheritance ids lineage).junction? = [] := by
    rw [List.filterMap_eq_nil_iff]
    intro relation hmem
    obtain ⟨link, hlink, rfl⟩ := List.mem_map.mp hmem
    simp [junction?_eq, kind_of_mem_keyLinks hlink]
  have hnew : (if design.inheritance = .classTable then
      (design.keyLinks ids lineage).map (·.relation) else []).filterMap
        (design.mapInheritance ids lineage).junction? = [] := by
    split
    · exact hlinks
    · rfl
  rw [hplain, relations_mapInheritance, List.filterMap_append, hnew, List.append_nil,
    List.filterMap_map, List.map_filterMap, joinedTables]
  apply List.filterMap_congr
  intro relation hmem
  exact junction?_moves hclean hlineage hfresh hmem

end Clean

end Design

end SchemaDesign
