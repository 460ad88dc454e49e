import SchemaDesign.Mapping.ClassTable
import SchemaDesign.Proofs.Mapping.Lineage
import SchemaDesign.Proofs.Mapping.Settled

/-!
# One table for each class

Nothing that was there changes.  A new relation leads from a key of a root to a new column.
-/

namespace SchemaDesign.Design

variable {design : Design} {ids : IdSupply} {lineage : Lineage}

@[simp]
theorem table_column_create (id : ColumnId) (root : TableId) (key : Column) (table : Table) :
    (KeyLink.create id root key table).column.table = table.id :=
  rfl

@[simp]
theorem name_column_create (id : ColumnId) (root : TableId) (key : Column) (table : Table) :
    (KeyLink.create id root key table).column.name = key.name :=
  rfl

/-- The first key of the root of a table, if the root is another table and has a key. -/
def rootKey? (design : Design) (lineage : Lineage) (table : Table) : Option Column :=
  if lineage.isRoot table.id then none
  else (design.table? (lineage.root table.id)).bind fun root => design.primaryKeyOf? root.id

def keyLink? (design : Design) (ids : IdSupply) (lineage : Lineage) (table : Table)
    (position : Nat) : Option KeyLink :=
  (design.rootKey? lineage table).map fun key =>
    .create (ids position) (lineage.root table.id) key table

theorem made?_handleDescendant (table : Table) (position : Nat) :
    (design.handleDescendant ids lineage table position).made? =
      design.keyLink? ids lineage table position := by
  unfold handleDescendant keyLink? rootKey?
  by_cases hroot : lineage.isRoot table.id
  · rw [if_pos hroot, if_pos hroot]
    rfl
  · rw [if_neg hroot, if_neg hroot]
    cases design.table? (lineage.root table.id) with
    | none => rfl
    | some root =>
        cases hkey : design.primaryKeyOf? root.id with
        | none => simp [hkey, Handling.made?]
        | some key => simp [hkey, Handling.made?]

theorem keyLinks_eq (design : Design) (ids : IdSupply) (lineage : Lineage) :
    design.keyLinks ids lineage = design.tables.zipIdx.filterMap fun (table, position) =>
      design.keyLink? ids lineage table position := by
  rw [keyLinks, handleDescendants, List.filterMap_map]
  exact List.filterMap_congr fun _ _ => made?_handleDescendant _ _

theorem rootKey?_eq_some {table : Table} {key : Column}
    (hkey : design.rootKey? lineage table = some key) :
    key ∈ design.columns ∧ key.table = lineage.root table.id := by
  unfold rootKey? at hkey
  split at hkey
  case isTrue => simp at hkey
  case isFalse =>
    rcases Option.bind_eq_some_iff.mp hkey with ⟨root, hroot, hprimary⟩
    have hid : root.id = lineage.root table.id := (mem_of_table? hroot).2
    have howner := List.find?_some hprimary
    rw [Bool.and_eq_true, beq_iff_eq] at howner
    exact ⟨List.mem_of_find?_eq_some hprimary, howner.1.trans hid⟩

/-- A link joins a key of the root to the new column of a descendant. -/
theorem mem_keyLinks {link : KeyLink} (hmem : link ∈ design.keyLinks ids lineage) :
    ∃ position, ∃ table ∈ design.tables, ∃ key ∈ design.columns,
      link.column.id = ids position ∧ link.column.table = table.id ∧
        link.relation = .between .oneToOne key.table key.id table.id (ids position) := by
  rw [keyLinks_eq] at hmem
  rcases List.mem_filterMap.mp hmem with ⟨⟨table, position⟩, hposition, hlink⟩
  rcases Option.map_eq_some_iff.mp hlink with ⟨key, hkey, rfl⟩
  have htable : table ∈ design.tables := List.fst_mem_of_mem_zipIdx hposition
  have hfound := rootKey?_eq_some hkey
  refine ⟨position, table, htable, key, hfound.1, rfl, rfl, ?_⟩
  rw [hfound.2]
  rfl

theorem kind_of_mem_keyLinks {link : KeyLink} (hmem : link ∈ design.keyLinks ids lineage) :
    link.relation.kind = .oneToOne := by
  obtain ⟨_, _, _, _, _, _, _, hrelation⟩ := mem_keyLinks hmem
  rw [hrelation]
  rfl

theorem target_of_mem_keyLinks {link : KeyLink} (hmem : link ∈ design.keyLinks ids lineage) :
    link.relation.target = ⟨link.column.table, some link.column.id⟩ := by
  obtain ⟨_, table, _, key, _, hid, howner, hrelation⟩ := mem_keyLinks hmem
  rw [hrelation, hid, howner]
  rfl

/-- A table gets at most one link. -/
theorem exists_filter_keyLinks (htables : design.tableIds.Nodup) (ids : IdSupply)
    (lineage : Lineage) (id : TableId) :
    ∃ position, (design.keyLinks ids lineage).filter (·.column.table == id) =
      ((design.table? id).bind fun table => design.keyLink? ids lineage table position).toList := by
  rw [keyLinks_eq]
  apply exists_filter_filterMap_zipIdx (fun table : Table => table.id) _ htables
  intro table position link hlink
  obtain ⟨key, _, rfl⟩ := Option.map_eq_some_iff.mp hlink
  rfl

theorem columnsOf_linkClasses (design : Design) (ids : IdSupply) (lineage : Lineage)
    (id : TableId) :
    (design.linkClasses ids lineage).columnsOf id = design.columnsOf id ++
      ((design.keyLinks ids lineage).map (·.column)).filter (·.table == id) :=
  List.filter_append ..

/-- The new relations that lead to a table are those of its links. -/
theorem filter_keyLinks_relations (design : Design) (ids : IdSupply) (lineage : Lineage)
    (id : TableId) :
    ((design.keyLinks ids lineage).map (·.relation)).filter (·.target.table == id) =
      ((design.keyLinks ids lineage).filter (·.column.table == id)).map (·.relation) := by
  rw [List.filter_map]
  refine congrArg _ (List.filter_congr fun link hlink => ?_)
  simp only [Function.comp_apply, target_of_mem_keyLinks hlink]

theorem filter_manyToMany_linkClasses (design : Design) (ids : IdSupply) (lineage : Lineage) :
    (design.linkClasses ids lineage).relations.filter (·.kind == .manyToMany) =
      design.relations.filter (·.kind == .manyToMany) := by
  have hlinks : ((design.keyLinks ids lineage).map (·.relation)).filter
      (·.kind == .manyToMany) = [] := by
    rw [List.filter_eq_nil_iff]
    intro r hr
    obtain ⟨link, hlink, rfl⟩ := List.mem_map.mp hr
    rw [kind_of_mem_keyLinks hlink]
    exact Bool.false_ne_true
  unfold linkClasses
  rw [List.filter_append, hlinks, List.append_nil]

theorem nodup_keyLinks (hinjective : Function.Injective ids) :
    (((design.keyLinks ids lineage).map (·.column)).map (·.id)).Nodup := by
  rw [keyLinks_eq, List.map_map]
  apply IdSupply.nodup_filterMap_zipIdx hinjective
  intro table position link hlink
  rcases Option.map_eq_some_iff.mp hlink with ⟨key, _, rfl⟩
  rfl

theorem maps_linkClasses (hsettled : design.Settled []) (hfresh : ids.FreshFor design) :
    design.Maps ids [] (design.linkClasses ids lineage) := by
  have hdrawn : ∀ column ∈ (design.keyLinks ids lineage).map (·.column),
      ∃ position, ids position = column.id := by
    intro column hmem
    rcases List.mem_map.mp hmem with ⟨link, hlink, rfl⟩
    rcases mem_keyLinks hlink with ⟨position, _, _, _, _, hid, _⟩
    exact ⟨position, hid.symm⟩
  have hcolumnIds : (design.linkClasses ids lineage).columnIds.Nodup :=
    hfresh.nodup_append_columns hsettled.columnIds_nodup (nodup_keyLinks hfresh.injective) hdrawn
  constructor
  case settled =>
    constructor
    case tableIds_nodup => exact hsettled.tableIds_nodup
    case columnIds_nodup => exact hcolumnIds
    case owner =>
      intro column hmem
      rcases List.mem_append.mp hmem with hmem | hmem
      · exact hsettled.owner column hmem
      · rcases List.mem_map.mp hmem with ⟨link, hlink, rfl⟩
        rcases mem_keyLinks hlink with ⟨_, table, htable, _, _, _, howner, _⟩
        rw [howner]
        exact hasTable_of_mem htable
    case ends =>
      intro relation hmem hdata
      rcases List.mem_append.mp hmem with hmem | hmem
      · have hkept : ∀ endpoint, design.Anchored [] endpoint →
            (design.linkClasses ids lineage).Anchored [] endpoint :=
          fun _ hanchored => hanchored.of_subset hcolumnIds (List.subset_append_left _ _)
        exact (hsettled.ends relation hmem hdata).imp (hkept _) (hkept _)
      · rcases List.mem_map.mp hmem with ⟨link, hlink, rfl⟩
        have hcolumn : link.column ∈ (design.linkClasses ids lineage).columns :=
          List.mem_append_right _ (List.mem_map_of_mem hlink)
        rcases mem_keyLinks hlink with ⟨position, table, _, key, hkey, hid, howner, hrelation⟩
        rw [hrelation]
        constructor
        · exact .inr (resolves_of_mem hcolumnIds (List.mem_append_left _ hkey) rfl rfl)
        · exact .inr (resolves_of_mem hcolumnIds hcolumn (congrArg some hid.symm) howner)
  case gone => simp
  case tables => exact List.Subset.refl _
  case columns =>
    intro id hmem
    rcases List.mem_map.mp hmem with ⟨column, hcolumn, rfl⟩
    rcases List.mem_append.mp hcolumn with hcolumn | hcolumn
    · exact .inl (List.mem_map_of_mem hcolumn)
    · exact .inr (hdrawn column hcolumn)

end SchemaDesign.Design
