import SchemaDesign.Proofs.Mapping.SingleTable
import SchemaDesign.Proofs.Mapping.ClassTable
import SchemaDesign.Proofs.Mapping.ConcreteTable
import SchemaDesign.Proofs.Mapping.Junction

/-!
# What the mappings keep

A mapping makes no table, and its many-to-many relations are those of the design, whose ends may
have moved to roots.  An end that is found in the design is still found after the mapping, unless it
is lost with an abstract table.
-/

namespace SchemaDesign

/-- The tables that a mapping keeps. -/
def InheritanceKind.keeps (kind : InheritanceKind) (lineage : Lineage) (table : Table) : Bool :=
  match kind with
  | .singleTable => lineage.isRoot table.id
  | .classTable => true
  | .concreteTable => !table.isAbstract

/-- What a mapping makes of a many-to-many relation. -/
def InheritanceKind.moves (kind : InheritanceKind) (lineage : Lineage) (relation : Relation) :
    Relation :=
  match kind with
  | .singleTable => relation.atRoots lineage
  | _ => relation

theorem InheritanceKind.moves_kind (kind : InheritanceKind) (lineage : Lineage)
    (relation : Relation) : (kind.moves lineage relation).kind = relation.kind := by
  cases kind <;> rfl

namespace Design

variable {design : Design} {ids : IdSupply} {lineage : Lineage} {endpoint : Endpoint}

theorem tables_mapInheritance (design : Design) (ids : IdSupply) (lineage : Lineage) :
    (design.mapInheritance ids lineage).dropInheritance.tables =
      design.tables.filter (design.inheritance.keeps lineage) := by
  unfold mapInheritance
  cases design.inheritance with
  | singleTable => rfl
  | classTable => exact (List.filter_eq_self.mpr fun _ _ => rfl).symm
  | concreteTable => rfl

theorem filter_manyToMany_dropInheritance (design : Design) :
    design.dropInheritance.relations.filter (·.kind == .manyToMany) =
      design.relations.filter (·.kind == .manyToMany) := by
  unfold dropInheritance
  rw [List.filter_filter]
  apply List.filter_congr
  intro relation _
  cases hkind : relation.kind <;> simp [Relation.isInheritance, hkind]

theorem filter_manyToMany_mapInheritance (design : Design) (ids : IdSupply) (lineage : Lineage) :
    (design.mapInheritance ids lineage).dropInheritance.relations.filter (·.kind == .manyToMany) =
      (design.relations.filter (·.kind == .manyToMany)).map (design.inheritance.moves lineage) := by
  rw [filter_manyToMany_dropInheritance]
  unfold mapInheritance
  cases design.inheritance with
  | singleTable => exact List.filter_map
  | classTable =>
      rw [filter_manyToMany_linkClasses]
      exact (List.map_id _).symm
  | concreteTable => exact (List.map_id _).symm

/-- A property of all many-to-many relations after a mapping is one of the moved relations. -/
theorem forall_manyToMany_mapInheritance_iff (ids : IdSupply) (lineage : Lineage)
    (property : Relation → Prop) :
    (∀ relation ∈ (design.mapInheritance ids lineage).dropInheritance.relations,
      relation.kind = .manyToMany → property relation) ↔
    ∀ relation ∈ design.relations, relation.kind = .manyToMany →
      property (design.inheritance.moves lineage relation) := by
  have hfilter : ∀ (relations : List Relation) (property : Relation → Prop),
      (∀ relation ∈ relations, relation.kind = .manyToMany → property relation) ↔
        ∀ relation ∈ relations.filter (·.kind == .manyToMany), property relation := by
    simp
  rw [hfilter, filter_manyToMany_mapInheritance, List.forall_mem_map, ← hfilter]

/-- The many-to-many relations after a mapping are those of the design, moved. -/
theorem exists_former_of_manyToMany {relation : Relation}
    (hmem : relation ∈ (design.mapInheritance ids lineage).dropInheritance.relations)
    (hkind : relation.kind = .manyToMany) :
    ∃ former ∈ design.relations, former.kind = .manyToMany ∧
      relation = design.inheritance.moves lineage former := by
  revert relation
  rw [forall_manyToMany_mapInheritance_iff]
  exact fun former hformer hkind => ⟨former, hformer, hkind, rfl⟩

/-! ### Ends that are still found -/

/-- Some table and some column that the end names stay when abstract tables disappear. -/
def FindsConcrete (design : Design) (endpoint : Endpoint) : Prop :=
  (∃ table ∈ design.tables, ¬table.isAbstract ∧ table.id = endpoint.table) ∧
    ∃ column ∈ design.columns, endpoint.column = some column.id ∧
      column.table ∉ design.abstractIds

theorem Finds.mergeHierarchies (hfinds : design.Finds endpoint)
    (hlineage : Lineage.of design = .ok lineage) :
    (design.mergeHierarchies ids lineage).Finds (endpoint.atRoot lineage) := by
  obtain ⟨htable, id, hid, hcolumn⟩ := hfinds
  refine ⟨hasTable_root_mergeHierarchies hlineage htable, id, hid, ?_⟩
  rw [column?_isSome_iff] at hcolumn ⊢
  rw [columnIds_mergeHierarchies]
  exact List.mem_append_left _ hcolumn

theorem Finds.linkClasses (hfinds : design.Finds endpoint) :
    (design.linkClasses ids lineage).Finds endpoint := by
  obtain ⟨htable, id, hid, hcolumn⟩ := hfinds
  refine ⟨htable, id, hid, ?_⟩
  rw [column?_isSome_iff] at hcolumn ⊢
  exact List.map_subset _ (List.subset_append_left _ _) hcolumn

theorem FindsConcrete.flattenHierarchies (hfinds : design.FindsConcrete endpoint)
    (hlineage : Lineage.of design = .ok lineage) :
    (design.flattenHierarchies ids lineage).Finds endpoint := by
  obtain ⟨⟨table, htable, hconcrete, hid⟩, column, hcolumn, hcolumnId, hkept⟩ := hfinds
  obtain ⟨copies, hcompletes⟩ := exists_completes ids hlineage
  constructor
  · rw [← hid]
    exact hasTable_of_mem (List.mem_filter.mpr ⟨htable, by simpa using hconcrete⟩)
  · refine ⟨column.id, hcolumnId, ?_⟩
    rw [column?_isSome_iff]
    apply List.mem_map_of_mem
    apply List.mem_filter.mpr
    rw [hcompletes.split]
    exact ⟨List.mem_append_left _ hcolumn, by simpa using hkept⟩

section Clean

variable (hclean : design.Clean) {relation : Relation} (hmem : relation ∈ design.relations)
  (hdata : ¬relation.isInheritance)

include hclean hmem hdata

theorem Clean.resolves_end (hend : endpoint = relation.source ∨ endpoint = relation.target) :
    design.hasTable endpoint.table ∧ design.Resolves endpoint := by
  have hends := hclean.ends relation hmem
  have hresolves := hclean.resolved relation hmem hdata
  rcases hend with rfl | rfl
  · exact ⟨hends.1, hresolves.1⟩
  · exact ⟨hends.2, hresolves.2⟩

theorem Clean.finds_end (hend : endpoint = relation.source ∨ endpoint = relation.target) :
    design.Finds endpoint := by
  obtain ⟨htable, id, column, hid, hcolumn, _⟩ := hclean.resolves_end hmem hdata hend
  exact ⟨htable, id, hid, by rw [hcolumn]; rfl⟩

theorem Clean.findsConcrete_end (hend : endpoint = relation.source ∨ endpoint = relation.target)
    (hkept : endpoint.table ∉ design.abstractIds) : design.FindsConcrete endpoint := by
  obtain ⟨htable, hresolves⟩ := hclean.resolves_end hmem hdata hend
  obtain ⟨table, htableMem, hid⟩ := exists_mem_of_hasTable htable
  obtain ⟨column, hcolumn, hcolumnId, howner⟩ := hresolves.exists_mem
  refine ⟨⟨table, htableMem, ?_, hid⟩, column, hcolumn, hcolumnId, howner ▸ hkept⟩
  exact fun habstract =>
    hkept ((design.mem_abstractIds_iff _).mpr ⟨table, htableMem, habstract, hid⟩)

/-- An end of a data relation is found where columns are copied down only if it is found without the
copies. -/
theorem Clean.finds_flattenHierarchies_iff (hlineage : Lineage.of design = .ok lineage)
    (hfresh : ids.FreshFor design)
    (hend : endpoint = relation.source ∨ endpoint = relation.target) :
    (design.flattenHierarchies ids lineage).Finds endpoint ↔ design.FindsConcrete endpoint := by
  constructor
  · rintro ⟨htable, id, hid, hfound⟩
    obtain ⟨_, hresolves⟩ := hclean.resolves_end hmem hdata hend
    obtain ⟨known, hknown, hknownId, _⟩ := hresolves.exists_mem
    obtain ⟨copies, hcompletes⟩ := exists_completes ids hlineage
    constructor
    · obtain ⟨table, htable, htableId⟩ := exists_mem_of_hasTable htable
      obtain ⟨htable, hconcrete⟩ := List.mem_filter.mp htable
      exact ⟨table, htable, by simpa using hconcrete, htableId⟩
    · obtain ⟨column, hcolumn, rfl⟩ := List.mem_map.mp ((column?_isSome_iff _ _).mp hfound)
      obtain ⟨hcolumn, hkept⟩ := List.mem_filter.mp hcolumn
      refine ⟨column, ?_, hid, by simpa using hkept⟩
      rw [hcompletes.split] at hcolumn
      rcases List.mem_append.mp hcolumn with hold | hcopy
      · exact hold
      · obtain ⟨position, hposition⟩ := hcompletes.drawn hcopy
        have hsame : known.id = column.id := Option.some.inj (hknownId.symm.trans hid)
        have hdrawn : ids position ∈ design.columnIds := by
          rw [hposition, ← hsame]
          exact List.mem_map_of_mem hknown
        exact absurd hdrawn (hfresh.columns position)
  · intro hfinds
    exact hfinds.flattenHierarchies hlineage

/-- A mapping of a clean design loses an end of a data relation only together with an abstract
table. -/
theorem Clean.finds_moved (hlineage : Lineage.of design = .ok lineage)
    (hkept : design.inheritance = .concreteTable →
      relation.source.table ∉ design.abstractIds ∧ relation.target.table ∉ design.abstractIds) :
    (design.mapInheritance ids lineage).Finds (design.inheritance.moves lineage relation).source ∧
      (design.mapInheritance ids lineage).Finds
        (design.inheritance.moves lineage relation).target := by
  have hsource := hclean.finds_end hmem hdata (.inl rfl)
  have htarget := hclean.finds_end hmem hdata (.inr rfl)
  unfold mapInheritance InheritanceKind.moves
  cases hkind : design.inheritance with
  | singleTable => exact ⟨hsource.mergeHierarchies hlineage, htarget.mergeHierarchies hlineage⟩
  | classTable => exact ⟨hsource.linkClasses, htarget.linkClasses⟩
  | concreteTable =>
      have hsource := hclean.findsConcrete_end hmem hdata (.inl rfl) (hkept hkind).1
      have htarget := hclean.findsConcrete_end hmem hdata (.inr rfl) (hkept hkind).2
      exact ⟨hsource.flattenHierarchies hlineage, htarget.flattenHierarchies hlineage⟩

end Clean

end Design

end SchemaDesign
