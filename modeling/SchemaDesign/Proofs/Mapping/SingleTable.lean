import SchemaDesign.Proofs.Mapping.Lineage
import SchemaDesign.Proofs.Mapping.Settled

/-!
# One table for each hierarchy

Owners and ends move to the roots together, and so an end keeps the column that it names.
-/

namespace SchemaDesign

theorem nodup_eraseDups {α : Type} [BEq α] [LawfulBEq α] (list : List α) :
    list.eraseDups.Nodup := by
  match list with
  | [] => exact List.nodup_nil
  | x :: rest =>
      rw [List.eraseDups_cons, List.nodup_cons]
      refine ⟨?_, nodup_eraseDups (rest.filter fun y => !y == x)⟩
      simp [List.mem_eraseDups]
termination_by list.length
decreasing_by exact Nat.lt_succ_of_le (List.length_filter_le _ _)

namespace Design

variable {design : Design} {ids : IdSupply} {lineage : Lineage}

theorem hasTable_root_mergeHierarchies (hlineage : Lineage.of design = .ok lineage)
    {id : TableId} (htable : design.hasTable id) :
    (design.mergeHierarchies ids lineage).hasTable (lineage.root id) := by
  have hroot := lineage.hasTable_root hlineage htable
  rcases exists_mem_of_hasTable hroot with ⟨table, hmem, hid⟩
  rw [← hid]
  apply hasTable_of_mem
  apply List.mem_filter.mpr
  refine ⟨hmem, ?_⟩
  rw [hid, Lineage.isRoot, lineage.root_root hlineage, beq_self_eq_true]

theorem mem_discriminators {column : Column}
    (hmem : column ∈ design.discriminators ids lineage) :
    (∃ position, ids position = column.id) ∧
      ∃ table ∈ design.tables, column.table = lineage.root table.id := by
  rcases List.mem_filterMap.mp hmem with ⟨⟨root, position⟩, hposition, hmade⟩
  rcases Option.map_eq_some_iff.mp hmade with ⟨table, _, rfl⟩
  have hroot : root ∈ lineage.absorbingRoots design.tables :=
    List.fst_mem_of_mem_zipIdx hposition
  rw [Lineage.absorbingRoots, List.mem_eraseDups] at hroot
  rcases List.mem_map.mp hroot with ⟨descendant, hdescendant, rfl⟩
  exact ⟨⟨position, rfl⟩, descendant, List.mem_of_mem_filter hdescendant, rfl⟩

/-- A table gets at most one discriminator. -/
theorem exists_filter_discriminators (design : Design) (ids : IdSupply) (lineage : Lineage)
    (id : TableId) :
    ∃ position, (design.discriminators ids lineage).filter (·.table == id) =
      (((lineage.absorbingRoots design.tables).find? (· == id)).bind fun root =>
        (design.table? root).map fun table => table.discriminator (ids position) root).toList := by
  apply exists_filter_filterMap_zipIdx fun root => root
  · intro root position column hmade
    obtain ⟨table, _, rfl⟩ := Option.map_eq_some_iff.mp hmade
    rfl
  · rw [List.map_id']
    exact nodup_eraseDups _

theorem nodup_discriminators (hinjective : Function.Injective ids) :
    ((design.discriminators ids lineage).map (·.id)).Nodup := by
  apply IdSupply.nodup_filterMap_zipIdx hinjective
  intro root position column hmade
  rcases Option.map_eq_some_iff.mp hmade with ⟨table, _, rfl⟩
  rfl

theorem columnIds_mergeHierarchies :
    (design.mergeHierarchies ids lineage).columnIds =
      design.columnIds ++ (design.discriminators ids lineage).map (·.id) := by
  simp only [columnIds, mergeHierarchies, List.map_append, List.map_map]
  rfl

theorem resolves_mergeHierarchies
    (hnodup : (design.mergeHierarchies ids lineage).columnIds.Nodup) {endpoint : Endpoint}
    (hresolves : design.Resolves endpoint) :
    (design.mergeHierarchies ids lineage).Resolves (endpoint.atRoot lineage) := by
  rcases hresolves.exists_mem with ⟨column, hmem, hid, htable⟩
  have hmoved : column.atRoot lineage ∈ (design.mergeHierarchies ids lineage).columns :=
    List.mem_append_left _ (List.mem_map_of_mem hmem)
  apply resolves_of_mem hnodup hmoved
  · exact hid
  · simp only [Column.atRoot, Endpoint.atRoot, htable]

theorem maps_mergeHierarchies (hlineage : Lineage.of design = .ok lineage)
    (hsettled : design.Settled []) (hfresh : ids.FreshFor design) :
    design.Maps ids [] (design.mergeHierarchies ids lineage) := by
  have hcolumnIds : (design.mergeHierarchies ids lineage).columnIds.Nodup := by
    rw [columnIds_mergeHierarchies, columnIds, ← List.map_append]
    apply hfresh.nodup_append_columns hsettled.columnIds_nodup
    · exact nodup_discriminators hfresh.injective
    · exact fun column hmem => (mem_discriminators hmem).1
  constructor
  case settled =>
    constructor
    case tableIds_nodup => exact hsettled.tableIds_nodup.sublist (List.filter_sublist.map _)
    case columnIds_nodup => exact hcolumnIds
    case owner =>
      intro column hmem
      rcases List.mem_append.mp hmem with hmem | hmem
      · rcases List.mem_map.mp hmem with ⟨former, hformer, rfl⟩
        exact hasTable_root_mergeHierarchies hlineage (hsettled.owner former hformer)
      · rcases (mem_discriminators hmem).2 with ⟨table, htable, hroot⟩
        rw [hroot]
        exact hasTable_root_mergeHierarchies hlineage (hasTable_of_mem htable)
    case ends =>
      intro relation hmem hdata
      rcases List.mem_map.mp hmem with ⟨former, hformer, rfl⟩
      have hends := hsettled.ends former hformer hdata
      have hresolves := hends.imp (·.resolve_left List.not_mem_nil)
        (·.resolve_left List.not_mem_nil)
      exact ⟨.inr (resolves_mergeHierarchies hcolumnIds hresolves.1),
        .inr (resolves_mergeHierarchies hcolumnIds hresolves.2)⟩
  case gone => simp
  case tables => exact (List.filter_sublist.map _).subset
  case columns =>
    intro id hmem
    rw [columnIds_mergeHierarchies] at hmem
    rcases List.mem_append.mp hmem with hmem | hmem
    · exact .inl hmem
    · rcases List.mem_map.mp hmem with ⟨column, hcolumn, rfl⟩
      exact .inr (mem_discriminators hcolumn).1

end Design

end SchemaDesign
