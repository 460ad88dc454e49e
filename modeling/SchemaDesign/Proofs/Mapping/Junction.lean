import SchemaDesign.Proofs.Mapping.Settled

/-!
# Junction tables

A many-to-many relation at a lost table does not resolve, and so it does not become a junction.
Those that do have both their sides in order, and the relations of the junction take these over.
-/

namespace SchemaDesign.Design

variable {design : Design} {lost : List TableId} {ids : IdSupply}

theorem junction?_eq (design : Design) (relation : Relation) :
    design.junction? relation =
      if relation.kind = .manyToMany then design.resolveEnds? relation else none := by
  unfold junction? handleRelation
  split
  case isTrue =>
    cases design.resolveEnds? relation with
    | none => rfl
    | some junction => rfl
  case isFalse => rfl

theorem junction?_eq_some {relation : Relation} {junction : Junction}
    (hjunction : design.junction? relation = some junction) :
    relation.kind = .manyToMany ∧
      (design.table? relation.source.table = some junction.source ∧
        ∃ id, relation.source.column = some id ∧ design.column? id = some junction.sourceKey) ∧
      (design.table? relation.target.table = some junction.target ∧
        ∃ id, relation.target.column = some id ∧ design.column? id = some junction.targetKey) := by
  rw [junction?_eq] at hjunction
  split at hjunction
  case isTrue hkind =>
    simp only [resolveEnds?, Option.bind_eq_bind, Option.bind_eq_some_iff, Option.pure_def,
      Option.some.injEq] at hjunction
    rcases hjunction with ⟨source, hsource, sourceId, hsourceId, sourceKey, hsourceKey, target,
      htarget, targetId, htargetId, targetKey, htargetKey, rfl⟩
    exact ⟨hkind, ⟨hsource, sourceId, hsourceId, hsourceKey⟩,
      htarget, targetId, htargetId, htargetKey⟩
  case isFalse => simp at hjunction

/-- The table and the column that an end names exist, each looked up on its own. -/
def Finds (design : Design) (endpoint : Endpoint) : Prop :=
  design.hasTable endpoint.table ∧ ∃ id, endpoint.column = some id ∧ (design.column? id).isSome

/-- A many-to-many relation stays as it is exactly when one of its ends is not found. -/
theorem junction?_eq_none_iff {relation : Relation} (hkind : relation.kind = .manyToMany) :
    design.junction? relation = none ↔
      ¬(design.Finds relation.source ∧ design.Finds relation.target) := by
  rw [junction?_eq, if_pos hkind]
  unfold resolveEnds? Finds hasTable
  cases design.table? relation.source.table with
  | none => simp
  | some source =>
      cases relation.source.column with
      | none => simp
      | some sourceId =>
          cases hsourceKey : design.column? sourceId with
          | none => simp [hsourceKey]
          | some sourceKey =>
              cases design.table? relation.target.table with
              | none => simp [hsourceKey]
              | some target =>
                  cases relation.target.column with
                  | none => simp [hsourceKey]
                  | some targetId =>
                      cases htargetKey : design.column? targetId with
                      | none => simp [hsourceKey, htargetKey]
                      | some targetKey => simp [hsourceKey, htargetKey]

theorem finds_of_junction?_eq_some {relation : Relation} {junction : Junction}
    (hjunction : design.junction? relation = some junction) :
    design.Finds relation.source ∧ design.Finds relation.target := by
  by_contra hmissing
  have hnone := (junction?_eq_none_iff (junction?_eq_some hjunction).1).mpr hmissing
  simp [hjunction] at hnone

/-- A junction is found by looking up the ends of its relation. -/
theorem junction?_congr {other : Design} {relation : Relation}
    (hends : ∀ endpoint, endpoint = relation.source ∨ endpoint = relation.target →
      design.table? endpoint.table = other.table? endpoint.table ∧
        ∀ id, endpoint.column = some id → design.column? id = other.column? id) :
    design.junction? relation = other.junction? relation := by
  obtain ⟨hsourceTable, hsource⟩ := hends relation.source (.inl rfl)
  obtain ⟨htargetTable, htarget⟩ := hends relation.target (.inr rfl)
  rw [junction?_eq, junction?_eq]
  unfold resolveEnds?
  rw [hsourceTable, htargetTable]
  cases hid : relation.source.column with
  | none => rfl
  | some id =>
      simp only [Option.bind_eq_bind, Option.bind_some]
      rw [hsource id hid]
      cases hid' : relation.target.column with
      | none => rfl
      | some id' =>
          simp only [Option.bind_some]
          rw [htarget id' hid']

/-- A side of a junction is a table together with one of its columns. -/
theorem Anchored.side_of_junction (hgone : ∀ id ∈ lost, ¬design.hasTable id)
    {endpoint : Endpoint} (hanchored : design.Anchored lost endpoint) {table : Table}
    {key : Column} (htable : design.table? endpoint.table = some table)
    (hkey : ∃ id, endpoint.column = some id ∧ design.column? id = some key) :
    key ∈ design.columns ∧ key.table = table.id := by
  have hkept : endpoint.table ∉ lost := by
    intro hlost
    exact hgone _ hlost (by rw [hasTable, htable]; rfl)
  rcases hkey with ⟨id, hid, hcolumn⟩
  rcases hanchored.resolve_left hkept with ⟨other, column, hother, hfound, howner⟩
  have hsame : id = other := Option.some.inj (hid.symm.trans hother)
  have hkeyEq : key = column := Option.some.inj (by rw [← hcolumn, hsame, hfound])
  exact ⟨(mem_of_column? hcolumn).1, by rw [hkeyEq, howner, (mem_of_table? htable).2]⟩

theorem Settled.sides_of_mem_junctions (hsettled : design.Settled lost)
    (hgone : ∀ id ∈ lost, ¬design.hasTable id) {junction : Junction}
    (hmem : junction ∈ design.junctions) :
    (junction.sourceKey ∈ design.columns ∧ junction.sourceKey.table = junction.source.id) ∧
      (junction.targetKey ∈ design.columns ∧ junction.targetKey.table = junction.target.id) := by
  rcases List.mem_filterMap.mp hmem with ⟨relation, hrelation, hjunction⟩
  rcases junction?_eq_some hjunction with ⟨hkind, hsource, htarget⟩
  have hdata : ¬relation.isInheritance := by simp [Relation.isInheritance, hkind]
  have hends := hsettled.ends relation hrelation hdata
  exact ⟨hends.1.side_of_junction hgone hsource.1 hsource.2,
    hends.2.side_of_junction hgone htarget.1 htarget.2⟩

/-! ### The new records -/

def junctionTables (design : Design) (ids : IdSupply) : List Table :=
  design.junctions.zipIdx.map fun (junction, position) => junction.table (ids (3 * position))

def junctionColumns (design : Design) (ids : IdSupply) : List Column :=
  design.junctions.zipIdx.flatMap fun (junction, position) =>
    junction.columns (ids (3 * position)) (ids (3 * position + 1)) (ids (3 * position + 2))

theorem expandJunctions_tables (design : Design) (ids : IdSupply) :
    (design.expandJunctions ids).tables = design.tables ++ design.junctionTables ids := rfl

theorem expandJunctions_columns (design : Design) (ids : IdSupply) :
    (design.expandJunctions ids).columns = design.columns ++ design.junctionColumns ids := rfl

theorem nodup_junctionTables (design : Design) (hinjective : Function.Injective ids) :
    ((design.junctionTables ids).map (·.id)).Nodup := by
  rw [junctionTables, List.map_map, List.Nodup, List.pairwise_map]
  apply (pairwise_zipIdx design.junctions 0).imp
  intro x y hne hsame
  have htriple := hinjective hsame
  omega

theorem columns_map_id (junction : Junction) (id : TableId) (sourceId targetId : ColumnId) :
    (junction.columns id sourceId targetId).map (·.id) = [sourceId, targetId] := rfl

theorem keyIds_ne (hinjective : Function.Injective ids) (position : Nat) :
    ids (3 * position + 1) ≠ ids (3 * position + 2) := by
  intro hsame
  have htriple := hinjective hsame
  omega

theorem nodup_junctionColumns (design : Design) (hinjective : Function.Injective ids) :
    ((design.junctionColumns ids).map (·.id)).Nodup := by
  rw [junctionColumns, List.map_flatMap, List.nodup_flatMap]
  constructor
  · intro x _
    have hne := keyIds_ne hinjective x.2
    rw [columns_map_id]
    exact List.nodup_cons.mpr ⟨by simpa using hne, List.nodup_singleton _⟩
  · have hid : ∀ (x : Junction × Nat) (id : ColumnId),
        id ∈ (x.1.columns (ids (3 * x.2)) (ids (3 * x.2 + 1)) (ids (3 * x.2 + 2))).map (·.id) →
        ∃ k, (k = 1 ∨ k = 2) ∧ ids (3 * x.2 + k) = id := by
      intro x id hmem
      rw [columns_map_id] at hmem
      rcases List.mem_cons.mp hmem with hmem | hmem
      · exact ⟨1, .inl rfl, hmem.symm⟩
      · exact ⟨2, .inr rfl, (List.mem_singleton.mp hmem).symm⟩
    apply (pairwise_zipIdx design.junctions 0).imp
    intro x y hne id hx hy
    rcases hid x id hx with ⟨k, hk, hxid⟩
    rcases hid y id hy with ⟨l, hl, hyid⟩
    have htriple := hinjective (hxid.trans hyid.symm)
    omega

theorem mem_junctionColumns {column : Column} (hmem : column ∈ design.junctionColumns ids) :
    (∃ position, ids position = column.id) ∧ ∃ table ∈ design.junctionTables ids,
      column.table = table.id := by
  rcases List.mem_flatMap.mp hmem with ⟨⟨junction, position⟩, hposition, hcolumn⟩
  have htable : junction.table (ids (3 * position)) ∈ design.junctionTables ids :=
    List.mem_map.mpr ⟨(junction, position), hposition, rfl⟩
  rcases List.mem_cons.mp hcolumn with rfl | hcolumn
  · exact ⟨⟨3 * position + 1, rfl⟩, _, htable, rfl⟩
  · rw [List.mem_singleton] at hcolumn
    subst hcolumn
    exact ⟨⟨3 * position + 2, rfl⟩, _, htable, rfl⟩

theorem Settled.expandJunctions (hsettled : design.Settled lost)
    (hgone : ∀ id ∈ lost, ¬design.hasTable id) (hfresh : ids.FreshFor design) :
    (design.expandJunctions ids).Settled lost := by
  have hcolumnIds : (design.expandJunctions ids).columnIds.Nodup := by
    rw [columnIds, expandJunctions_columns]
    apply hfresh.nodup_append_columns hsettled.columnIds_nodup
    · exact design.nodup_junctionColumns hfresh.injective
    · exact fun column hmem => (mem_junctionColumns hmem).1
  have hold : design.columns ⊆ (design.expandJunctions ids).columns :=
    List.subset_append_left _ _
  constructor
  case tableIds_nodup =>
    rw [tableIds, expandJunctions_tables, List.map_append, List.nodup_append]
    refine ⟨hsettled.tableIds_nodup, design.nodup_junctionTables hfresh.injective, ?_⟩
    intro id hid other hother hsame
    rcases List.mem_map.mp hother with ⟨table, htable, rfl⟩
    rcases List.mem_map.mp htable with ⟨⟨junction, position⟩, _, rfl⟩
    have hnew : id = ids (3 * position) := hsame
    exact hfresh.tables (3 * position) (hnew ▸ hid)
  case columnIds_nodup => exact hcolumnIds
  case owner =>
    intro column hmem
    rw [expandJunctions_columns] at hmem
    rw [hasTable_iff, tableIds, expandJunctions_tables, List.map_append, List.mem_append]
    rcases List.mem_append.mp hmem with hmem | hmem
    · exact .inl ((design.hasTable_iff _).mp (hsettled.owner column hmem))
    · rcases (mem_junctionColumns hmem).2 with ⟨table, htable, howner⟩
      rw [howner]
      exact .inr (List.mem_map_of_mem htable)
  case ends =>
    intro relation hmem hdata
    rcases List.mem_append.mp hmem with hmem | hmem
    · have hends := hsettled.ends relation (List.mem_of_mem_filter hmem) hdata
      exact ⟨hends.1.of_subset hcolumnIds hold, hends.2.of_subset hcolumnIds hold⟩
    · rcases List.mem_flatMap.mp hmem with ⟨⟨junction, position⟩, hposition, hrelation⟩
      have hsides := hsettled.sides_of_mem_junctions hgone (List.fst_mem_of_mem_zipIdx hposition)
      have hnew : junction.columns (ids (3 * position)) (ids (3 * position + 1))
          (ids (3 * position + 2)) ⊆ (design.expandJunctions ids).columns := by
        intro column hcolumn
        rw [expandJunctions_columns]
        exact List.mem_append_right _
          (List.mem_flatMap.mpr ⟨(junction, position), hposition, hcolumn⟩)
      have hkeys := And.intro (hnew List.mem_cons_self) (hnew (List.mem_cons_of_mem _
        List.mem_cons_self))
      rcases List.mem_cons.mp hrelation with rfl | hrelation
      · exact ⟨.inr (resolves_of_mem hcolumnIds (hold hsides.1.1) rfl hsides.1.2),
          .inr (resolves_of_mem hcolumnIds hkeys.1 rfl rfl)⟩
      · rw [List.mem_singleton] at hrelation
        subst hrelation
        exact ⟨.inr (resolves_of_mem hcolumnIds (hold hsides.2.1) rfl hsides.2.2),
          .inr (resolves_of_mem hcolumnIds hkeys.2 rfl rfl)⟩

theorem IsPlain.expandJunctions (hplain : design.IsPlain) (ids : IdSupply) :
    (design.expandJunctions ids).IsPlain := by
  intro relation hmem
  rcases List.mem_append.mp hmem with hmem | hmem
  · exact hplain relation (List.mem_of_mem_filter hmem)
  · rcases List.mem_flatMap.mp hmem with ⟨⟨junction, position⟩, _, hrelation⟩
    rcases List.mem_cons.mp hrelation with rfl | hrelation
    · exact Bool.false_ne_true
    · rw [List.mem_singleton.mp hrelation]
      exact Bool.false_ne_true

end SchemaDesign.Design
