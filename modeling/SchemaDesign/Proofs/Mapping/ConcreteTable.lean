import SchemaDesign.Mapping.ConcreteTable
import SchemaDesign.Proofs.Mapping.Lineage
import SchemaDesign.Proofs.Mapping.Settled

/-!
# Only concrete tables

Copies are listed after the columns of the design, and each takes the id at the position where it
stands.  An end of a relation is lost only with the abstract table that it is at.
-/

namespace SchemaDesign

variable {design : Design} {ids : IdSupply} {lineage : Lineage}

theorem Lineage.hasTable_of_mem_line (hlineage : Lineage.of design = .ok lineage)
    {id member : TableId} (htable : design.hasTable id) (hmem : member ∈ lineage.line id) :
    design.hasTable member := by
  induction id using lineage.line_induction hlineage with
  | root id hbase =>
      rw [lineage.line_of_base_eq hlineage hbase, List.mem_singleton] at hmem
      rw [hmem]
      exact htable
  | step id hbase ih =>
      rw [lineage.line_of_base_ne hlineage hbase] at hmem
      rcases List.mem_cons.mp hmem with rfl | hmem
      · exact htable
      · exact ih (Design.inherits_of_baseOf_ne hbase).parent_hasTable hmem

theorem Lineage.hasTable_of_mem_basesFirst (hlineage : Lineage.of design = .ok lineage)
    {id : TableId} (hmem : id ∈ lineage.basesFirst design.tables) : design.hasTable id := by
  have hfold : ∀ (tables : List Table) (done : List TableId), tables ⊆ design.tables →
      (∀ id ∈ done, design.hasTable id) →
      ∀ id ∈ tables.foldl (fun done table =>
        done ++ ((lineage.line table.id).takeWhile (· ∉ done)).reverse) done,
        design.hasTable id := by
    intro tables
    induction tables with
    | nil => exact fun done _ hdone => hdone
    | cons table tables ih =>
        intro done hsubset hdone
        apply ih
        · exact fun other hother => hsubset (List.mem_cons_of_mem _ hother)
        · intro id hid
          rcases List.mem_append.mp hid with hid | hid
          · exact hdone id hid
          · have htable := Design.hasTable_of_mem (hsubset List.mem_cons_self)
            have hline := (List.takeWhile_sublist _).subset (List.mem_reverse.mp hid)
            exact lineage.hasTable_of_mem_line hlineage htable hline
  exact hfold design.tables [] (List.Subset.refl _) (by simp) id hmem

/-! ### Copies -/

/-- Copies of columns for a table; the first one takes the id at the start. -/
def copiesFor (ids : IdSupply) (id : TableId) (start : Nat) (columns : List Column) : List Column :=
  (columns.zipIdx start).map fun (column, position) => column.copyTo (ids position) id

theorem map_id_copiesFor (ids : IdSupply) (id : TableId) (start : Nat) (columns : List Column) :
    (copiesFor ids id start columns).map (·.id) =
      (List.range' start columns.length).map ids := by
  rw [copiesFor, ← List.zipIdx_map_snd, List.map_map, List.map_map]
  rfl

theorem table_of_mem_copiesFor {id : TableId} {start : Nat} {columns : List Column}
    {column : Column} (hmem : column ∈ copiesFor ids id start columns) : column.table = id := by
  obtain ⟨_, _, rfl⟩ := List.mem_map.mp hmem
  rfl

theorem copyDown_of_base_eq {id : TableId} (hself : lineage.base id = id) (columns : List Column) :
    copyDown ids lineage columns id = columns := by
  unfold copyDown
  rw [if_pos hself]

theorem copyDown_of_base_ne {id : TableId} (hbase : lineage.base id ≠ id) (columns : List Column) :
    copyDown ids lineage columns id = columns ++
      copiesFor ids id columns.length (columns.filter (·.table == lineage.base id)) := by
  unfold copyDown
  rw [if_neg hbase]
  rfl

namespace Design

/-- The columns of the design are followed by copies for its tables. -/
structure Completes (design : Design) (ids : IdSupply) (columns copies : List Column) : Prop where
  split : columns = design.columns ++ copies
  ids_eq : copies.map (·.id) =
    (List.range' design.columns.length copies.length).map ids
  owner : ∀ column ∈ copies, design.hasTable column.table

theorem Completes.copyDown {columns copies : List Column}
    (hcompletes : design.Completes ids columns copies) (lineage : Lineage) {id : TableId}
    (htable : design.hasTable id) :
    ∃ copies', design.Completes ids (copyDown ids lineage columns id) copies' := by
  by_cases hself : lineage.base id = id
  · rw [copyDown_of_base_eq hself]
    exact ⟨copies, hcompletes⟩
  · rw [copyDown_of_base_ne hself]
    generalize columns.filter (·.table == lineage.base id) = inherited
    refine ⟨copies ++ copiesFor ids id columns.length inherited, ?_⟩
    constructor
    case split => rw [hcompletes.split, List.append_assoc]
    case ids_eq =>
      have hlength : columns.length = design.columns.length + copies.length := by
        rw [hcompletes.split, List.length_append]
      have hcount : (copiesFor ids id columns.length inherited).length = inherited.length := by
        rw [copiesFor, List.length_map, List.length_zipIdx]
      rw [List.map_append, map_id_copiesFor, hcompletes.ids_eq, List.length_append, hcount,
        hlength, ← List.map_append, List.range'_append_1]
    case owner =>
      intro column hmem
      rcases List.mem_append.mp hmem with hmem | hmem
      · exact hcompletes.owner column hmem
      · rw [table_of_mem_copiesFor hmem]
        exact htable

theorem exists_completes (ids : IdSupply) (hlineage : Lineage.of design = .ok lineage) :
    ∃ copies, design.Completes ids (design.completedColumns ids lineage) copies := by
  have hfold : ∀ (order : List TableId) (columns copies : List Column),
      (∀ id ∈ order, design.hasTable id) → design.Completes ids columns copies →
      ∃ copies', design.Completes ids (order.foldl (SchemaDesign.copyDown ids lineage) columns)
        copies' := by
    intro order
    induction order with
    | nil => exact fun columns copies _ hcompletes => ⟨copies, hcompletes⟩
    | cons id order ih =>
        intro columns copies htables hcompletes
        rcases hcompletes.copyDown lineage (htables id List.mem_cons_self) with ⟨copies', hnext⟩
        exact ih _ copies' (fun other hother => htables other (List.mem_cons_of_mem _ hother)) hnext
  apply hfold _ design.columns []
  · intro id hmem
    exact lineage.hasTable_of_mem_basesFirst hlineage hmem
  · exact ⟨by simp, by simp, by simp⟩

theorem Completes.drawn {columns copies : List Column}
    (hcompletes : design.Completes ids columns copies) {column : Column}
    (hmem : column ∈ copies) : ∃ position, ids position = column.id := by
  have hid : column.id ∈ copies.map (·.id) := List.mem_map_of_mem hmem
  rw [hcompletes.ids_eq] at hid
  rcases List.mem_map.mp hid with ⟨position, _, hposition⟩
  exact ⟨position, hposition⟩

theorem Completes.nodup {columns copies : List Column}
    (hcompletes : design.Completes ids columns copies) (hnodup : design.columnIds.Nodup)
    (hfresh : ids.FreshFor design) : (columns.map (·.id)).Nodup := by
  rw [hcompletes.split]
  apply hfresh.nodup_append_columns hnodup
  · rw [hcompletes.ids_eq]
    exact List.Nodup.map hfresh.injective List.nodup_range'
  · exact fun column hmem => hcompletes.drawn hmem

theorem mem_abstractIds_iff (design : Design) (id : TableId) :
    id ∈ design.abstractIds ↔ ∃ table ∈ design.tables, table.isAbstract ∧ table.id = id := by
  simp [abstractIds, and_assoc]

theorem hasTable_flattenHierarchies {id : TableId} (htable : design.hasTable id)
    (hkept : id ∉ design.abstractIds) :
    (design.flattenHierarchies ids lineage).hasTable id := by
  rcases exists_mem_of_hasTable htable with ⟨table, hmem, rfl⟩
  apply hasTable_of_mem
  apply List.mem_filter.mpr
  refine ⟨hmem, ?_⟩
  by_contra habstract
  have hflag : table.isAbstract := by simpa using habstract
  exact hkept ((design.mem_abstractIds_iff _).mpr ⟨table, hmem, hflag, rfl⟩)

theorem maps_flattenHierarchies (hlineage : Lineage.of design = .ok lineage)
    (hsettled : design.Settled []) (hfresh : ids.FreshFor design) :
    design.Maps ids design.abstractIds (design.flattenHierarchies ids lineage) := by
  rcases exists_completes ids hlineage with ⟨copies, hcompletes⟩
  have hcolumnIds : (design.flattenHierarchies ids lineage).columnIds.Nodup :=
    (hcompletes.nodup hsettled.columnIds_nodup hfresh).sublist (List.filter_sublist.map _)
  constructor
  case settled =>
    constructor
    case tableIds_nodup => exact hsettled.tableIds_nodup.sublist (List.filter_sublist.map _)
    case columnIds_nodup => exact hcolumnIds
    case owner =>
      intro column hmem
      rcases List.mem_filter.mp hmem with ⟨hmem, hkept⟩
      have howner : design.hasTable column.table := by
        rw [hcompletes.split] at hmem
        rcases List.mem_append.mp hmem with hmem | hmem
        · exact hsettled.owner column hmem
        · exact hcompletes.owner column hmem
      exact hasTable_flattenHierarchies howner (by simpa using hkept)
    case ends =>
      intro relation hmem hdata
      have hend : ∀ endpoint, design.Anchored [] endpoint →
          (design.flattenHierarchies ids lineage).Anchored design.abstractIds endpoint := by
        intro endpoint hanchored
        by_cases hlost : endpoint.table ∈ design.abstractIds
        · exact .inl hlost
        · right
          apply (hanchored.resolve_left List.not_mem_nil).of_kept hcolumnIds
          intro column hcolumn _ htable
          apply List.mem_filter.mpr
          rw [hcompletes.split, htable]
          exact ⟨List.mem_append_left _ hcolumn, by simpa using hlost⟩
      exact (hsettled.ends relation hmem hdata).imp (hend _) (hend _)
  case gone =>
    intro id hlost htable
    rcases (design.mem_abstractIds_iff id).mp hlost with ⟨table, hmem, habstract, rfl⟩
    rcases exists_mem_of_hasTable htable with ⟨other, hother, hid⟩
    rcases List.mem_filter.mp hother with ⟨hother, hconcrete⟩
    have hsame := List.inj_on_of_nodup_map hsettled.tableIds_nodup hother hmem hid
    simp [hsame, habstract] at hconcrete
  case tables => exact (List.filter_sublist.map _).subset
  case columns =>
    intro id hmem
    rcases List.mem_map.mp hmem with ⟨column, hcolumn, rfl⟩
    have hmem := List.mem_of_mem_filter hcolumn
    rw [hcompletes.split] at hmem
    rcases List.mem_append.mp hmem with hmem | hmem
    · exact .inl (List.mem_map_of_mem hmem)
    · exact .inr (hcompletes.drawn hmem)

end Design

end SchemaDesign
