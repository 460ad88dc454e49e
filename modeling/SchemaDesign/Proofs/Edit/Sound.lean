import SchemaDesign.Compilation
import SchemaDesign.Proofs.Edit.Effect
import SchemaDesign.Proofs.Mapping.Lineage

/-!
# Edited designs are sound

Most edits leave the relations as they are or take some away, and then soundness asks only for the
ids and the owners to be looked at again.  A new inheritance relation keeps the hierarchies free of
cycles because its gate was passed; a new data relation and a changed kind do not touch them.

A sound design has no cycle, so it can be compiled in every dialect under every inheritance kind.
-/

open Relation

namespace SchemaDesign

namespace Design

variable {design other : Design}

/-! ### Relations taken away -/

theorem Sound.hasTable_of_mem_parents (hsound : design.Sound) {child parent : TableId}
    (hmem : parent ∈ design.parents child) :
    design.hasTable child ∧ design.hasTable parent := by
  rcases (design.mem_parents_iff child parent).mp hmem with ⟨relation, hrelation, _, rfl, rfl⟩
  exact hsound.ends relation hrelation

theorem Sound.inherits_of_mem_parents (hsound : design.Sound) {child parent : TableId}
    (hmem : parent ∈ design.parents child) : design.Inherits child parent :=
  have htables := hsound.hasTable_of_mem_parents hmem
  .of_mem_parents htables.1 htables.2 hmem

theorem Sound.parents_length_le_one (hsound : design.Sound) (id : TableId) :
    (design.parents id).length ≤ 1 := by
  cases hparents : design.parents id with
  | nil => simp
  | cons parent others =>
      have hparent : parent ∈ design.parents id := by simp [hparents]
      have htable := (hsound.hasTable_of_mem_parents hparent).1
      rcases exists_mem_of_hasTable htable with ⟨table, hmem, rfl⟩
      rw [← hparents]
      exact hsound.parents_le_one table hmem

/-- A design stays sound when it loses relations, provided that its ids, owners and ends are in
order. -/
theorem Sound.of_fewer_relations (hsound : design.Sound) (htableIds : other.tableIds.Nodup)
    (hcolumnIds : other.columnIds.Nodup)
    (howner : ∀ column ∈ other.columns, other.hasTable column.table)
    (hends : ∀ relation ∈ other.relations,
      other.hasTable relation.source.table ∧ other.hasTable relation.target.table)
    (hjoins : ∀ source target,
      other.relations.countP (·.joins source target) ≤
        design.relations.countP (·.joins source target))
    (hparents : ∀ id, (other.parents id).Sublist (design.parents id)) : other.Sound where
  tableIds_nodup := htableIds
  columnIds_nodup := hcolumnIds
  owner := howner
  ends := hends
  joins_le_one := fun source target =>
    (hjoins source target).trans (hsound.joins_le_one source target)
  parents_le_one := fun table _ =>
    (hparents table.id).length_le.trans (hsound.parents_length_le_one table.id)
  acyclic := by
    apply hsound.acyclic.mono
    intro child parent hinherits
    have hmem := (other.mem_parents_iff child parent).mpr hinherits.relation
    exact hsound.inherits_of_mem_parents ((hparents child).subset hmem)

theorem parents_sublist (hrelations : other.relations.Sublist design.relations) (id : TableId) :
    (other.parents id).Sublist (design.parents id) := by
  unfold parents relationsFrom
  exact ((hrelations.filter _).filter _).map _

theorem Sound.of_sublist (hsound : design.Sound) (htableIds : other.tableIds.Nodup)
    (hcolumnIds : other.columnIds.Nodup)
    (howner : ∀ column ∈ other.columns, other.hasTable column.table)
    (hends : ∀ relation ∈ other.relations,
      other.hasTable relation.source.table ∧ other.hasTable relation.target.table)
    (hrelations : other.relations.Sublist design.relations) : other.Sound :=
  hsound.of_fewer_relations htableIds hcolumnIds howner hends
    (fun _ _ => hrelations.countP_le) (parents_sublist hrelations)

theorem Sound.withTables (hsound : design.Sound) {tables : List Table}
    (hnodup : (tables.map (·.id)).Nodup) (hsubset : design.tableIds ⊆ tables.map (·.id)) :
    { design with tables := tables }.Sound :=
  have hmono : ∀ {id}, design.hasTable id → { design with tables := tables }.hasTable id :=
    hasTable_of_subset hsubset
  hsound.of_sublist hnodup hsound.columnIds_nodup
    (fun column hmem => hmono (hsound.owner column hmem))
    (fun relation hmem => (hsound.ends relation hmem).imp hmono hmono) (.refl _)

theorem Sound.withColumns (hsound : design.Sound) {columns : List Column}
    (hnodup : (columns.map (·.id)).Nodup)
    (howner : ∀ column ∈ columns, design.hasTable column.table) :
    { design with columns := columns }.Sound :=
  hsound.of_sublist hsound.tableIds_nodup hnodup howner hsound.ends (.refl _)

theorem Sound.withRelations (hsound : design.Sound) {relations : List Relation}
    (hrelations : relations.Sublist design.relations) :
    { design with relations := relations }.Sound :=
  hsound.of_sublist hsound.tableIds_nodup hsound.columnIds_nodup hsound.owner
    (fun relation hmem => hsound.ends relation (hrelations.subset hmem)) hrelations

theorem Sound.setInheritance (hsound : design.Sound) (kind : InheritanceKind) :
    (design.setInheritance kind).Sound :=
  hsound.of_sublist hsound.tableIds_nodup hsound.columnIds_nodup hsound.owner hsound.ends (.refl _)

/-- What is left after a table is removed does not refer to it. -/
theorem Sound.withoutTable (hsound : design.Sound) (id : TableId) :
    (design.withoutTable id).Sound := by
  have htables : (design.withoutTable id).tables = design.tables.filter (·.id != id) :=
    eraseP_key_of_nodup hsound.tableIds_nodup id
  have hkept : ∀ other, other ≠ id → design.hasTable other →
      (design.withoutTable id).hasTable other := by
    intro other hne hother
    rcases exists_mem_of_hasTable hother with ⟨table, hmem, rfl⟩
    apply hasTable_of_mem
    rw [htables]
    exact List.mem_filter.mpr ⟨hmem, bne_iff_ne.mpr hne⟩
  apply hsound.of_sublist
  · exact hsound.tableIds_nodup.sublist (List.eraseP_sublist.map _)
  · exact hsound.columnIds_nodup.sublist (List.filter_sublist.map _)
  · intro column hmem
    rcases List.mem_filter.mp hmem with ⟨hmem, hne⟩
    exact hkept _ (bne_iff_ne.mp hne) (hsound.owner column hmem)
  · intro relation hmem
    rcases List.mem_filter.mp hmem with ⟨hmem, huntouched⟩
    have hne : relation.source.table ≠ id ∧ relation.target.table ≠ id := by
      simpa [Relation.touchesTable] using huntouched
    have hends := hsound.ends relation hmem
    exact ⟨hkept _ hne.1 hends.1, hkept _ hne.2 hends.2⟩
  · exact List.filter_sublist

theorem Sound.withoutColumn (hsound : design.Sound) (id : ColumnId) :
    (design.withoutColumn id).Sound :=
  have hcolumns : (design.columns.eraseP (·.id == id)).Sublist design.columns :=
    List.eraseP_sublist
  have hfewer := hsound.withColumns (hsound.columnIds_nodup.sublist (hcolumns.map _))
    (fun column hmem => hsound.owner column (hcolumns.subset hmem))
  hfewer.withRelations List.filter_sublist

/-- A relation between columns is no longer an inheritance relation when its kind is changed, if it
was one before. -/
theorem Sound.withRelationKind (hsound : design.Sound) {kind : RelationKind}
    (hkind : kind ≠ .inheritsFrom) (source target : ColumnId) :
    (design.withRelationKind kind source target).Sound := by
  have hends : ∀ relation ∈ (design.withRelationKind kind source target).relations,
      design.hasTable relation.source.table ∧ design.hasTable relation.target.table := by
    intro relation hmem
    rcases mem_modifyFirst hmem with hkept | ⟨former, hformer, _, rfl⟩
    · exact hsound.ends relation hkept
    · exact hsound.ends former hformer
  refine Sound.of_fewer_relations hsound hsound.tableIds_nodup hsound.columnIds_nodup
    hsound.owner hends ?_ ?_
  · intro otherSource otherTarget
    apply Nat.le_of_eq
    apply countP_modifyFirst
    intro relation _
    rfl
  · intro id
    unfold parents relationsFrom
    simp only [List.filter_filter]
    apply List.Sublist.map
    apply filter_modifyFirst_sublist
    intro relation _
    have hdata : ({ relation with kind := kind } : Relation).isInheritance = false := by
      simpa [Relation.isInheritance] using hkind
    rw [hdata, Bool.false_and]

theorem empty_sound (kind : InheritanceKind) : (empty kind).Sound where
  tableIds_nodup := by simp [tableIds, empty]
  columnIds_nodup := by simp [columnIds, empty]
  owner := by simp [empty]
  ends := by simp [empty]
  joins_le_one := by simp [empty]
  parents_le_one := by simp [empty]
  acyclic := by
    intro id hdescends
    have htable := (Descends.hasTable hdescends).1
    simp [hasTable, table?, empty] at htable

/-! ### One relation more -/

theorem Sound.addInheritance (hsound : design.Sound) {child parent : TableId}
    (hgate : design.checkInheritance child parent = .ok ()) :
    (design.addRelation (.inherits child parent)).Sound := by
  rcases (design.checkInheritance_eq_ok_iff child parent).mp hgate with
    ⟨_, hchild, hparent, hnone, _⟩
  constructor
  case tableIds_nodup => exact hsound.tableIds_nodup
  case columnIds_nodup => exact hsound.columnIds_nodup
  case owner => exact hsound.owner
  case ends =>
    intro relation hmem
    rcases List.mem_append.mp hmem with hmem | hmem
    · exact hsound.ends relation hmem
    · rw [List.mem_singleton.mp hmem]
      exact ⟨hchild, hparent⟩
  case joins_le_one =>
    intro source target
    have hjoins : ¬(Relation.inherits child parent).joins source target := by
      simp [Relation.joins, Relation.inherits]
    rw [addRelation, List.countP_append, List.countP_singleton, if_neg hjoins]
    exact hsound.joins_le_one source target
  case parents_le_one => exact parents_addInheritance_le_one hsound.parents_le_one hnone
  case acyclic =>
    exact acyclic_addRelation hsound.acyclic
      (not_reaches_of_checkInheritance hsound.parents_le_one hgate)

theorem Sound.addData (hsound : design.Sound) {kind : RelationKind} {source target : ColumnId}
    {sourceColumn targetColumn : Column} (hsource : design.column? source = some sourceColumn)
    (htarget : design.column? target = some targetColumn) (hkind : kind ≠ .inheritsFrom)
    (hnew : design.columnRelation? source target = none) :
    (design.addRelation
      (.between kind sourceColumn.table source targetColumn.table target)).Sound := by
  have hdata := Relation.not_isInheritance_between hkind sourceColumn.table source
    targetColumn.table target
  constructor
  case tableIds_nodup => exact hsound.tableIds_nodup
  case columnIds_nodup => exact hsound.columnIds_nodup
  case owner => exact hsound.owner
  case ends =>
    intro relation hmem
    rcases List.mem_append.mp hmem with hmem | hmem
    · exact hsound.ends relation hmem
    · rw [List.mem_singleton.mp hmem]
      exact ⟨hsound.owner sourceColumn (mem_of_column? hsource).1,
        hsound.owner targetColumn (mem_of_column? htarget).1⟩
  case joins_le_one =>
    intro otherSource otherTarget
    rw [addRelation, List.countP_append, List.countP_singleton]
    split
    case isTrue hjoins =>
      have hsame : source = otherSource ∧ target = otherTarget := by
        simpa [Relation.joins, Relation.between] using hjoins
      have hzero : design.relations.countP (·.joins otherSource otherTarget) = 0 := by
        rw [List.countP_eq_zero, ← hsame.1, ← hsame.2]
        exact List.find?_eq_none.mp hnew
      omega
    case isFalse => exact hsound.joins_le_one otherSource otherTarget
  case parents_le_one =>
    intro table hmem
    rw [parents_addRelation_of_data hdata]
    exact hsound.parents_le_one table hmem
  case acyclic => exact acyclic_addRelation_of_data hsound.acyclic hdata

/-! ### Compilation -/

theorem Acyclic.exists_compile (hacyclic : design.Acyclic) (ids : IdSupply)
    (options : CompileOptions) : ∃ compiled, design.compile ids options = .ok compiled := by
  have hsame : (design.withInheritance options.inheritance).Acyclic := by
    apply hacyclic.mono
    intro child parent hinherits
    exact ⟨hinherits.child_hasTable, hinherits.parent_hasTable, hinherits.relation⟩
  rcases Lineage.exists_of_acyclic hsame with ⟨lineage, hlineage⟩
  rw [compile_eq, normalize_eq, hlineage]
  exact ⟨_, rfl⟩

end Design

namespace Edit

variable {design after : Design}

theorem Effect.sound {edit : Edit} {answer : Answer} (heffect : Effect design edit answer after)
    (hsound : design.Sound) : after.Sound := by
  cases heffect with
  | addTable hnew =>
      apply hsound.withTables
      · rw [Design.hasTable_iff] at hnew
        exact nodup_map_append_singleton hsound.tableIds_nodup hnew
      · rw [List.map_append]
        exact List.subset_append_left _ _
  | @updateTable table hfound =>
      have hids : (modifyFirst (·.id == table.id) (fun _ => table) design.tables).map (·.id) =
          design.tableIds := by
        apply map_modifyFirst
        intro former hsame
        exact (eq_of_beq hsame).symm
      apply hsound.withTables
      · rw [hids]
        exact hsound.tableIds_nodup
      · rw [hids]
        exact List.Subset.refl _
  | removeTable => exact hsound.withoutTable _
  | @addColumn column howner hnew =>
      apply hsound.withColumns
      · apply nodup_map_append_singleton hsound.columnIds_nodup
        rw [← Design.columnIds, ← Design.column?_isSome_iff, hnew]
        simp
      · intro other hmem
        rcases List.mem_append.mp hmem with hmem | hmem
        · exact hsound.owner other hmem
        · rw [List.mem_singleton.mp hmem]
          exact howner
  | @updateColumn column former howner hfound =>
      have hids : (modifyFirst (·.id == column.id) (fun _ => column) design.columns).map (·.id) =
          design.columnIds := by
        apply map_modifyFirst
        intro former hsame
        exact (eq_of_beq hsame).symm
      apply hsound.withColumns
      · rw [hids]
        exact hsound.columnIds_nodup
      · intro other hmem
        rcases mem_modifyFirst hmem with hmem | ⟨_, _, _, rfl⟩
        · exact hsound.owner other hmem
        · exact howner
  | removeColumn => exact hsound.withoutColumn _
  | connectTables hgate => exact hsound.addInheritance hgate
  | connectColumns hsource htarget hgate hnew =>
      have hkind := ((design.checkData_eq_ok_iff _ _ _ _ _).mp hgate).2.2.2.2
      exact hsound.addData hsource htarget hkind hnew
  | setRelationKind hkind => exact hsound.withRelationKind hkind _ _
  | disconnectTables => exact hsound.withRelations List.eraseP_sublist
  | disconnectColumns => exact hsound.withRelations List.eraseP_sublist
  | setInheritance => exact hsound.setInheritance _
  | clear => exact Design.empty_sound _

theorem next_sound (hsound : design.Sound) (edit : Edit) : (next design edit).Sound := by
  rcases next_eq_or_effect design edit with hsame | ⟨_, heffect⟩
  · rw [hsame]
    exact hsound
  · exact heffect.sound hsound

theorem run_sound (hsound : design.Sound) (edits : List Edit) : (run design edits).Sound := by
  induction edits generalizing design with
  | nil => exact hsound
  | cons edit edits ih => exact ih (next_sound hsound edit)

/-- Whatever the edits are, the design that they build is sound, and every dialect and inheritance
kind compiles it. -/
theorem run_empty_sound_and_compiles (kind : InheritanceKind) (edits : List Edit) :
    (run (.empty kind) edits).Sound ∧
      ∀ ids options, ∃ compiled,
        (run (.empty kind) edits).compile ids options = .ok compiled := by
  have hsound : (run (.empty kind) edits).Sound := run_sound (Design.empty_sound kind) edits
  constructor
  · exact hsound
  · intro ids options
    exact hsound.acyclic.exists_compile ids options

end Edit

end SchemaDesign
