import SchemaDesign.Mapping.Normalize
import SchemaDesign.Proofs.Design.Sound
import SchemaDesign.Proofs.Mapping.Fresh

/-!
# Settled designs

Between the steps of normalization the inheritance relations do not matter any more, and a data
relation may lead to a table that a step took away.  Everything else is in order in a settled
design: ids are distinct, columns belong to tables, and data relations lead to columns.
-/

namespace SchemaDesign.Design

variable {design other : Design} {lost : List TableId}

/-- The end of a relation resolves, unless it is at a table that is lost. -/
def Anchored (lost : List TableId) (design : Design) (endpoint : Endpoint) : Prop :=
  endpoint.table ∈ lost ∨ design.Resolves endpoint

theorem Anchored.of_subset {endpoint : Endpoint} (hanchored : design.Anchored lost endpoint)
    (hnodup : other.columnIds.Nodup) (hcolumns : design.columns ⊆ other.columns) :
    other.Anchored lost endpoint := by
  rcases hanchored with hlost | hresolves
  · exact .inl hlost
  · exact .inr (hresolves.of_kept hnodup fun column hmem _ _ => hcolumns hmem)

structure Settled (lost : List TableId) (design : Design) : Prop where
  tableIds_nodup : design.tableIds.Nodup
  columnIds_nodup : design.columnIds.Nodup
  owner : ∀ column ∈ design.columns, design.hasTable column.table
  ends : ∀ relation ∈ design.relations, ¬relation.isInheritance →
    design.Anchored lost relation.source ∧ design.Anchored lost relation.target

/-- The design has no inheritance relation. -/
def IsPlain (design : Design) : Prop :=
  ∀ relation ∈ design.relations, ¬relation.isInheritance

theorem Clean.settled (hclean : design.Clean) (htables : design.tableIds.Nodup)
    (hcolumns : design.columnIds.Nodup) : design.Settled [] where
  tableIds_nodup := htables
  columnIds_nodup := hcolumns
  owner := hclean.owner
  ends := by
    intro relation hmem hdata
    exact (hclean.resolved relation hmem hdata).imp .inr .inr

theorem dropInheritance_isPlain (design : Design) : design.dropInheritance.IsPlain := by
  intro relation hmem
  simpa using (List.mem_filter.mp hmem).2

theorem Settled.dropInheritance (hsettled : design.Settled lost) :
    design.dropInheritance.Settled lost where
  tableIds_nodup := hsettled.tableIds_nodup
  columnIds_nodup := hsettled.columnIds_nodup
  owner := hsettled.owner
  ends := fun relation hmem => hsettled.ends relation (List.mem_of_mem_filter hmem)

/-- What the mapping of an inheritance kind makes of a design: tables may go, and new columns take
their ids from a supply. -/
structure Maps (ids : IdSupply) (lost : List TableId) (design after : Design) : Prop where
  settled : after.Settled lost
  gone : ∀ id ∈ lost, ¬after.hasTable id
  tables : after.tableIds ⊆ design.tableIds
  columns : ∀ id ∈ after.columnIds, id ∈ design.columnIds ∨ ∃ position, ids position = id

theorem Maps.dropInheritance {ids : IdSupply} (hmaps : Maps ids lost design other) :
    Maps ids lost design other.dropInheritance where
  settled := hmaps.settled.dropInheritance
  gone := hmaps.gone
  tables := hmaps.tables
  columns := hmaps.columns

/-! ### Issues -/

theorem Settled.missing_eq_nil (hsettled : design.Settled lost) {endpoint : Endpoint}
    (hanchored : design.Anchored lost endpoint) (hkept : endpoint.table ∉ lost) :
    design.missingTable endpoint = [] ∧ design.missingColumn endpoint = [] := by
  have hresolves : design.Resolves endpoint := hanchored.resolve_left hkept
  constructor
  · rcases hresolves.exists_mem with ⟨column, hmem, _, htable⟩
    rw [missingTable_eq_nil_iff, ← htable]
    exact hsettled.owner column hmem
  · exact (missingColumn_eq_nil_iff design endpoint).mpr hresolves

theorem IsPlain.parents_eq_nil (hplain : design.IsPlain) (id : TableId) :
    design.parents id = [] := by
  rw [List.eq_nil_iff_forall_not_mem]
  intro parent hparent
  rcases (design.mem_parents_iff id parent).mp hparent with ⟨relation, hmem, hkind, _⟩
  exact hplain relation hmem hkind

theorem IsPlain.acyclic (hplain : design.IsPlain) : design.Acyclic := by
  intro id hdescends
  have hstep : ∀ child parent, ¬design.Inherits child parent := by
    intro child parent hinherits
    rcases hinherits.relation with ⟨relation, hmem, hkind, _⟩
    exact hplain relation hmem hkind
  cases hdescends with
  | single hinherits => exact hstep _ _ hinherits
  | tail _ hinherits => exact hstep _ _ hinherits

/-- All issues of a settled design without inheritance are at lost tables. -/
theorem Settled.mem_issues (hsettled : design.Settled lost) (hplain : design.IsPlain)
    {issue : Issue} (hissue : issue ∈ design.issues) :
    ∃ relation ∈ design.relations, ∃ missing, issue = .danglingRelation relation missing ∧
      (relation.source.table ∈ lost ∨ relation.target.table ∈ lost) := by
  have hparents : ∀ table ∈ design.tables, (design.parents table.id).length ≤ 1 := by
    intro table _
    simp [hplain.parents_eq_nil]
  rcases mem_relationIssues_of_mem_issues hparents hplain.acyclic hsettled.owner hissue with
    ⟨relation, hmem, hissue⟩
  rcases List.mem_map.mp hissue with ⟨missing, hmissing, rfl⟩
  refine ⟨relation, hmem, missing, rfl, ?_⟩
  by_contra hkept
  have hkept := not_or.mp hkept
  have hends := hsettled.ends relation hmem (hplain relation hmem)
  have hsource := hsettled.missing_eq_nil hends.1 hkept.1
  have htarget := hsettled.missing_eq_nil hends.2 hkept.2
  simp [hsource, htarget] at hmissing

end SchemaDesign.Design
