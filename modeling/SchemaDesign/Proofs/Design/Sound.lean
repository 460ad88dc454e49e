import SchemaDesign.Edit
import SchemaDesign.Proofs.Design.Hierarchy

/-!
# Sound designs

A sound design has distinct ids and a forest of hierarchies, and everything in it belongs to tables
that exist.  A clean design is one without issues.  The two notions differ in the columns at the
ends of data relations, of which soundness says nothing, and in the ids, which may repeat in a clean
design.
-/

open Relation

namespace SchemaDesign

section OneMore

variable {α : Type} {r s : α → α → Prop} {a b : α}
  (hmore : ∀ x y, s x y → r x y ∨ (x = a ∧ y = b)) (hfree : ¬ReflTransGen r b a)

include hmore hfree

/-- With one more step from `a` to `b`, from which no way leads back, one element leads to another
as before or through the new step. -/
theorem transGen_of_one_more {x y : α} (h : TransGen s x y) :
    TransGen r x y ∨ (ReflTransGen r x a ∧ ReflTransGen r b y) := by
  induction h with
  | single hstep =>
      rcases hmore _ _ hstep with hstep | ⟨rfl, rfl⟩
      · exact .inl (.single hstep)
      · exact .inr ⟨.refl, .refl⟩
  | tail _ hstep ih =>
      rcases hmore _ _ hstep with hstep | ⟨rfl, rfl⟩
      · rcases ih with hway | ⟨hto, hfrom⟩
        · exact .inl (hway.tail hstep)
        · exact .inr ⟨hto, hfrom.tail hstep⟩
      · rcases ih with hway | ⟨_, hfrom⟩
        · exact .inr ⟨hway.to_reflTransGen, .refl⟩
        · exact absurd hfrom hfree

theorem not_transGen_of_one_more (hacyclic : ∀ x, ¬TransGen r x x) (x : α) : ¬TransGen s x x := by
  intro hcycle
  rcases transGen_of_one_more hmore hfree hcycle with hcycle | ⟨hto, hfrom⟩
  · exact hacyclic x hcycle
  · exact hfree (hfrom.trans hto)

end OneMore

theorem Relation.not_isInheritance_between {kind : RelationKind} (hkind : kind ≠ .inheritsFrom)
    (sourceTable : TableId) (source : ColumnId) (targetTable : TableId) (target : ColumnId) :
    ¬(Relation.between kind sourceTable source targetTable target).isInheritance := by
  simpa [Relation.isInheritance, Relation.between] using hkind

namespace Design

variable {design other : Design}

/-- The end of a relation names a column, and this column belongs to the table named beside it. -/
def Resolves (design : Design) (endpoint : Endpoint) : Prop :=
  ∃ id column, endpoint.column = some id ∧ design.column? id = some column ∧
    column.table = endpoint.table

theorem Resolves.exists_mem {endpoint : Endpoint} (hresolves : design.Resolves endpoint) :
    ∃ column ∈ design.columns, endpoint.column = some column.id ∧
      column.table = endpoint.table := by
  rcases hresolves with ⟨id, column, hid, hcolumn, htable⟩
  have hfound := mem_of_column? hcolumn
  exact ⟨column, hfound.1, by rw [hid, hfound.2], htable⟩

theorem resolves_of_mem (hnodup : design.columnIds.Nodup) {endpoint : Endpoint} {column : Column}
    (hmem : column ∈ design.columns) (hid : endpoint.column = some column.id)
    (htable : column.table = endpoint.table) : design.Resolves endpoint :=
  ⟨column.id, column, hid, column?_of_mem hnodup hmem, htable⟩

theorem Resolves.of_kept {endpoint : Endpoint} (hresolves : design.Resolves endpoint)
    (hnodup : other.columnIds.Nodup)
    (hkept : ∀ column ∈ design.columns, endpoint.column = some column.id →
      column.table = endpoint.table → column ∈ other.columns) : other.Resolves endpoint := by
  rcases hresolves.exists_mem with ⟨column, hmem, hid, htable⟩
  exact resolves_of_mem hnodup (hkept column hmem hid htable) hid htable

/-- Every data relation leads from a column of its one table to a column of its other table. -/
def Resolved (design : Design) : Prop :=
  ∀ relation ∈ design.relations, ¬relation.isInheritance →
    design.Resolves relation.source ∧ design.Resolves relation.target

structure Sound (design : Design) : Prop where
  tableIds_nodup : design.tableIds.Nodup
  columnIds_nodup : design.columnIds.Nodup
  owner : ∀ column ∈ design.columns, design.hasTable column.table
  ends : ∀ relation ∈ design.relations,
    design.hasTable relation.source.table ∧ design.hasTable relation.target.table
  /-- No two relations lead from one column to the same other one. -/
  joins_le_one : ∀ source target, design.relations.countP (·.joins source target) ≤ 1
  parents_le_one : ∀ table ∈ design.tables, (design.parents table.id).length ≤ 1
  acyclic : design.Acyclic

/-- What it means that a design has no issue. -/
structure Clean (design : Design) : Prop where
  parents_le_one : ∀ table ∈ design.tables, (design.parents table.id).length ≤ 1
  acyclic : design.Acyclic
  owner : ∀ column ∈ design.columns, design.hasTable column.table
  ends : ∀ relation ∈ design.relations,
    design.hasTable relation.source.table ∧ design.hasTable relation.target.table
  resolved : design.Resolved

/-! ### Issues -/

theorem multipleInheritanceIssues_eq_nil_iff (design : Design) :
    design.multipleInheritanceIssues = [] ↔
      ∀ table ∈ design.tables, (design.parents table.id).length ≤ 1 := by
  rw [multipleInheritanceIssues, List.filterMap_eq_nil_iff]
  apply forall₂_congr
  intro table _
  simp only [ite_eq_right_iff, reduceCtorEq, imp_false, Nat.not_lt]

theorem columnIssues_eq_nil_iff (design : Design) :
    design.columnIssues = [] ↔ ∀ column ∈ design.columns, design.hasTable column.table := by
  simp [columnIssues]

theorem missingTable_eq_nil_iff (design : Design) (endpoint : Endpoint) :
    design.missingTable endpoint = [] ↔ design.hasTable endpoint.table := by
  simp [missingTable]

theorem missingColumn_eq_nil_iff (design : Design) (endpoint : Endpoint) :
    design.missingColumn endpoint = [] ↔ design.Resolves endpoint := by
  unfold missingColumn Resolves
  cases hid : endpoint.column with
  | none => simp
  | some id =>
      cases hcolumn : design.column? id with
      | none => simp [hcolumn]
      | some column => simp [hcolumn]

theorem mem_missingTable {endpoint : Endpoint} {missing : Missing}
    (hmissing : missing ∈ design.missingTable endpoint) : missing = .table endpoint.table := by
  rw [missingTable] at hmissing
  split at hmissing
  case isTrue => simp at hmissing
  case isFalse => exact List.mem_singleton.mp hmissing

theorem mem_missingColumn {endpoint : Endpoint} {id : ColumnId} {missing : Missing}
    (hid : endpoint.column = some id) (hmissing : missing ∈ design.missingColumn endpoint) :
    (missing = .column id ∧ design.column? id = none) ∨ missing = .columnOn id endpoint.table := by
  rw [missingColumn, hid] at hmissing
  cases hcolumn : design.column? id with
  | none =>
      simp only [hcolumn, List.mem_singleton] at hmissing
      exact .inl ⟨hmissing, rfl⟩
  | some column =>
      simp only [hcolumn] at hmissing
      split at hmissing
      case isTrue => simp at hmissing
      case isFalse => exact .inr (List.mem_singleton.mp hmissing)

theorem relationIssues_eq_nil_iff (design : Design) (relation : Relation) :
    design.relationIssues relation = [] ↔
      (design.hasTable relation.source.table ∧ design.hasTable relation.target.table) ∧
        (¬relation.isInheritance →
          design.Resolves relation.source ∧ design.Resolves relation.target) := by
  rw [relationIssues, List.map_eq_nil_iff, List.append_eq_nil_iff, List.append_eq_nil_iff,
    missingTable_eq_nil_iff, missingTable_eq_nil_iff]
  by_cases hkind : relation.isInheritance
  · simp [hkind]
  · simp [hkind, missingColumn_eq_nil_iff]

theorem issues_eq_nil_iff (design : Design) : design.issues = [] ↔ design.Clean := by
  rw [issues, List.append_eq_nil_iff, List.append_eq_nil_iff, List.append_eq_nil_iff,
    multipleInheritanceIssues_eq_nil_iff, cycleIssues_eq_nil_iff, columnIssues_eq_nil_iff,
    List.flatMap_eq_nil_iff]
  simp only [relationIssues_eq_nil_iff]
  constructor
  · rintro ⟨⟨⟨hparents, hacyclic⟩, howner⟩, hrelations⟩
    exact ⟨hparents, hacyclic, howner, fun relation hmem => (hrelations relation hmem).1,
      fun relation hmem => (hrelations relation hmem).2⟩
  · intro hclean
    exact ⟨⟨⟨hclean.parents_le_one, hclean.acyclic⟩, hclean.owner⟩, fun relation hmem =>
      ⟨hclean.ends relation hmem, hclean.resolved relation hmem⟩⟩

/-- Where the hierarchies and the owners are in order, all issues are at relations. -/
theorem mem_relationIssues_of_mem_issues
    (hparents : ∀ table ∈ design.tables, (design.parents table.id).length ≤ 1)
    (hacyclic : design.Acyclic) (howner : ∀ column ∈ design.columns, design.hasTable column.table)
    {issue : Issue} (hissue : issue ∈ design.issues) :
    ∃ relation ∈ design.relations, issue ∈ design.relationIssues relation := by
  rw [issues, (multipleInheritanceIssues_eq_nil_iff design).mpr hparents,
    (cycleIssues_eq_nil_iff design).mpr hacyclic,
    (columnIssues_eq_nil_iff design).mpr howner] at hissue
  exact List.mem_flatMap.mp hissue

/-! ### Hierarchies -/

theorem Acyclic.mono (hacyclic : design.Acyclic)
    (h : ∀ child parent, other.Inherits child parent → design.Inherits child parent) :
    other.Acyclic :=
  fun id hdescends => hacyclic id (TransGen.mono h id id hdescends)

/-- Where a table has one parent at most, the parent is that of the first relation. -/
theorem parentOf?_eq_some_of_mem {child parent : TableId}
    (hle : (design.parents child).length ≤ 1) (hmem : parent ∈ design.parents child) :
    design.parentOf? child = some parent := by
  rw [parentOf?_eq_head?]
  match hparents : design.parents child with
  | [] => simp [hparents] at hmem
  | [only] => simpa [hparents, eq_comm] using hmem
  | _ :: _ :: _ => simp [hparents] at hle

theorem parents_addRelation (design : Design) (relation : Relation) (id : TableId) :
    (design.addRelation relation).parents id =
      design.parents id ++
        if relation.source.table = id ∧ relation.isInheritance then [relation.target.table]
        else [] := by
  simp only [parents, relationsFrom, addRelation, List.filter_append, List.map_append]
  congr 1
  by_cases hsource : relation.source.table = id
  · by_cases hkind : relation.isInheritance
    · simp [hsource, hkind]
    · simp [hsource, hkind]
  · simp [hsource]

theorem inherits_addRelation_iff (design : Design) (relation : Relation)
    (child parent : TableId) :
    (design.addRelation relation).Inherits child parent ↔
      design.Inherits child parent ∨
        ((design.hasTable child ∧ design.hasTable parent) ∧ relation.isInheritance ∧
          relation.source.table = child ∧ relation.target.table = parent) := by
  constructor
  · rintro ⟨hchild, hparent, found, hmem, hfound⟩
    rcases List.mem_append.mp hmem with hmem | hmem
    · exact .inl ⟨hchild, hparent, found, hmem, hfound⟩
    · rw [List.mem_singleton] at hmem
      exact .inr ⟨⟨hchild, hparent⟩, hmem ▸ hfound⟩
  · rintro (⟨hchild, hparent, found, hmem, hfound⟩ | ⟨⟨hchild, hparent⟩, hfound⟩)
    · exact ⟨hchild, hparent, found, List.mem_append_left _ hmem, hfound⟩
    · exact ⟨hchild, hparent, relation, List.mem_append_right _ (by simp), hfound⟩

/-- A data relation changes nothing about the hierarchies. -/
theorem parents_addRelation_of_data {relation : Relation} (hdata : ¬relation.isInheritance)
    (id : TableId) : (design.addRelation relation).parents id = design.parents id := by
  rw [parents_addRelation, if_neg fun h => hdata h.2, List.append_nil]

theorem acyclic_addRelation_of_data (hacyclic : design.Acyclic) {relation : Relation}
    (hdata : ¬relation.isInheritance) : (design.addRelation relation).Acyclic := by
  apply hacyclic.mono
  intro child parent hinherits
  rcases (design.inherits_addRelation_iff _ child parent).mp hinherits with h | ⟨_, h, _⟩
  · exact h
  · exact absurd h hdata

/-- A design stays acyclic with an inheritance relation to a table that does not descend from the
child. -/
theorem acyclic_addRelation {child parent : TableId} (hacyclic : design.Acyclic)
    (hfree : ¬ReflTransGen design.Inherits parent child) :
    (design.addRelation (.inherits child parent)).Acyclic := by
  apply not_transGen_of_one_more _ hfree hacyclic
  intro a b hstep
  rcases (design.inherits_addRelation_iff _ _ _).mp hstep with hstep | ⟨_, _, hchild, hparent⟩
  · exact .inl hstep
  · exact .inr ⟨hchild.symm, hparent.symm⟩

end Design

end SchemaDesign
