import SchemaDesign.Proofs.Graph.Walk
import SchemaDesign.Proofs.Design.Sound

/-!
# What the gates let pass

The gate for inheritance walks along first parents.  Where tables have single parents these are all
inheritance relations there are, so a relation that passes leads to a table that does not descend
from its child, and closes no cycle.

On a clean design this gate and the issues agree: it passes exactly the relations with which the
design stays clean.  The gate for data relations takes the tables at the ends on trust, so a
relation that passes keeps a design clean only where each column is on the table named beside it.
-/

open Relation

namespace SchemaDesign.Design

variable {design : Design}

theorem checkInheritance_eq_ok_iff (design : Design) (child parent : TableId) :
    design.checkInheritance child parent = .ok () ↔
      child ≠ parent ∧ design.hasTable child ∧ design.hasTable parent ∧
        design.parentOf? child = none ∧
        (design.parentSteps.walk [child] parent).isFinite := by
  unfold checkInheritance hasTable
  by_cases hsame : child = parent
  · simp [hsame]
  · cases hchild : design.table? child with
    | none => simp [hsame]
    | some childTable =>
        cases hparent : design.table? parent with
        | none => simp [hsame]
        | some parentTable =>
            cases hold : design.parentOf? child with
            | some former => simp [hsame]
            | none => simp [hsame]

theorem checkData_eq_ok_iff (design : Design) (kind : RelationKind) (sourceTable : TableId)
    (source : ColumnId) (targetTable : TableId) (target : ColumnId) :
    design.checkData kind sourceTable source targetTable target = .ok () ↔
      sourceTable ≠ targetTable ∧ source ≠ target ∧
        (∃ column, design.column? source = some column ∧ column.isPrimaryKey) ∧
        (∃ column, design.column? target = some column ∧
          (column.isPrimaryKey ∨ column.isForeignKey)) ∧
        kind ≠ .inheritsFrom := by
  unfold checkData
  by_cases htable : sourceTable = targetTable
  · simp [htable]
  · by_cases hcolumn : source = target
    · simp [htable, hcolumn]
    · cases hsource : design.column? source with
      | none => simp [htable, hcolumn]
      | some sourceColumn =>
          cases htarget : design.column? target with
          | none => simp [htable, hcolumn]
          | some targetColumn =>
              by_cases hkey : sourceColumn.isPrimaryKey
              · by_cases htargetKey : targetColumn.isPrimaryKey ∨ targetColumn.isForeignKey
                · have hneither :
                      (!targetColumn.isPrimaryKey && !targetColumn.isForeignKey) = false := by
                    rcases htargetKey with h | h <;> simp [h]
                  simp [htable, hcolumn, hkey, htargetKey, hneither]
                · simp only [not_or, Bool.not_eq_true] at htargetKey
                  simp [htable, hcolumn, hkey, htargetKey]
              · simp [htable, hcolumn, hkey]

theorem leads_parentSteps_of_inherits {child parent : TableId}
    (hle : (design.parents child).length ≤ 1) (h : design.Inherits child parent) :
    design.parentSteps.Leads child parent :=
  parentOf?_eq_some_of_mem hle ((design.mem_parents_iff child parent).mpr h.relation)

/-- The gate is passed only by relations to a table that does not descend from the child. -/
theorem not_reaches_of_checkInheritance {child parent : TableId}
    (hparents : ∀ table ∈ design.tables, (design.parents table.id).length ≤ 1)
    (hgate : design.checkInheritance child parent = .ok ()) :
    ¬ReflTransGen design.Inherits parent child := by
  rcases (design.checkInheritance_eq_ok_iff child parent).mp hgate with ⟨_, _, _, _, hfinite⟩
  intro hreach
  have hleads : ReflTransGen design.parentSteps.Leads parent child := by
    refine ReflTransGen.mono ?_ _ _ hreach
    intro a b hab
    rcases exists_mem_of_hasTable hab.child_hasTable with ⟨table, htable, rfl⟩
    exact leads_parentSteps_of_inherits (hparents table htable) hab
  have hwalk := (design.parentSteps.walk_isFinite_iff [child] parent).mp hfinite child hleads
  exact hwalk.1 (by simp)

/-! ### The gate and the issues -/

theorem inherits_of_leads_parentSteps (hclean : design.Clean) {child parent : TableId}
    (h : design.parentSteps.Leads child parent) : design.Inherits child parent := by
  have hmem := mem_parents_of_parentOf? h
  obtain ⟨relation, hrelation, _, hsource, htarget⟩ := (design.mem_parents_iff child parent).mp hmem
  have hends := hclean.ends relation hrelation
  exact .of_mem_parents (hsource ▸ hends.1) (htarget ▸ hends.2) hmem

/-- A table without a parent gets a single one. -/
theorem parents_addInheritance_le_one
    (hparents : ∀ table ∈ design.tables, (design.parents table.id).length ≤ 1)
    {child parent : TableId} (hnone : design.parentOf? child = none) :
    ∀ table ∈ design.tables,
      ((design.addRelation (.inherits child parent)).parents table.id).length ≤ 1 := by
  intro table hmem
  rw [parents_addRelation]
  split
  case isTrue hsame =>
    have hempty : design.parents table.id = [] := by
      rw [← hsame.1, ← List.head?_eq_none_iff, ← parentOf?_eq_head?]
      exact hnone
    simp [hempty]
  case isFalse => simpa using hparents table hmem

theorem Clean.addInheritance (hclean : design.Clean) {child parent : TableId}
    (hgate : design.checkInheritance child parent = .ok ()) :
    (design.addRelation (.inherits child parent)).Clean := by
  obtain ⟨_, hchild, hparent, hnone, _⟩ := (design.checkInheritance_eq_ok_iff child parent).mp hgate
  constructor
  case parents_le_one => exact parents_addInheritance_le_one hclean.parents_le_one hnone
  case acyclic =>
    exact acyclic_addRelation hclean.acyclic
      (not_reaches_of_checkInheritance hclean.parents_le_one hgate)
  case owner => exact hclean.owner
  case ends =>
    intro relation hmem
    rcases List.mem_append.mp hmem with hmem | hmem
    · exact hclean.ends relation hmem
    · rw [List.mem_singleton.mp hmem]
      exact ⟨hchild, hparent⟩
  case resolved =>
    intro relation hmem hdata
    rcases List.mem_append.mp hmem with hmem | hmem
    · exact hclean.resolved relation hmem hdata
    · rw [List.mem_singleton.mp hmem] at hdata
      exact absurd rfl hdata

/-- The walk of the gate meets only descents that the design already has, so a relation that stays
clean is passed. -/
theorem Clean.checkInheritance (hclean : design.Clean) {child parent : TableId}
    (hadded : (design.addRelation (.inherits child parent)).Clean) :
    design.checkInheritance child parent = .ok () := by
  have hlast : Relation.inherits child parent ∈
      (design.addRelation (.inherits child parent)).relations :=
    List.mem_append_right _ (List.mem_singleton_self _)
  obtain ⟨hchild, hparent⟩ := hadded.ends _ hlast
  have hnew : (design.addRelation (.inherits child parent)).Inherits child parent :=
    ⟨hchild, hparent, _, hlast, rfl, rfl, rfl⟩
  have hold : ∀ a b, design.Inherits a b →
      (design.addRelation (.inherits child parent)).Inherits a b :=
    fun a b h => (inherits_addRelation_iff design _ a b).mpr (.inl h)
  rw [checkInheritance_eq_ok_iff]
  refine ⟨?_, hchild, hparent, ?_, ?_⟩
  · rintro rfl
    exact hadded.acyclic child (.single hnew)
  · obtain ⟨table, hmem, hid⟩ : ∃ table ∈ design.tables, table.id = child :=
      exists_mem_of_hasTable hchild
    have hle := hadded.parents_le_one table hmem
    rw [hid, parents_addRelation, if_pos ⟨rfl, rfl⟩] at hle
    have hempty : design.parents child = [] := by
      simpa using hle
    rw [parentOf?_eq_head?, hempty, List.head?_nil]
  · rw [Steps.walk_isFinite_iff]
    intro x hreach
    have hdescent : ReflTransGen design.Inherits parent x :=
      ReflTransGen.mono (fun _ _ h => inherits_of_leads_parentSteps hclean h) _ _ hreach
    constructor
    · intro hmem
      rw [List.mem_singleton.mp hmem] at hdescent
      have hback := ReflTransGen.mono hold _ _ hdescent
      exact hadded.acyclic child (.head' hnew hback)
    · intro hcycle
      exact hclean.acyclic x
        (TransGen.mono (fun _ _ h => inherits_of_leads_parentSteps hclean h) _ _ hcycle)

/-- On a clean design the gate for inheritance passes exactly the relations that raise no issue,
also between tables that are unknown or the same. -/
theorem checkInheritance_eq_ok_iff_issues_addRelation_eq_nil (hissues : design.issues = [])
    (child parent : TableId) :
    design.checkInheritance child parent = .ok () ↔
      (design.addRelation (.inherits child parent)).issues = [] := by
  have hclean := design.issues_eq_nil_iff.mp hissues
  rw [issues_eq_nil_iff]
  exact ⟨hclean.addInheritance, hclean.checkInheritance⟩

/-- Two tables below each other under a third one, and a table beside them. -/
def ladder : Design where
  tables := ["top", "middle", "bottom", "other"].map fun name => Table.create name name
  columns := []
  relations := [.inherits "middle" "top", .inherits "bottom" "middle"]
  inheritance := .classTable

theorem checkInheritance_on_ladder :
    ladder.issues = [] ∧
      ladder.checkInheritance "other" "bottom" = .ok () ∧
      ladder.checkInheritance "top" "bottom" ≠ .ok () ∧
      ladder.checkInheritance "bottom" "other" ≠ .ok () := by
  have hissues : ladder.issues = [] := rfl
  have hgate := checkInheritance_eq_ok_iff_issues_addRelation_eq_nil hissues
  refine ⟨hissues, (hgate "other" "bottom").mpr rfl, ?_, ?_⟩
  · intro hok
    have hcycle := (hgate "top" "bottom").mp hok
    exact absurd (congrArg List.length hcycle) (by decide)
  · intro hok
    have hparents := (hgate "bottom" "other").mp hok
    exact absurd (congrArg List.length hparents) (by decide)

/-! ### Data relations

The gate for data relations looks the two columns up and compares the ids that it is given.  It
does not look the tables up, nor who owns the columns: that is left to the caller, and edits pass
the owners.
-/

theorem Clean.issues_addRelation_of_data (hclean : design.Clean) {relation : Relation}
    (hdata : ¬relation.isInheritance) :
    (design.addRelation relation).issues = design.relationIssues relation := by
  have hparents : (design.addRelation relation).multipleInheritanceIssues = [] := by
    rw [multipleInheritanceIssues_eq_nil_iff]
    intro table hmem
    rw [parents_addRelation_of_data hdata]
    exact hclean.parents_le_one table hmem
  have hcycles : (design.addRelation relation).cycleIssues = [] :=
    (cycleIssues_eq_nil_iff _).mpr (acyclic_addRelation_of_data hclean.acyclic hdata)
  have hcolumns : (design.addRelation relation).columnIssues = [] :=
    (columnIssues_eq_nil_iff _).mpr hclean.owner
  have hformer : design.relations.flatMap design.relationIssues = [] := by
    rw [List.flatMap_eq_nil_iff]
    intro former hmem
    rw [relationIssues_eq_nil_iff]
    exact ⟨hclean.ends former hmem, hclean.resolved former hmem⟩
  have hsame : (design.addRelation relation).relationIssues = design.relationIssues := rfl
  rw [issues, hparents, hcycles, hcolumns, hsame, addRelation, List.flatMap_append, hformer,
    List.flatMap_singleton]
  rfl

theorem resolves_some_iff (design : Design) (table : TableId) (id : ColumnId) :
    design.Resolves ⟨table, some id⟩ ↔
      ∃ column, design.column? id = some column ∧ column.table = table := by
  constructor
  · rintro ⟨_, column, hid, hcolumn, htable⟩
    exact ⟨column, Option.some.inj hid ▸ hcolumn, htable⟩
  · rintro ⟨column, hcolumn, htable⟩
    exact ⟨id, column, rfl, hcolumn, htable⟩

theorem Clean.hasTable_of_resolves (hclean : design.Clean) {endpoint : Endpoint}
    (hresolves : design.Resolves endpoint) : design.hasTable endpoint.table := by
  obtain ⟨_, column, _, hcolumn, htable⟩ := hresolves
  rw [← htable]
  exact hclean.owner column (mem_of_column? hcolumn).1

/-- The issues of a data relation whose columns are both known name a table at one of its ends, or a
column that is not on the table beside it. -/
theorem mem_relationIssues_between {kind : RelationKind} {sourceTable targetTable : TableId}
    {source target : ColumnId} (hsource : design.column? source ≠ none)
    (htarget : design.column? target ≠ none) {issue : Issue}
    (hissue : issue ∈
      design.relationIssues (.between kind sourceTable source targetTable target)) :
    ∃ missing ∈ [Missing.table sourceTable, .table targetTable, .columnOn source sourceTable,
        .columnOn target targetTable],
      issue = .danglingRelation (.between kind sourceTable source targetTable target) missing := by
  have hcolumn : ∀ table id missing, design.column? id ≠ none →
      missing ∈ design.missingColumn ⟨table, some id⟩ → missing = .columnOn id table := by
    intro table id missing hknown hmissing
    rcases mem_missingColumn rfl hmissing with ⟨_, hnone⟩ | hmissing
    · exact absurd hnone hknown
    · exact hmissing
  obtain ⟨missing, hmissing, rfl⟩ := List.mem_map.mp hissue
  refine ⟨missing, ?_, rfl⟩
  rcases List.mem_append.mp hmissing with htables | hcolumns
  · rcases List.mem_append.mp htables with hmissing | hmissing
    · simp [mem_missingTable hmissing, Relation.between]
    · simp [mem_missingTable hmissing, Relation.between]
  · split at hcolumns
    case isTrue => simp at hcolumns
    case isFalse =>
      rcases List.mem_append.mp hcolumns with hmissing | hmissing
      · simp [hcolumn _ _ _ hsource hmissing]
      · simp [hcolumn _ _ _ htarget hmissing]

/-- A data relation that the gate passes for a clean design raises no issue where each column is on
the table named beside it, and otherwise only issues about its own ends. -/
theorem issues_of_accepted_data_relations (hissues : design.issues = []) {kind : RelationKind}
    {sourceTable targetTable : TableId} {source target : ColumnId}
    (hgate : design.checkData kind sourceTable source targetTable target = .ok ()) :
    ((design.addRelation (.between kind sourceTable source targetTable target)).issues = [] ↔
      (∃ column, design.column? source = some column ∧ column.table = sourceTable) ∧
        ∃ column, design.column? target = some column ∧ column.table = targetTable) ∧
    ∀ issue ∈ (design.addRelation
        (.between kind sourceTable source targetTable target)).issues,
      ∃ missing ∈ [Missing.table sourceTable, .table targetTable, .columnOn source sourceTable,
          .columnOn target targetTable],
        issue = .danglingRelation (.between kind sourceTable source targetTable target) missing := by
  have hclean := design.issues_eq_nil_iff.mp hissues
  obtain ⟨_, _, ⟨sourceColumn, hsource, _⟩, ⟨targetColumn, htarget, _⟩, hkind⟩ :=
    (design.checkData_eq_ok_iff _ _ _ _ _).mp hgate
  have hdata := Relation.not_isInheritance_between hkind sourceTable source targetTable target
  rw [hclean.issues_addRelation_of_data hdata]
  constructor
  · rw [relationIssues_eq_nil_iff, ← resolves_some_iff, ← resolves_some_iff]
    constructor
    · rintro ⟨_, hends⟩
      exact hends hdata
    · rintro hends
      exact ⟨⟨hclean.hasTable_of_resolves hends.1, hclean.hasTable_of_resolves hends.2⟩,
        fun _ => hends⟩
  · intro issue hissue
    exact mem_relationIssues_between (by simp [hsource]) (by simp [htarget]) hissue

/-- Customers with a key, and orders with a reference to it. -/
def shop : Design where
  tables := [.create "customer" "Customer", .create "order" "Order"]
  columns :=
    [(Column.create "customer.id" "customer" "id" "INT").primaryKey,
      (Column.create "order.customer" "order" "customer_id" "INT").foreignKey]
  relations := []
  inheritance := .classTable

theorem issues_of_relations_in_shop :
    shop.issues = [] ∧
      shop.checkData .oneToMany "customer" "customer.id" "order" "order.customer" = .ok () ∧
      shop.checkData .oneToMany "order" "customer.id" "customer" "order.customer" = .ok () ∧
      (shop.addRelation
        (.between .oneToMany "customer" "customer.id" "order" "order.customer")).issues = [] ∧
      (shop.addRelation
        (.between .oneToMany "order" "customer.id" "customer" "order.customer")).issues ≠ [] := by
  have hissues : shop.issues = [] := rfl
  have hright : shop.checkData .oneToMany "customer" "customer.id" "order" "order.customer" =
      .ok () := rfl
  have hswapped : shop.checkData .oneToMany "order" "customer.id" "customer" "order.customer" =
      .ok () := rfl
  refine ⟨hissues, hright, hswapped, ?_, ?_⟩
  · exact (issues_of_accepted_data_relations hissues hright).1.mpr ⟨⟨_, rfl, rfl⟩, ⟨_, rfl, rfl⟩⟩
  · intro hnone
    obtain ⟨⟨column, hcolumn, htable⟩, _⟩ :=
      (issues_of_accepted_data_relations hissues hswapped).1.mp hnone
    cases hcolumn
    exact absurd htable (by decide)

/-- The gate passes a relation between columns that are on other tables than it names. -/
theorem accepted_data_relations_raise_issues :
    ¬∀ (design : Design) (kind : RelationKind) (sourceTable targetTable : TableId)
        (source target : ColumnId), design.issues = [] →
      design.checkData kind sourceTable source targetTable target = .ok () →
      (design.addRelation
        (.between kind sourceTable source targetTable target)).issues = [] := by
  intro hsound
  have hissues : shop.issues = [] := rfl
  have hgate : shop.checkData .oneToMany "order" "customer.id" "customer" "order.customer" =
      .ok () := rfl
  have hnone := hsound shop .oneToMany "order" "customer" "customer.id" "order.customer" hissues
    hgate
  exact absurd (congrArg List.length hnone) (by decide)

end SchemaDesign.Design
