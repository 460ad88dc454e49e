import SchemaDesign.Proofs.Sql.Delimited

/-!
# Primary keys

The primary key of a table is declared once.  A key of one column is a mark on this column, a key of
several columns is a clause that comes before all foreign keys, and a table without key columns has
neither.  Where a dialect puts its foreign keys makes no difference to this, nor to the columns.

A statement is written for every table, after the preamble of the dialect.  Empty statements would
be left out, but only a preamble can be empty.
-/

namespace SchemaDesign

namespace Sql

def Constraint.keyColumns? : Constraint → Option (List String)
  | .primaryKey columns => some columns
  | .foreignKey .. => none

namespace CreateTable

variable {table : CreateTable} {key key' : List String}

def markedNames (table : CreateTable) : List String :=
  (table.columns.filter (·.isPrimaryKey)).map (·.name)

/-- The ways to declare a primary key; a table without one declares the empty key. -/
inductive DeclaresKey (table : CreateTable) : List String → Prop where
  | absent (unmarked : table.markedNames = [])
      (noClause : ∀ constraint ∈ table.constraints, constraint.keyColumns? = none) :
      DeclaresKey table []
  | mark {name : String} (marked : table.markedNames = [name])
      (noClause : ∀ constraint ∈ table.constraints, constraint.keyColumns? = none) :
      DeclaresKey table [name]
  | clause {names : List String} {others : List Constraint} (several : 2 ≤ names.length)
      (unmarked : table.markedNames = []) (first : table.constraints = .primaryKey names :: others)
      (noOther : ∀ constraint ∈ others, constraint.keyColumns? = none) :
      DeclaresKey table names

/-- The names on the marked columns and those in the clauses. -/
def declaredNames (table : CreateTable) : List String :=
  table.markedNames ++ (table.constraints.filterMap (·.keyColumns?)).flatten

theorem DeclaresKey.eq_declaredNames (h : table.DeclaresKey key) : key = table.declaredNames := by
  cases h with
  | absent unmarked noClause =>
      rw [declaredNames, unmarked, List.filterMap_eq_nil_iff.mpr noClause]
      rfl
  | mark marked noClause =>
      rw [declaredNames, marked, List.filterMap_eq_nil_iff.mpr noClause]
      rfl
  | clause several unmarked first noOther =>
      have hclauses : table.constraints.filterMap (·.keyColumns?) = [key] := by
        rw [first, List.filterMap_cons, List.filterMap_eq_nil_iff.mpr noOther]
        rfl
      rw [declaredNames, unmarked, hclauses]
      simp

theorem DeclaresKey.unique (h : table.DeclaresKey key) (h' : table.DeclaresKey key') :
    key = key' :=
  h.eq_declaredNames.trans h'.eq_declaredNames.symm

theorem text_ne_empty (dialect : Dialect) (table : CreateTable) : table.text dialect ≠ "" := by
  obtain ⟨after, htext⟩ := exists_text_eq dialect table
  intro hempty
  rw [htext] at hempty
  have hlists := congrArg String.toList hempty
  simp at hlists

end CreateTable

end Sql

open Sql

namespace Design

variable {design : Design} {table : Table} {place : ForeignKeyPlace}

/-! ### Keys of definitions -/

theorem keyColumns?_of_mem_foreignKeyClauses {constraint : Constraint}
    (hmem : constraint ∈ design.foreignKeyClauses place table) : constraint.keyColumns? = none := by
  have hclauses : ∀ make : String → Reference → Constraint,
      (∀ name references, (make name references).keyColumns? = none) →
      constraint ∈ design.referenceClauses make table → constraint.keyColumns? = none := by
    intro make hmake hmade
    obtain ⟨relation, _, hclause⟩ := List.mem_filterMap.mp hmade
    simp only [Option.bind_eq_bind, Option.bind_eq_some_iff, Option.pure_def,
      Option.some.injEq] at hclause
    obtain ⟨column, _, references, _, rfl⟩ := hclause
    exact hmake column.name references
  cases place with
  | inline => cases hmem
  | clause => exact hclauses _ (fun _ _ => rfl) hmem
  | namedClause => exact hclauses _ (fun _ _ => rfl) hmem

theorem markedNames_createTable (design : Design) (place : ForeignKeyPlace) (table : Table) :
    (design.createTable place table).markedNames =
      if design.hasCompositeKey table then [] else design.primaryKeyNames table := by
  rw [CreateTable.markedNames, createTable, List.filter_map, List.map_map]
  cases hcomposite : design.hasCompositeKey table with
  | true => simp [columnDefinition, Function.comp_def]
  | false => simp [columnDefinition, primaryKeyNames, Function.comp_def]

theorem declaresKey_createTable (design : Design) (place : ForeignKeyPlace) (table : Table) :
    (design.createTable place table).DeclaresKey (design.primaryKeyNames table) := by
  have hmarked := design.markedNames_createTable place table
  have hconstraints : (design.createTable place table).constraints =
      design.keyClauses table ++ design.foreignKeyClauses place table := rfl
  have hforeign : ∀ constraint ∈ design.foreignKeyClauses place table,
      constraint.keyColumns? = none := fun _ => keyColumns?_of_mem_foreignKeyClauses
  unfold hasCompositeKey at hmarked
  unfold keyClauses hasCompositeKey at hconstraints
  match hnames : design.primaryKeyNames table with
  | [] =>
      rw [hnames] at hmarked hconstraints
      exact .absent hmarked (hconstraints ▸ hforeign)
  | [name] =>
      rw [hnames] at hmarked hconstraints
      exact .mark hmarked (hconstraints ▸ hforeign)
  | name :: name' :: names =>
      rw [hnames] at hmarked hconstraints
      have hseveral : decide ((name :: name' :: names).length > 1) = true := by simp
      rw [if_pos hseveral] at hmarked hconstraints
      exact .clause (by simp) hmarked hconstraints hforeign

/-! ### Statements -/

theorem statements_eq_filter (design : Design) (dialect : Dialect) :
    design.statements dialect =
      (⟨"Preamble", dialect.preamble⟩ :: design.tables.map (design.tableStatement dialect)).filter
        (·.sql ≠ "") := by
  have htables : (design.tables.map (design.tableStatement dialect)).filter (·.sql ≠ "") =
      design.tables.map (design.tableStatement dialect) := by
    rw [List.filter_eq_self]
    intro statement hmem
    obtain ⟨table, _, rfl⟩ := List.mem_map.mp hmem
    exact decide_eq_true (CreateTable.text_ne_empty dialect _)
  rw [List.filter_cons, htables, statements, preambleStatements]
  cases dialect <;> rfl

/-- Of the preamble and one statement for each table, in the order of the tables, only an empty
preamble is left out.  In every dialect the definition of a table lists its columns, in the order of
the design, and declares one primary key, which is made of the key columns of the design. -/
theorem definitions_in_dialects (design : Design) :
    (∀ dialect, ∃ made,
      design.statements dialect = (⟨"Preamble", dialect.preamble⟩ :: made).filter (·.sql ≠ "") ∧
      List.Forall₂ (fun table statement => statement.label = "Table " ++ table.name ∧
        statement.sql = (design.createTable dialect.foreignKeys table).text dialect ∧
        statement.sql ≠ "") design.tables made) ∧
    ∀ (dialect : Dialect) table,
      List.Forall₂ (fun x definition => definition.name = x.name ∧
        definition.typeText = x.typeText ∧ (definition.isPrimaryKey → x.isPrimaryKey))
        (design.columnsOf table.id) (design.createTable dialect.foreignKeys table).columns ∧
      ∀ key, (design.createTable dialect.foreignKeys table).DeclaresKey key ↔
        key = ((design.columnsOf table.id).filter (·.isPrimaryKey)).map (·.name) := by
  constructor
  · intro dialect
    refine ⟨_, design.statements_eq_filter dialect, ?_⟩
    rw [List.forall₂_map_right_iff, List.forall₂_same]
    exact fun table _ => ⟨rfl, rfl, CreateTable.text_ne_empty dialect _⟩
  · intro dialect table
    have hdeclares := design.declaresKey_createTable dialect.foreignKeys table
    constructor
    · rw [createTable, List.forall₂_map_right_iff, List.forall₂_same]
      exact fun x _ => ⟨rfl, rfl, fun hmarked => (Bool.and_eq_true_iff.mp hmarked).1⟩
    · intro key
      constructor
      · exact fun hkey => hkey.unique hdeclares
      · rintro rfl
        exact hdeclares

end Design

end SchemaDesign
