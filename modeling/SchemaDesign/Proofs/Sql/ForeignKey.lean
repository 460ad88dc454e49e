import SchemaDesign.Proofs.Design.Lookup
import SchemaDesign.Proofs.Sql.Statement

/-!
# Foreign keys

A table definition declares a foreign key on a column or in a clause.  Either way the key is backed
by a relation: its target is the column that refers, and its source resolves to the key that is
referred to.

Clauses are made for all relations that back a key.  A column takes its key from the first relation
that leads to it, and has none if that one does not resolve.  So the two places differ at relations
that back a key but come after another relation to the same column.
-/

namespace SchemaDesign

namespace Sql

structure ForeignKey where
  column : String
  references : Reference
deriving Repr, DecidableEq

def ColumnDefinition.foreignKey? (column : ColumnDefinition) : Option ForeignKey :=
  column.references.map (ForeignKey.mk column.name)

def Constraint.foreignKey? : Constraint → Option ForeignKey
  | .primaryKey _ => none
  | .foreignKey _ column references => some ⟨column, references⟩

namespace CreateTable

def foreignKeys (table : CreateTable) : List ForeignKey :=
  table.columns.filterMap (·.foreignKey?) ++ table.constraints.filterMap (·.foreignKey?)

def columnNames (table : CreateTable) : List String :=
  table.columns.map (·.name)

end CreateTable

end Sql

open Sql

namespace Design

variable {design : Design} {table : Table} {key : ForeignKey}

def foreignKeysIn (design : Design) (dialect : Dialect) (table : Table) : List ForeignKey :=
  (design.createTable dialect.foreignKeys table).foreignKeys

/-- The relation leads to the column of the table that refers, from the key that is referred to. -/
structure Backs (design : Design) (table : Table) (key : ForeignKey) (relation : Relation) :
    Prop where
  leads : relation ∈ design.relationsTo table.id
  column : ∃ x ∈ design.columnsOf table.id, aimsAt relation x ∧ x.name = key.column
  references : design.referencedKey? relation = some key.references

/-- No other relation to the same column of the table comes earlier. -/
def IsFirst (design : Design) (table : Table) (relation : Relation) : Prop :=
  (design.relationsTo table.id).find? (·.target.column == relation.target.column) = some relation

/-- At most one relation whose source resolves leads to a column. -/
def SinglyReferenced (design : Design) : Prop :=
  ∀ x ∈ design.columns,
    design.relations.countP (fun r => aimsAt r x && (design.referencedKey? r).isSome) ≤ 1

theorem columnNames_createTable (design : Design) (place : ForeignKeyPlace) (table : Table) :
    (design.createTable place table).columnNames = (design.columnsOf table.id).map (·.name) := by
  simp [CreateTable.columnNames, createTable, columnDefinition]

/-! ### Keys on columns -/

theorem foreignKeys_keyClauses (design : Design) (table : Table) :
    (design.keyClauses table).filterMap (·.foreignKey?) = [] := by
  unfold keyClauses
  split <;> simp [Constraint.foreignKey?]

theorem mem_inlineKeys_iff (design : Design) (table : Table) (key : ForeignKey) :
    key ∈ (design.createTable .inline table).foreignKeys ↔
      ∃ x ∈ design.columnsOf table.id, x.name = key.column ∧
        design.inlineReference? table x = some key.references := by
  simp only [CreateTable.foreignKeys, createTable, foreignKeyClauses, List.append_nil,
    foreignKeys_keyClauses, List.mem_filterMap, List.mem_map, exists_exists_and_eq_and]
  apply exists_congr
  intro x
  cases key with
  | mk column references =>
      simp only [ColumnDefinition.foreignKey?, columnDefinition, if_true, Option.map_eq_some_iff,
        ForeignKey.mk.injEq]
      constructor
      · rintro ⟨hmem, _, hreference, hname, rfl⟩
        exact ⟨hmem, hname, hreference⟩
      · rintro ⟨hmem, hname, hreference⟩
        exact ⟨hmem, references, hreference, hname, rfl⟩

theorem mem_inlineKeys_iff_exists_first (design : Design) (table : Table) (key : ForeignKey) :
    key ∈ (design.createTable .inline table).foreignKeys ↔
      ∃ relation, design.Backs table key relation ∧ design.IsFirst table relation := by
  rw [mem_inlineKeys_iff]
  constructor
  · rintro ⟨x, hx, hname, hreference⟩
    obtain ⟨r, hfound, hkey⟩ := Option.bind_eq_some_iff.mp hreference
    have htarget : r.target.column = some x.id := by simpa using List.find?_some hfound
    have haims : aimsAt r x := by simp [aimsAt, htarget]
    refine ⟨r, ⟨List.mem_of_find?_eq_some hfound, ⟨x, hx, haims, hname⟩, hkey⟩, ?_⟩
    rwa [IsFirst, htarget]
  · rintro ⟨r, ⟨_, ⟨x, hx, haims, hname⟩, hkey⟩, hfirst⟩
    have htarget : r.target.column = some x.id := by simpa [aimsAt] using haims
    rw [IsFirst, htarget] at hfirst
    exact ⟨x, hx, hname, Option.bind_eq_some_iff.mpr ⟨r, hfirst, hkey⟩⟩

/-! ### Keys in clauses -/

theorem mem_referenceClauses_iff {make : String → Reference → Constraint}
    (hmake : ∀ column references, (make column references).foreignKey? = some ⟨column, references⟩)
    (design : Design) (table : Table) (key : ForeignKey) :
    key ∈ (design.referenceClauses make table).filterMap (·.foreignKey?) ↔
      ∃ r ∈ design.relationsTo table.id, ∃ x,
        (design.columnsOf table.id).find? (aimsAt r ·) = some x ∧ x.name = key.column ∧
          design.referencedKey? r = some key.references := by
  constructor
  · intro hmem
    obtain ⟨clause, hclause, hkey⟩ := List.mem_filterMap.mp hmem
    obtain ⟨r, hr, hmade⟩ := List.mem_filterMap.mp hclause
    simp only [Option.bind_eq_bind, Option.bind_eq_some_iff, Option.pure_def,
      Option.some.injEq] at hmade
    obtain ⟨x, hx, references, hreferences, rfl⟩ := hmade
    rw [hmake, Option.some.injEq] at hkey
    subst hkey
    exact ⟨r, hr, x, hx, rfl, hreferences⟩
  · rintro ⟨r, hr, x, hx, hname, hreferences⟩
    refine List.mem_filterMap.mpr ⟨make x.name key.references, ?_, by rw [hmake, hname]⟩
    refine List.mem_filterMap.mpr ⟨r, hr, ?_⟩
    simp only [Option.bind_eq_bind, Option.bind_eq_some_iff, Option.pure_def]
    exact ⟨x, hx, key.references, hreferences, rfl⟩

theorem foreignKeys_of_clauses {place : ForeignKeyPlace} (hplace : place ≠ .inline)
    (design : Design) (table : Table) (key : ForeignKey) :
    key ∈ (design.createTable place table).foreignKeys ↔
      ∃ r ∈ design.relationsTo table.id, ∃ x,
        (design.columnsOf table.id).find? (aimsAt r ·) = some x ∧ x.name = key.column ∧
          design.referencedKey? r = some key.references := by
  have hcolumns : ((design.columnsOf table.id).map (design.columnDefinition place table
      (design.hasCompositeKey table))).filterMap (·.foreignKey?) = [] := by
    simp [columnDefinition, ColumnDefinition.foreignKey?, hplace]
  simp only [CreateTable.foreignKeys, createTable, hcolumns, List.filterMap_append,
    foreignKeys_keyClauses, List.nil_append]
  cases place with
  | inline => exact absurd rfl hplace
  | clause => exact mem_referenceClauses_iff (fun _ _ => rfl) design table key
  | namedClause => exact mem_referenceClauses_iff (fun _ _ => rfl) design table key

/-- Wherever a key stands, a relation backs it. -/
theorem exists_backs_of_mem_foreignKeys {place : ForeignKeyPlace}
    (hmem : key ∈ (design.createTable place table).foreignKeys) :
    ∃ relation, design.Backs table key relation := by
  by_cases hplace : place = .inline
  · subst hplace
    obtain ⟨relation, hbacks, _⟩ := (mem_inlineKeys_iff_exists_first design table key).mp hmem
    exact ⟨relation, hbacks⟩
  · obtain ⟨r, hr, x, hx, hname, hreferences⟩ :=
      (foreignKeys_of_clauses hplace design table key).mp hmem
    exact ⟨r, hr, ⟨x, List.mem_of_find?_eq_some hx, List.find?_some hx, hname⟩, hreferences⟩

theorem mem_clauseKeys_iff_exists_backs (hcolumns : design.columnIds.Nodup)
    {place : ForeignKeyPlace} (hplace : place ≠ .inline) :
    key ∈ (design.createTable place table).foreignKeys ↔
      ∃ relation, design.Backs table key relation := by
  constructor
  · exact exists_backs_of_mem_foreignKeys
  · rintro ⟨r, hr, ⟨x, hx, haims, hname⟩, hreferences⟩
    refine (foreignKeys_of_clauses hplace design table key).mpr ⟨r, hr, x, ?_, hname, hreferences⟩
    have htarget : r.target.column = some x.id := by simpa [aimsAt] using haims
    have hids : ((design.columnsOf table.id).map (·.id)).Nodup :=
      hcolumns.sublist (List.filter_sublist.map _)
    rw [← find?_key_of_nodup hids hx]
    congr 1
    funext y
    simp [aimsAt, htarget, eq_comm]

/-! ### Dialects -/

theorem eq_of_countP_le_one {α : Type} {p : α → Bool} {list : List α} (hle : list.countP p ≤ 1)
    {x y : α} (hx : x ∈ list) (hpx : p x) (hy : y ∈ list) (hpy : p y) : x = y := by
  have hx' : x ∈ list.filter p := List.mem_filter.mpr ⟨hx, hpx⟩
  have hy' : y ∈ list.filter p := List.mem_filter.mpr ⟨hy, hpy⟩
  rw [List.countP_eq_length_filter] at hle
  match hfilter : list.filter p with
  | [] => simp [hfilter] at hx'
  | [only] =>
      rw [hfilter, List.mem_singleton] at hx' hy'
      rw [hx', hy']
  | _ :: _ :: _ => simp [hfilter] at hle

theorem Backs.eq_of_same_name (hsingle : design.SinglyReferenced)
    (hnames : ((design.columnsOf table.id).map (·.name)).Nodup) {r r' : Relation}
    (hbacks : design.Backs table key r) (hbacks' : design.Backs table key r') : r = r' := by
  obtain ⟨x, hx, haims, hname⟩ := hbacks.column
  obtain ⟨x', hx', haims', hname'⟩ := hbacks'.column
  obtain rfl : x = x' := List.inj_on_of_nodup_map hnames hx hx' (hname.trans hname'.symm)
  apply eq_of_countP_le_one (hsingle x (List.mem_of_mem_filter hx))
  · exact List.mem_of_mem_filter hbacks.leads
  · simp [haims, hbacks.references]
  · exact List.mem_of_mem_filter hbacks'.leads
  · simp [haims', hbacks'.references]

theorem foreignKeys_eq_inline_iff (dialect : Dialect) :
    dialect.foreignKeys = .inline ↔ dialect = .sqlServer := by
  cases dialect <;> decide

/-- Three dialects declare the keys of all relations, and the fourth one those of the relations that
are the first to lead to their column.  So all four declare the same keys when no relation that
backs a key comes after another one to the same column, and otherwise they do not, unless the
columns of the table share names. -/
theorem foreign_keys_in_dialects (hcolumns : design.columnIds.Nodup)
    (hsingle : design.SinglyReferenced) (table : Table) :
    (∀ dialect, dialect ≠ .sqlServer → ∀ key, key ∈ design.foreignKeysIn dialect table ↔
      ∃ relation, design.Backs table key relation) ∧
    (∀ key, key ∈ design.foreignKeysIn .sqlServer table ↔
      ∃ relation, design.Backs table key relation ∧ design.IsFirst table relation) ∧
    ((∀ key relation, design.Backs table key relation → design.IsFirst table relation) →
      ∀ dialect key, key ∈ design.foreignKeysIn .sqlServer table ↔
        key ∈ design.foreignKeysIn dialect table) ∧
    (((design.columnsOf table.id).map (·.name)).Nodup → ∀ dialect, dialect ≠ .sqlServer →
      (∀ key, key ∈ design.foreignKeysIn .sqlServer table ↔
        key ∈ design.foreignKeysIn dialect table) →
      ∀ key relation, design.Backs table key relation → design.IsFirst table relation) := by
  have hclauses : ∀ dialect, dialect ≠ .sqlServer → ∀ key,
      key ∈ design.foreignKeysIn dialect table ↔ ∃ relation, design.Backs table key relation := by
    intro dialect hdialect key
    exact mem_clauseKeys_iff_exists_backs hcolumns
      ((foreignKeys_eq_inline_iff dialect).not.mpr hdialect)
  have hinline : ∀ key, key ∈ design.foreignKeysIn .sqlServer table ↔
      ∃ relation, design.Backs table key relation ∧ design.IsFirst table relation :=
    fun key => mem_inlineKeys_iff_exists_first design table key
  refine ⟨hclauses, hinline, ?_, ?_⟩
  · intro hfirst dialect key
    by_cases hdialect : dialect = .sqlServer
    · rw [hdialect]
    · rw [hinline, hclauses dialect hdialect]
      exact ⟨fun ⟨r, hbacks, _⟩ => ⟨r, hbacks⟩, fun ⟨r, hbacks⟩ => ⟨r, hbacks, hfirst key r hbacks⟩⟩
  · intro hnames dialect hdialect hsame key r hbacks
    have hkey := (hsame key).mpr ((hclauses dialect hdialect key).mpr ⟨r, hbacks⟩)
    obtain ⟨r', hbacks', hfirst⟩ := (hinline key).mp hkey
    rwa [hbacks.eq_of_same_name hsingle hnames hbacks']

/-- The owner of a dog was a shelter once, and the relation to it was left behind. -/
def adoptions : Design where
  tables := [.create "owner" "Owner", .create "dog" "Dog"]
  columns :=
    [ (Column.create "owner.id" "owner" "id" "INT").primaryKey,
      (Column.create "dog.id" "dog" "id" "INT").primaryKey,
      (Column.create "dog.owner" "dog" "owner_id" "INT").foreignKey ]
  relations :=
    [ .between .oneToMany "shelter" "shelter.id" "dog" "dog.owner",
      .between .oneToMany "owner" "owner.id" "dog" "dog.owner" ]
  inheritance := .singleTable

def ownerKey : ForeignKey := ⟨"owner_id", ⟨"Owner", "id"⟩⟩

instance decidableSinglyReferenced : Decidable design.SinglyReferenced :=
  inferInstanceAs (Decidable (∀ x ∈ design.columns, _ ≤ 1))

theorem foreign_keys_of_adoptions :
    ∃ relation, adoptions.Backs (.create "dog" "Dog") ownerKey relation ∧
      ¬adoptions.IsFirst (.create "dog" "Dog") relation := by
  have hcolumns : adoptions.columnIds.Nodup := by decide
  have hsingle : adoptions.SinglyReferenced := by decide
  obtain ⟨hclauses, hinline, _⟩ :=
    foreign_keys_in_dialects hcolumns hsingle (.create "dog" "Dog")
  obtain ⟨relation, hbacks⟩ := (hclauses .postgres (by decide) ownerKey).mp (by decide)
  refine ⟨relation, hbacks, ?_⟩
  intro hfirst
  have hinlineKey := (hinline ownerKey).mpr ⟨relation, hbacks, hfirst⟩
  exact absurd hinlineKey (by decide)

theorem not_all_dialects_agree :
    ¬∀ design : Design, design.columnIds.Nodup → design.SinglyReferenced →
      ∀ table ∈ design.tables, ∀ dialect key,
        key ∈ design.foreignKeysIn .sqlServer table ↔ key ∈ design.foreignKeysIn dialect table := by
  intro hall
  have hsame := hall adoptions (by decide) (by decide) (.create "dog" "Dog") (by simp [adoptions])
    .sqlite ownerKey
  exact absurd (hsame.mpr (by decide)) (by decide)

end Design

end SchemaDesign
