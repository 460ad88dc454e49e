import SchemaDesign.Compilation
import SchemaDesign.Proofs.Mapping.KeyEnd
import SchemaDesign.Proofs.Sql.ForeignKey

/-!
# Compiled designs

A clean design without repeated column ids compiles, and every foreign key of the outcome is closed:
it refers from a column of its own table to a column of a table that is created as well.

The statements look up the table and the column of a key apart from each other.  That they belong
together comes from the normal design, where the ends that hold keys are aligned.  That no key stems
from a many-to-many relation comes from there, too: if both ends of such a relation resolved, it
would have become a junction.
-/

namespace SchemaDesign

open Sql

/-- The columns of the key are columns of its own definition and of another one in the list. -/
structure Sql.ForeignKey.Closed (key : ForeignKey) (definition : CreateTable)
    (definitions : List CreateTable) : Prop where
  column : key.column ∈ definition.columnNames
  references : ∃ other ∈ definitions,
    other.name = key.references.table ∧ key.references.column ∈ other.columnNames

namespace Compiled

def definition (compiled : Compiled) (table : Table) : CreateTable :=
  compiled.normal.createTable compiled.dialect.foreignKeys table

def definitions (compiled : Compiled) : List CreateTable :=
  compiled.normal.tables.map compiled.definition

end Compiled

namespace Design

variable {design normal : Design} {ids : IdSupply}

theorem compile_of_normal (options : CompileOptions) {normal : Design}
    (hnormal : (design.withInheritance options.inheritance).normalize ids = .ok normal) :
    design.compile ids options =
      .ok ⟨options.dialect, normal.statements options.dialect, normal⟩ := by
  rw [compile_eq, hnormal]
  rfl

theorem Clean.withInheritance (hclean : design.Clean) (kind : Option InheritanceKind) :
    (design.withInheritance kind).Clean := by
  rw [← issues_eq_nil_iff] at hclean ⊢
  exact hclean

theorem Clean.avoids (hclean : design.Clean) (hfresh : ids.FreshFor design) :
    ids.Avoids design := by
  refine ⟨hfresh.tables, ?_⟩
  intro relation hmem hkind endpoint hend position
  have hdata : ¬relation.isInheritance := by simp [Relation.isInheritance, hkind]
  have hresolves := (hclean.resolves_end hmem hdata hend).2
  obtain ⟨column, hcolumn, hid, htable⟩ := hresolves.exists_mem
  constructor
  · intro hsame
    have howner := (design.hasTable_iff _).mp (hclean.owner column hcolumn)
    rw [htable, hsame] at howner
    exact hfresh.tables position howner
  · intro hsame
    have hdrawn : column.id = ids position := Option.some.inj (hid.symm.trans hsame)
    exact hfresh.columns position (hdrawn ▸ List.mem_map_of_mem hcolumn)

/-! ### Foreign keys of normal designs -/

variable {table : Table} {key : ForeignKey} {relation : Relation}

theorem referencedKey?_eq_some_iff (design : Design) (relation : Relation) (reference : Reference) :
    design.referencedKey? relation = some reference ↔
      ∃ table id column, design.table? relation.source.table = some table ∧
        relation.source.column = some id ∧ design.column? id = some column ∧
        ⟨table.name, column.name⟩ = reference := by
  simp [referencedKey?, Option.bind_eq_some_iff]

/-- Both ends of a relation that backs a key resolve. -/
theorem Backs.junction?_ne_none (hbacks : normal.Backs table key relation)
    (htable : table ∈ normal.tables) (hkind : relation.kind = .manyToMany) :
    normal.junction? relation ≠ none := by
  obtain ⟨source, sourceId, sourceKey, hsource, hsourceId, hsourceKey, _⟩ :=
    (normal.referencedKey?_eq_some_iff relation key.references).mp hbacks.references
  obtain ⟨x, hx, haims, _⟩ := hbacks.column
  have htargetId : relation.target.column = some x.id := by simpa [aimsAt] using haims
  have htargetTable : relation.target.table = table.id := by
    simpa using (List.mem_filter.mp hbacks.leads).2
  have htargetKey := (normal.column?_isSome_iff x.id).mpr
    (List.mem_map_of_mem (List.mem_of_mem_filter hx))
  rw [Ne, junction?_eq_none_iff hkind, not_not]
  constructor
  · exact ⟨by rw [hasTable, hsource]; rfl, sourceId, hsourceId, by rw [hsourceKey]; rfl⟩
  · exact ⟨htargetTable ▸ hasTable_of_mem htable, x.id, htargetId, htargetKey⟩

theorem Normal.kind_of_backs (hnormal : normal.Normal) (hbacks : normal.Backs table key relation)
    (htable : table ∈ normal.tables) :
    relation.kind = .oneToOne ∨ relation.kind = .oneToMany := by
  have hmem : relation ∈ normal.relations := List.mem_of_mem_filter hbacks.leads
  have hplain := hnormal.plain relation hmem
  cases hkind : relation.kind with
  | oneToOne => exact .inl rfl
  | oneToMany => exact .inr rfl
  | manyToMany =>
      exact absurd (hnormal.unexpanded relation hmem) (hbacks.junction?_ne_none htable hkind)
  | inheritsFrom => simp [Relation.isInheritance, hkind] at hplain

theorem source_mem_keyEnds (hkind : relation.kind = .oneToOne ∨ relation.kind = .oneToMany) :
    relation.source ∈ relation.keyEnds := by
  unfold Relation.keyEnds
  rcases hkind with hkind | hkind <;> simp [hkind]

/-- The column that is referred to is on the table that is referred to. -/
theorem Backs.closed {known : List ColumnId} (hbacks : normal.Backs table key relation)
    (haligned : normal.Aligned known)
    (hkind : relation.kind = .oneToOne ∨ relation.kind = .oneToMany) (place : ForeignKeyPlace) :
    key.Closed (normal.createTable place table)
      (normal.tables.map (normal.createTable place)) := by
  obtain ⟨source, id, sourceKey, hsource, hid, hsourceKey, hreferences⟩ :=
    (normal.referencedKey?_eq_some_iff relation key.references).mp hbacks.references
  obtain ⟨hsourceMem, hsourceId⟩ := mem_of_table? hsource
  obtain ⟨hkeyMem, hkeyId⟩ := mem_of_column? hsourceKey
  have howner : sourceKey.table = source.id := by
    rw [hsourceId]
    apply haligned.aligned relation (List.mem_of_mem_filter hbacks.leads) relation.source
      (source_mem_keyEnds hkind) sourceKey hkeyMem
    rw [hid, hkeyId]
  constructor
  case column =>
    obtain ⟨x, hx, _, hname⟩ := hbacks.column
    rw [columnNames_createTable, ← hname]
    exact List.mem_map_of_mem hx
  case references =>
    refine ⟨_, List.mem_map_of_mem hsourceMem, by rw [← hreferences]; rfl, ?_⟩
    rw [columnNames_createTable, ← hreferences]
    exact List.mem_map_of_mem (List.mem_filter.mpr ⟨hkeyMem, by simp [howner]⟩)

/-- A clean design without repeated column ids compiles.  Its statements create one table each, and
every foreign key leads from a column of its own table to a column of a created table, on account of
a relation that is one-to-one or one-to-many. -/
theorem foreign_keys_of_compiled_designs (hissues : design.issues = [])
    (hcolumns : design.columnIds.Nodup) (hfresh : ids.FreshFor design) (options : CompileOptions) :
    ∃ compiled, design.compile ids options = .ok compiled ∧
      compiled.statements.map (·.sql) =
        (preambleStatements options.dialect).map (·.sql) ++
          compiled.definitions.map (·.text options.dialect) ∧
      ∀ table ∈ compiled.normal.tables, ∀ key ∈ (compiled.definition table).foreignKeys,
        key.Closed (compiled.definition table) compiled.definitions ∧
        ∃ relation ∈ compiled.normal.relations,
          (relation.kind = .oneToOne ∨ relation.kind = .oneToMany) ∧
          compiled.normal.Backs table key relation := by
  have hclean := (design.issues_eq_nil_iff.mp hissues).withInheritance options.inheritance
  obtain ⟨lineage, hlineage⟩ := Lineage.exists_of_acyclic hclean.acyclic
  have hnormal := normalize_of_lineage hlineage ids
  have hfresh : ids.FreshFor (design.withInheritance options.inheritance) :=
    ⟨hfresh.injective, hfresh.tables, hfresh.columns⟩
  have haligned := hclean.aligned_of_normalize hcolumns hfresh.columns hnormal
  have hplain := normal_of_normalize (hclean.avoids hfresh) hnormal
  refine ⟨_, compile_of_normal options hnormal, ?_, ?_⟩
  · simp [statements, Compiled.definitions, Compiled.definition, tableStatement]
  · intro table htable key hkey
    obtain ⟨relation, hbacks⟩ := exists_backs_of_mem_foreignKeys hkey
    have hkind := hplain.kind_of_backs hbacks htable
    exact ⟨hbacks.closed haligned hkind options.dialect.foreignKeys, relation,
      List.mem_of_mem_filter hbacks.leads, hkind, hbacks⟩

theorem foreign_keys_of_compiled_pets :
    ∃ compiled, pets.compile hashes ⟨.mysql, some .classTable⟩ = .ok compiled ∧
      compiled.definitions.flatMap (·.foreignKeys) =
        [ ⟨"vet_id", ⟨"Owner", "id"⟩⟩, ⟨"id", ⟨"Animal", "id"⟩⟩,
          ⟨"DogId", ⟨"Dog", "id"⟩⟩, ⟨"OwnerId", ⟨"Owner", "id"⟩⟩ ] ∧
      ∀ table ∈ compiled.normal.tables, ∀ key ∈ (compiled.definition table).foreignKeys,
        key.Closed (compiled.definition table) compiled.definitions := by
  have hissues : pets.issues = [] := rfl
  obtain ⟨compiled, hcompile, _, hkeys⟩ := foreign_keys_of_compiled_designs hissues (by decide)
    hashes_freshFor_pets ⟨.mysql, some .classTable⟩
  refine ⟨compiled, hcompile, ?_, fun table htable key hkey => (hkeys table htable key hkey).1⟩
  have hlist : (pets.compile hashes ⟨.mysql, some .classTable⟩).toOption.map
      (·.definitions.flatMap (·.foreignKeys)) =
        some [ ⟨"vet_id", ⟨"Owner", "id"⟩⟩, ⟨"id", ⟨"Animal", "id"⟩⟩,
          ⟨"DogId", ⟨"Dog", "id"⟩⟩, ⟨"OwnerId", ⟨"Owner", "id"⟩⟩ ] := by
    decide +kernel
  rw [hcompile] at hlist
  exact Option.some.inj hlist

/-- Two columns share an id, which goes unnoticed. -/
def registry : Design where
  tables := [.create "badge" "Badge", .create "person" "Person", .create "clerk" "Clerk"]
  columns :=
    [ Column.create "key" "badge" "number" "INT",
      (Column.create "key" "person" "id" "INT").primaryKey ]
  relations := [.inherits "clerk" "person"]
  inheritance := .classTable

/-- The number of the badge is taken for the key of the person. -/
theorem definitions_of_registry :
    (registry.compile hashes ⟨.sqlite, none⟩).toOption.map (·.definitions) =
      some
        [ ⟨"Badge", [⟨"number", "INT", false, none⟩], []⟩,
          ⟨"Person", [⟨"id", "INT", true, none⟩], []⟩,
          ⟨"Clerk", [⟨"id", "INT", true, none⟩],
            [.foreignKey none "id" ⟨"Person", "number"⟩]⟩ ] := by
  decide +kernel

theorem not_all_foreign_keys_closed :
    ¬∀ (design : Design) (ids : IdSupply), design.issues = [] → ids.FreshFor design →
      ∀ options compiled, design.compile ids options = .ok compiled →
        ∀ table ∈ compiled.normal.tables, ∀ key ∈ (compiled.definition table).foreignKeys,
          key.Closed (compiled.definition table) compiled.definitions := by
  intro hall
  have hfresh : hashes.FreshFor registry := (hashes_unusedIn (by decide) (by decide)).freshFor
  obtain ⟨compiled, hcompile, hdefinitions⟩ := exists_ok_of_toOption definitions_of_registry
  have hclerk : ⟨"Clerk", [⟨"id", "INT", true, none⟩],
      [.foreignKey none "id" ⟨"Person", "number"⟩]⟩ ∈ compiled.definitions := by
    simp [hdefinitions]
  obtain ⟨table, htable, hdefinition⟩ := List.mem_map.mp hclerk
  have hclosed := hall registry hashes rfl hfresh ⟨.sqlite, none⟩ compiled hcompile table htable
    ⟨"id", ⟨"Person", "number"⟩⟩
    (by simp [hdefinition, CreateTable.foreignKeys, Constraint.foreignKey?])
  obtain ⟨other, hother, hname, hcolumn⟩ := hclosed.references
  simp only [hdefinitions, List.mem_cons, List.not_mem_nil, or_false] at hother
  rcases hother with rfl | rfl | rfl <;> simp [CreateTable.columnNames] at hname hcolumn

end Design

end SchemaDesign
