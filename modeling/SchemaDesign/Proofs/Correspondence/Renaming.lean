import SchemaDesign.Compilation
import SchemaDesign.Proofs.Sql.Statement
import SchemaDesign.Proofs.Mapping.Normalize
import SchemaDesign.Proofs.Correspondence.Normalize
import Mathlib.Logic.Equiv.Basic

/-!
# Renaming the ids of a design

Corresponding designs have the same statements, because ids do not show in them.  A design with its
ids renamed one to one corresponds to the design itself, also when the two are normalized with
different supplies: the ids at the same position of the supplies correspond, and these are new on
both sides.  So the choice of ids, of those in the design and of those that are made, has no
influence on what is written.
-/

open Relator

namespace SchemaDesign

/-! ### Statements -/

/-- The two differ at most in the normal design, and not in its inheritance kind. -/
structure Compiled.ShowsSame (compiled compiled' : Compiled) : Prop where
  dialect : compiled.dialect = compiled'.dialect
  statements : compiled.statements = compiled'.statements
  inheritance : compiled.normal.inheritance = compiled'.normal.inheritance

namespace Correspondence.Designs

variable {c : Correspondence} {d d' : Design}

theorem referencedKey?_eq (h : c.Designs d d') {r r' : Relation} (hr : c.Relations r r') :
    d.referencedKey? r = d'.referencedKey? r' := by
  have hkey : Option.Rel (· = ·) (d.referencedKey? r) (d'.referencedKey? r') := by
    refine rel_option_bind (h.table? hr.source.table) fun t t' ht => ?_
    refine rel_option_bind hr.source.column fun a a' ha => ?_
    refine rel_option_bind (h.column? ha) fun x x' hx => ?_
    rw [ht.name, hx.name]
    exact .some rfl
  generalize d.referencedKey? r = key, d'.referencedKey? r' = key' at hkey
  cases hkey with
  | none => rfl
  | some hsame => rw [hsame]

theorem definedAlike (h : c.Designs d d') {t t' : Table} (ht : c.Tables t t') :
    d.DefinedAlike t d' t' where
  name := ht.name
  columns := (h.columnsOf ht.id).imp fun _ _ hx => ⟨hx.name, hx.typeText, hx.isPrimaryKey⟩
  references := (h.relationsTo ht.id).imp fun _ _ hr => h.referencedKey?_eq hr
  aims := by
    intro x x' hx r r' hr
    have hcolumn := List.forall₂_zip (h.columnsOf ht.id) hx
    have hrelation := List.forall₂_zip (h.relationsTo ht.id) hr
    exact hrelation.target.column_beq_eq hcolumn.id

theorem statements_eq (h : c.Designs d d') (dialect : Dialect) :
    d.statements dialect = d'.statements dialect := by
  have htables := map_eq_of_forall₂ h.tables fun t t' ht =>
    (h.definedAlike ht).tableStatement_eq dialect
  rw [Design.statements, htables, Design.statements]

theorem withInheritance (h : c.Designs d d') (kind : Option InheritanceKind) :
    c.Designs (d.withInheritance kind) (d'.withInheritance kind) where
  tables := h.tables
  columns := h.columns
  relations := h.relations
  inheritance := congrArg kind.getD h.inheritance

theorem compile (h : c.Designs d d') {ids ids' : IdSupply} (hids : c.Supplies ids ids')
    (options : CompileOptions) :
    SameOutcome Compiled.ShowsSame (d.compile ids options) (d'.compile ids' options) := by
  have hnormal := (h.withInheritance options.inheritance).normalize hids
  rw [Design.compile_eq, Design.compile_eq]
  refine hnormal.bind fun normal normal' hdesigns => .ok ?_
  exact ⟨rfl, hdesigns.statements_eq options.dialect, hdesigns.inheritance⟩

theorem compile_statements_eq (h : c.Designs d d') {ids ids' : IdSupply}
    (hids : c.Supplies ids ids') (options : CompileOptions) :
    (d.compile ids options).map (·.statements) = (d'.compile ids' options).map (·.statements) :=
  ((h.compile hids options).map fun _ _ hshown => hshown.statements).eq

end Correspondence.Designs

/-! ### Renamings -/

def Endpoint.rename (endpoint : Endpoint) (f : TableId → TableId) (g : ColumnId → ColumnId) :
    Endpoint :=
  ⟨f endpoint.table, endpoint.column.map g⟩

def Design.rename (design : Design) (f : TableId → TableId) (g : ColumnId → ColumnId) : Design where
  tables := design.tables.map fun table => table.withId (f table.id)
  columns := design.columns.map fun column =>
    { column with id := g column.id, table := f column.table }
  relations := design.relations.map fun relation =>
    { relation with
      source := relation.source.rename f g
      target := relation.target.rename f g }
  inheritance := design.inheritance

theorem Design.mentionedTables_rename (design : Design) (f : TableId → TableId)
    (g : ColumnId → ColumnId) :
    (design.rename f g).mentionedTables = design.mentionedTables.map f := by
  simp [mentionedTables, tableIds, rename, Endpoint.rename, Table.withId, List.flatMap_map,
    List.map_flatMap, Function.comp_def]

theorem Design.mentionedColumns_rename (design : Design) (f : TableId → TableId)
    (g : ColumnId → ColumnId) :
    (design.rename f g).mentionedColumns = design.mentionedColumns.map g := by
  simp [mentionedColumns, columnIds, rename, Endpoint.rename, List.flatMap_map, List.map_flatMap,
    Function.comp_def, Option.toList_map]

/-- An id and its new name, or two ids at the same position of the supplies. -/
def Paired (known : List String) (f : String → String) (ids ids' : IdSupply) (a a' : String) :
    Prop :=
  (a ∈ known ∧ f a = a') ∨ ∃ position, ids position = a ∧ ids' position = a'

theorem biUnique_paired {known : List String} {f : String → String} {ids ids' : IdSupply}
    (hf : Set.InjOn f {a | a ∈ known}) (hids : Function.Injective ids)
    (hids' : Function.Injective ids') (hnew : ∀ position, ids position ∉ known)
    (hnew' : ∀ position, ids' position ∉ known.map f) : BiUnique (Paired known f ids ids') := by
  constructor
  · rintro a b a' (⟨ha, rfl⟩ | ⟨m, rfl, rfl⟩) (⟨hb, hsame⟩ | ⟨n, rfl, hsame⟩)
    · exact hf ha hb hsame.symm
    · exact absurd (hsame ▸ List.mem_map_of_mem ha) (hnew' n)
    · exact absurd (hsame ▸ List.mem_map_of_mem hb) (hnew' m)
    · rw [hids' hsame]
  · rintro a a' b' (⟨ha, rfl⟩ | ⟨m, rfl, rfl⟩) (⟨hb, rfl⟩ | ⟨n, hsame, rfl⟩)
    · rfl
    · exact absurd (hsame ▸ ha) (hnew n)
    · exact absurd hb (hnew m)
    · rw [hids hsame]

namespace Design

variable {design : Design} {f : TableId → TableId} {g : ColumnId → ColumnId} {ids ids' : IdSupply}

def renamedIds (hf : Set.InjOn f {id | id ∈ design.mentionedTables})
    (hg : Set.InjOn g {id | id ∈ design.mentionedColumns}) (hids : ids.UnusedIn design)
    (hids' : ids'.UnusedIn (design.rename f g)) : Correspondence where
  table := Paired design.mentionedTables f ids ids'
  column := Paired design.mentionedColumns g ids ids'
  table_biUnique := biUnique_paired hf hids.injective hids'.injective hids.tables
    (design.mentionedTables_rename f g ▸ hids'.tables)
  column_biUnique := biUnique_paired hg hids.injective hids'.injective hids.columns
    (design.mentionedColumns_rename f g ▸ hids'.columns)

theorem designs_rename (hf : Set.InjOn f {id | id ∈ design.mentionedTables})
    (hg : Set.InjOn g {id | id ∈ design.mentionedColumns}) (hids : ids.UnusedIn design)
    (hids' : ids'.UnusedIn (design.rename f g)) :
    (renamedIds hf hg hids hids').Designs design (design.rename f g) := by
  have hends : ∀ relation ∈ design.relations, ∀ endpoint,
      endpoint = relation.source ∨ endpoint = relation.target →
      (renamedIds hf hg hids hids').Endpoints endpoint (endpoint.rename f g) := by
    intro relation hmem endpoint hend
    refine ⟨.inl ⟨mem_mentionedTables_of_end hmem hend, rfl⟩, ?_⟩
    rw [Endpoint.rename]
    cases hid : endpoint.column with
    | none => exact .none
    | some id => exact .some (.inl ⟨mem_mentionedColumns_of_end hmem hend hid, rfl⟩)
  constructor
  case tables =>
    refine List.forall₂_map_right_iff.mpr (List.forall₂_same.mpr fun table hmem => ?_)
    exact ⟨.inl ⟨mem_mentionedTables_of_hasTable (hasTable_of_mem hmem), rfl⟩, rfl⟩
  case columns =>
    refine List.forall₂_map_right_iff.mpr (List.forall₂_same.mpr fun column hmem => ?_)
    exact ⟨.inl ⟨mem_mentionedColumns_of_mem hmem, rfl⟩,
      .inl ⟨mem_mentionedTables_of_owner hmem, rfl⟩, rfl⟩
  case relations =>
    refine List.forall₂_map_right_iff.mpr (List.forall₂_same.mpr fun relation hmem => ?_)
    exact ⟨hends relation hmem _ (.inl rfl), hends relation hmem _ (.inr rfl), rfl⟩
  case inheritance => rfl

@[simp]
theorem rename_id (design : Design) : design.rename id id = design := by
  simp [rename, Endpoint.rename, Table.withId]

/-- The ids of a design correspond to themselves, and those drawn from one supply to those drawn
from another. -/
def redrawnIds (hids : ids.UnusedIn design) (hids' : ids'.UnusedIn design) : Correspondence :=
  renamedIds (Set.injOn_id _) (Set.injOn_id _) hids (design.rename_id.symm ▸ hids')

theorem supplies_renamedIds (hf : Set.InjOn f {id | id ∈ design.mentionedTables})
    (hg : Set.InjOn g {id | id ∈ design.mentionedColumns}) (hids : ids.UnusedIn design)
    (hids' : ids'.UnusedIn (design.rename f g)) :
    (renamedIds hf hg hids hids').Supplies ids ids' :=
  ⟨fun position => .inr ⟨position, rfl, rfl⟩, fun position => .inr ⟨position, rfl, rfl⟩⟩

theorem designs_redrawnIds (hids : ids.UnusedIn design) (hids' : ids'.UnusedIn design) :
    (redrawnIds hids hids').Designs design design := by
  have hdesigns : (redrawnIds hids hids').Designs design (design.rename id id) :=
    designs_rename _ _ _ _
  rwa [rename_id] at hdesigns

/-- Whatever the ids of a design are, and whatever the ids of the records that are made, compiling
it fails with the same tables or gives the same statements. -/
theorem statements_of_renamed_designs (design : Design) (options : CompileOptions)
    (hf : Set.InjOn f {id | id ∈ design.mentionedTables})
    (hg : Set.InjOn g {id | id ∈ design.mentionedColumns}) (hids : ids.UnusedIn design)
    (hids' : ids'.UnusedIn (design.rename f g)) :
    (design.compile ids options).map (·.statements) =
      ((design.rename f g).compile ids' options).map (·.statements) := by
  have hsupplies := supplies_renamedIds hf hg hids hids'
  exact (designs_rename hf hg hids hids').compile_statements_eq hsupplies options

/-- The dog and its owner trade their ids, and so do their keys. -/
theorem statements_of_renamed_pets :
    hashes.UnusedIn pets ∧
      hashes.UnusedIn (pets.rename (Equiv.swap "dog" "owner") (Equiv.swap "dog.id" "owner.id")) ∧
      (pets.compile hashes ⟨.postgres, none⟩).map (·.statements) =
        ((pets.rename (Equiv.swap "dog" "owner") (Equiv.swap "dog.id" "owner.id")).compile hashes
          ⟨.postgres, none⟩).map (·.statements) := by
  have hids : hashes.UnusedIn pets := hashes_unusedIn (by decide) (by decide)
  have hids' : hashes.UnusedIn
      (pets.rename (Equiv.swap "dog" "owner") (Equiv.swap "dog.id" "owner.id")) :=
    hashes_unusedIn (by decide) (by decide)
  refine ⟨hids, hids', ?_⟩
  exact statements_of_renamed_designs pets ⟨.postgres, none⟩ (Equiv.injective _).injOn
    (Equiv.injective _).injOn hids hids'

end Design

end SchemaDesign
