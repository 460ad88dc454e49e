import SchemaDesign.Sql.Statement
import SchemaDesign.Proofs.Related

/-!
# What the definition of a table depends on

The definition of a table shows its columns in order, and for each relation that leads to the table
which of these columns it aims at and to which key it refers.  The ids behind all that do not show,
so tables of two designs that agree in it have the same definition in every dialect.
-/

namespace SchemaDesign

/-- The two columns show the same text. -/
structure Column.Alike (x x' : Column) : Prop where
  name : x.name = x'.name
  typeText : x.typeText = x'.typeText
  isPrimaryKey : x.isPrimaryKey = x'.isPrimaryKey

theorem Column.Alike.refl (x : Column) : x.Alike x :=
  ⟨rfl, rfl, rfl⟩

namespace Design

/-- A referenced key is found through the source of the relation alone. -/
theorem referencedKey?_congr {d d' : Design} {r r' : Relation} (hsource : r.source = r'.source)
    (htable : d.table? r.source.table = d'.table? r.source.table)
    (hcolumn : ∀ id, r.source.column = some id → d.column? id = d'.column? id) :
    d.referencedKey? r = d'.referencedKey? r' := by
  unfold referencedKey?
  rw [← hsource, htable]
  cases hid : r.source.column with
  | none => rfl
  | some id =>
      simp only [Option.bind_eq_bind, Option.bind_some]
      rw [hcolumn id hid]

/-- The column is the one that the relation leads to. -/
def aimsAt (r : Relation) (x : Column) : Bool :=
  r.target.column == some x.id

/-- What the definitions of two tables show is the same. -/
structure DefinedAlike (d : Design) (t : Table) (d' : Design) (t' : Table) : Prop where
  name : t.name = t'.name
  columns : List.Forall₂ Column.Alike (d.columnsOf t.id) (d'.columnsOf t'.id)
  references : List.Forall₂ (fun r r' => d.referencedKey? r = d'.referencedKey? r')
    (d.relationsTo t.id) (d'.relationsTo t'.id)
  aims : ∀ x x', (x, x') ∈ (d.columnsOf t.id).zip (d'.columnsOf t'.id) →
    ∀ r r', (r, r') ∈ (d.relationsTo t.id).zip (d'.relationsTo t'.id) →
      aimsAt r x = aimsAt r' x'

namespace DefinedAlike

variable {d d' : Design} {t t' : Table}

theorem primaryKeyNames_eq (h : d.DefinedAlike t d' t') :
    d.primaryKeyNames t = d'.primaryKeyNames t' :=
  map_eq_of_forall₂ (forall₂_filter h.columns fun _ _ hx => hx.isPrimaryKey) fun _ _ hx => hx.name

theorem hasCompositeKey_eq (h : d.DefinedAlike t d' t') :
    d.hasCompositeKey t = d'.hasCompositeKey t' := by
  rw [hasCompositeKey, h.primaryKeyNames_eq, hasCompositeKey]

theorem inlineReference?_eq (h : d.DefinedAlike t d' t') {x x' : Column}
    (hx : (x, x') ∈ (d.columnsOf t.id).zip (d'.columnsOf t'.id)) :
    d.inlineReference? t x = d'.inlineReference? t' x' := by
  have hfirst := forall₂_find? (forall₂_and_mem_zip h.references)
    (p := fun r => aimsAt r x) (q := fun r => aimsAt r x')
    fun r r' hr => h.aims x x' hx r r' hr.2
  unfold aimsAt at hfirst
  unfold inlineReference?
  generalize (d.relationsTo t.id).find? _ = found, (d'.relationsTo t'.id).find? _ = found' at hfirst
  cases hfirst with
  | none => rfl
  | some hr => exact hr.1

theorem referenceClauses_eq (h : d.DefinedAlike t d' t') (make : String → Sql.Reference →
    Sql.Constraint) : d.referenceClauses make t = d'.referenceClauses make t' := by
  refine filterMap_eq_of_forall₂ (forall₂_and_mem_zip h.references) ?_
  rintro r r' ⟨hreference, hr⟩
  have hcolumn := forall₂_find? (forall₂_and_mem_zip h.columns)
    (p := fun x => aimsAt r x) (q := fun x => aimsAt r' x)
    fun x x' hx => h.aims x x' hx.2 r r' hr
  unfold aimsAt at hcolumn
  rw [hreference]
  generalize (d.columnsOf t.id).find? _ = found, (d'.columnsOf t'.id).find? _ = found' at hcolumn
  cases hcolumn with
  | none => rfl
  | some hx => simp only [Option.bind_eq_bind, Option.bind_some, hx.1.name]

theorem createTable_eq (h : d.DefinedAlike t d' t') (place : ForeignKeyPlace) :
    d.createTable place t = d'.createTable place t' := by
  have hcolumns : (d.columnsOf t.id).map (d.columnDefinition place t (d.hasCompositeKey t)) =
      (d'.columnsOf t'.id).map (d'.columnDefinition place t' (d'.hasCompositeKey t')) := by
    refine map_eq_of_forall₂ (forall₂_and_mem_zip h.columns) ?_
    rintro x x' ⟨halike, hx⟩
    simp only [columnDefinition, halike.name, halike.typeText, halike.isPrimaryKey,
      h.hasCompositeKey_eq, h.inlineReference?_eq hx]
  have hkeys : d.keyClauses t = d'.keyClauses t' := by
    rw [keyClauses, h.hasCompositeKey_eq, h.primaryKeyNames_eq, keyClauses]
  have hforeign : d.foreignKeyClauses place t = d'.foreignKeyClauses place t' := by
    cases place with
    | inline => rfl
    | clause => exact h.referenceClauses_eq _
    | namedClause => exact h.referenceClauses_eq _
  unfold createTable
  rw [h.name, hcolumns, hkeys, hforeign]

theorem tableStatement_eq (h : d.DefinedAlike t d' t') (dialect : Dialect) :
    d.tableStatement dialect t = d'.tableStatement dialect t' := by
  rw [tableStatement, h.name, h.createTable_eq, tableStatement]

end DefinedAlike

end Design

end SchemaDesign
