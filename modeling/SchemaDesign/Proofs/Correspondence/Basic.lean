import SchemaDesign.Proofs.Design.Lookup
import SchemaDesign.Proofs.Related

/-!
# Corresponding designs

Ids are compared and never looked into.  So two designs whose ids correspond one to one, and which
list corresponding records in the same order, give corresponding answers to all lookups.
Corresponding records differ in nothing but their ids.
-/

open Relator

namespace SchemaDesign

/-! ### Records -/

/-- Which ids of one design correspond to which ids of another. -/
structure Correspondence where
  table : TableId → TableId → Prop
  column : ColumnId → ColumnId → Prop
  table_biUnique : BiUnique table
  column_biUnique : BiUnique column

namespace Correspondence

variable (c : Correspondence)

structure Tables (t t' : Table) : Prop where
  id : c.table t.id t'.id
  rest : t' = t.withId t'.id

structure Columns (x x' : Column) : Prop where
  id : c.column x.id x'.id
  table : c.table x.table x'.table
  rest : x' = { x with id := x'.id, table := x'.table }

structure Endpoints (e e' : Endpoint) : Prop where
  table : c.table e.table e'.table
  column : Option.Rel c.column e.column e'.column

structure Relations (r r' : Relation) : Prop where
  source : c.Endpoints r.source r'.source
  target : c.Endpoints r.target r'.target
  kind : r.kind = r'.kind

structure Designs (d d' : Design) : Prop where
  tables : List.Forall₂ c.Tables d.tables d'.tables
  columns : List.Forall₂ c.Columns d.columns d'.columns
  relations : List.Forall₂ c.Relations d.relations d'.relations
  inheritance : d.inheritance = d'.inheritance

variable {c}

namespace Tables

variable {t t' : Table}

theorem name (h : c.Tables t t') : t.name = t'.name := by
  rw [h.rest]
  rfl

theorem isAbstract (h : c.Tables t t') : t.isAbstract = t'.isAbstract := by
  rw [h.rest]
  rfl

theorem position (h : c.Tables t t') : t.position = t'.position := by
  rw [h.rest]
  rfl

end Tables

namespace Columns

variable {x x' : Column}

theorem name (h : c.Columns x x') : x.name = x'.name := by
  rw [h.rest]

theorem typeText (h : c.Columns x x') : x.typeText = x'.typeText := by
  rw [h.rest]

theorem isPrimaryKey (h : c.Columns x x') : x.isPrimaryKey = x'.isPrimaryKey := by
  rw [h.rest]

end Columns

theorem table_beq_eq {a a' b b' : TableId} (ha : c.table a a') (hb : c.table b b') :
    (a == b) = (a' == b') := by
  rw [Bool.eq_iff_iff, beq_iff_eq, beq_iff_eq]
  exact rel_eq c.table_biUnique ha hb

theorem column_beq_eq {a a' b b' : ColumnId} (ha : c.column a a') (hb : c.column b b') :
    (a == b) = (a' == b') := by
  rw [Bool.eq_iff_iff, beq_iff_eq, beq_iff_eq]
  exact rel_eq c.column_biUnique ha hb

theorem Endpoints.column_beq_eq {e e' : Endpoint} (h : c.Endpoints e e') {a a' : ColumnId}
    (ha : c.column a a') : (e.column == some a) = (e'.column == some a') := by
  obtain ⟨_, hcolumn⟩ := h
  generalize e.column = found, e'.column = found' at hcolumn
  cases hcolumn with
  | none => rfl
  | some hb => exact Correspondence.column_beq_eq hb ha

theorem Relations.isInheritance_eq {r r' : Relation} (h : c.Relations r r') :
    r.isInheritance = r'.isInheritance := by
  rw [Relation.isInheritance, h.kind, Relation.isInheritance]

/-! ### Lookups -/

variable {d d' : Design}

namespace Designs

theorem table? (h : c.Designs d d') {a a' : TableId} (ha : c.table a a') :
    Option.Rel c.Tables (d.table? a) (d'.table? a') :=
  forall₂_find? h.tables fun _ _ ht => table_beq_eq ht.id ha

theorem hasTable_eq (h : c.Designs d d') {a a' : TableId} (ha : c.table a a') :
    d.hasTable a = d'.hasTable a' :=
  isSome_eq_of_rel (h.table? ha)

theorem column? (h : c.Designs d d') {a a' : ColumnId} (ha : c.column a a') :
    Option.Rel c.Columns (d.column? a) (d'.column? a') :=
  forall₂_find? h.columns fun _ _ hx => column_beq_eq hx.id ha

theorem columnsOf (h : c.Designs d d') {a a' : TableId} (ha : c.table a a') :
    List.Forall₂ c.Columns (d.columnsOf a) (d'.columnsOf a') :=
  forall₂_filter h.columns fun _ _ hx => table_beq_eq hx.table ha

theorem primaryKeyOf? (h : c.Designs d d') {a a' : TableId} (ha : c.table a a') :
    Option.Rel c.Columns (d.primaryKeyOf? a) (d'.primaryKeyOf? a') :=
  forall₂_find? h.columns fun _ _ hx => by rw [table_beq_eq hx.table ha, hx.isPrimaryKey]

theorem relationsTo (h : c.Designs d d') {a a' : TableId} (ha : c.table a a') :
    List.Forall₂ c.Relations (d.relationsTo a) (d'.relationsTo a') :=
  forall₂_filter h.relations fun _ _ hr => table_beq_eq hr.target.table ha

theorem parentOf? (h : c.Designs d d') {a a' : TableId} (ha : c.table a a') :
    Option.Rel c.table (d.parentOf? a) (d'.parentOf? a') := by
  refine rel_option_map (r := c.Relations) (forall₂_find? h.relations ?_) ?_
  · intro r r' hr
    rw [table_beq_eq hr.source.table ha, hr.isInheritance_eq]
  · exact fun r r' hr => hr.target.table

end Designs

end Correspondence

end SchemaDesign
