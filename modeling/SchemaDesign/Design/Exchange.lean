import SchemaDesign.Design.Basic
import SchemaDesign.Json.Codec
import SchemaDesign.Json.Printer

/-!
# The exchange form of designs

A design is exchanged as a record of three lists of flat records and the name of its inheritance
kind.  Reading is lenient: absent lists are empty, absent ids are nil, absent flags are false, and
a kind that is absent or not known is the first of its sort.  A kind may also be given by its
position.  Colors, default values and the columns of a relation are left out when absent.
-/

namespace SchemaDesign

open Json

/-- The kind that a value stands for: a name, or a natural number that is the kind's position. -/
def kindOf {κ : Type} (default : κ) (ofName? : String → Option κ) (ofIndex? : Nat → Option κ)
    (value : Value) : κ :=
  let found := match value with
    | .text name => ofName? name
    | .number index => index.natural?.bind ofIndex?
    | _ => none
  found.getD default

/-- How deep values may be nested in a whole text. -/
def nestingLimit : Nat := 127

/-- The kind stands in a record inside a list inside the design. -/
def relationKindCodec : Codec RelationKind :=
  .kind (nestingLimit - 3) RelationKind.name
    (kindOf .oneToOne RelationKind.ofName? RelationKind.ofIndex?)

def inheritanceKindCodec : Codec InheritanceKind :=
  .kind (nestingLimit - 1) InheritanceKind.name
    (kindOf .singleTable InheritanceKind.ofName? InheritanceKind.ofIndex?)

namespace Table

def fields : List (RecordField Table) :=
  [ .of "id" .text (·.id) fun table id => { table with id := id },
    .of "name" .text (·.name) fun table name => { table with name := name },
    .of "posX" .number (·.position.x) fun table x => { table with position.x := x },
    .of "posY" .number (·.position.y) fun table y => { table with position.y := y },
    .of "isAbstract" .flag (·.isAbstract) fun table value => { table with isAbstract := value },
    .of "color" .optionalText (·.color) fun table color => { table with color := color } ]

def codec : Codec Table :=
  .record ⟨nilId, "", .origin, false, none⟩ fields

end Table

namespace Column

def fields : List (RecordField Column) :=
  [ .of "id" .text (·.id) fun column id => { column with id := id },
    .of "tableId" .text (·.table) fun column table => { column with table := table },
    .of "name" .text (·.name) fun column name => { column with name := name },
    .of "type" .text (·.typeText) fun column text => { column with typeText := text },
    .of "isPrimaryKey" .flag (·.isPrimaryKey) fun column value =>
      { column with isPrimaryKey := value },
    .of "isForeignKey" .flag (·.isForeignKey) fun column value =>
      { column with isForeignKey := value },
    .of "isNullable" .flag (·.isNullable) fun column value => { column with isNullable := value },
    .of "isUnique" .flag (·.isUnique) fun column value => { column with isUnique := value },
    .of "defaultValue" .optionalText (·.defaultValue) fun column value =>
      { column with defaultValue := value } ]

def codec : Codec Column :=
  .record ⟨nilId, nilId, "", "", false, false, false, false, none⟩ fields

end Column

namespace Relation

def fields : List (RecordField Relation) :=
  [ .of "sourceTableId" .text (·.source.table) fun relation table =>
      { relation with source.table := table },
    .of "sourceColumnId" .optionalText (·.source.column) fun relation column =>
      { relation with source.column := column },
    .of "targetTableId" .text (·.target.table) fun relation table =>
      { relation with target.table := table },
    .of "targetColumnId" .optionalText (·.target.column) fun relation column =>
      { relation with target.column := column },
    .of "kind" relationKindCodec (·.kind) fun relation kind => { relation with kind := kind } ]

def codec : Codec Relation :=
  .record ⟨⟨nilId, none⟩, ⟨nilId, none⟩, .oneToOne⟩ fields

end Relation

namespace Design

def fields : List (RecordField Design) :=
  [ .of "tables" (.list Table.codec) (·.tables) fun design tables =>
      { design with tables := tables },
    .of "columns" (.list Column.codec) (·.columns) fun design columns =>
      { design with columns := columns },
    .of "relations" (.list Relation.codec) (·.relations) fun design relations =>
      { design with relations := relations },
    .of "tableInheritanceKind" inheritanceKindCodec (·.inheritance) fun design kind =>
      { design with inheritance := kind } ]

def codec : Codec Design :=
  .record (.empty .singleTable) fields

def ofText (text : String) : Except Fault Design :=
  codec.ofText text

def toValue (design : Design) : Value :=
  codec.toValue design

def compact (design : Design) : String :=
  design.toValue.compact

def pretty (design : Design) : String :=
  design.toValue.pretty

end Design

end SchemaDesign
