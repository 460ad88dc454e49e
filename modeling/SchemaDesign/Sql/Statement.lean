import SchemaDesign.Design.Basic
import SchemaDesign.Sql.CreateTable

/-!
# Statements of a design

A normal design becomes one statement for each table, in the order of the tables, after the
preamble of the dialect.  A foreign key comes from a relation that leads to the table: its source
is the key that is referred to, its target the column that refers.  A table with several primary
key columns declares them together in a clause, otherwise the key is marked on its column.
-/

namespace SchemaDesign

open Sql

structure Statement where
  label : String
  sql : String
deriving Repr, DecidableEq

namespace Design

/-- The table and column at the source of a relation, if both resolve. -/
def referencedKey? (design : Design) (relation : Relation) : Option Reference := do
  let table ← design.table? relation.source.table
  let column ← design.column? (← relation.source.column)
  return ⟨table.name, column.name⟩

/-- The reference on a column: that of the first relation that leads to it, if it resolves. -/
def inlineReference? (design : Design) (table : Table) (column : Column) : Option Reference :=
  ((design.relationsTo table.id).find? (·.target.column == some column.id)).bind
    design.referencedKey?

/-- The clauses for the relations that lead to a column of the table and resolve. -/
def referenceClauses (design : Design) (make : String → Reference → Constraint)
    (table : Table) : List Constraint :=
  (design.relationsTo table.id).filterMap fun relation => do
    let column ← (design.columnsOf table.id).find? fun column =>
      relation.target.column == some column.id
    let references ← design.referencedKey? relation
    return make column.name references

def primaryKeyNames (design : Design) (table : Table) : List String :=
  ((design.columnsOf table.id).filter (·.isPrimaryKey)).map (·.name)

/-- Whether the primary key is declared in a clause. -/
def hasCompositeKey (design : Design) (table : Table) : Bool :=
  (design.primaryKeyNames table).length > 1

/-- The definition of a column of a table; a key column of a composite key has no mark. -/
def columnDefinition (design : Design) (place : ForeignKeyPlace) (table : Table)
    (composite : Bool) (column : Column) : ColumnDefinition where
  name := column.name
  typeText := column.typeText
  isPrimaryKey := column.isPrimaryKey && !composite
  references := if place = .inline then design.inlineReference? table column else none

def keyClauses (design : Design) (table : Table) : List Constraint :=
  if design.hasCompositeKey table then [.primaryKey (design.primaryKeyNames table)] else []

def foreignKeyClauses (design : Design) (place : ForeignKeyPlace) (table : Table) :
    List Constraint :=
  match place with
  | .inline => []
  | .clause => design.referenceClauses (.foreignKey none) table
  | .namedClause => design.referenceClauses .namedForeignKey table

def createTable (design : Design) (place : ForeignKeyPlace) (table : Table) : CreateTable where
  name := table.name
  columns := (design.columnsOf table.id).map
    (design.columnDefinition place table (design.hasCompositeKey table))
  constraints := design.keyClauses table ++ design.foreignKeyClauses place table

def tableStatement (design : Design) (dialect : Dialect) (table : Table) : Statement where
  label := "Table " ++ table.name
  sql := (design.createTable dialect.foreignKeys table).text dialect

/-- The statement before all tables, if the dialect has one. -/
def preambleStatements (dialect : Dialect) : List Statement :=
  if dialect.preamble.isEmpty then [] else [⟨"Preamble", dialect.preamble⟩]

def statements (design : Design) (dialect : Dialect) : List Statement :=
  preambleStatements dialect ++ design.tables.map (design.tableStatement dialect)

end Design

end SchemaDesign
