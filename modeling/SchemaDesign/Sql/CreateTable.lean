import SchemaDesign.Sql.Dialect

/-!
# Table definitions

A table definition lists columns and constraints.  Its statement is one template for all dialects;
the name of a table is delimited wherever it stands, while the names and types of columns are
written as they are.
-/

namespace SchemaDesign.Sql

/-- The table and column that a foreign key refers to. -/
structure Reference where
  table : String
  column : String
deriving Repr, DecidableEq

structure ColumnDefinition where
  name : String
  typeText : String
  isPrimaryKey : Bool
  /-- A foreign key that stands on the column. -/
  references : Option Reference
deriving Repr, DecidableEq

inductive Constraint where
  | primaryKey (columns : List String)
  | foreignKey (name : Option String) (column : String) (references : Reference)
deriving Repr, DecidableEq

/-- A foreign key whose name is made from the column. -/
def Constraint.namedForeignKey (column : String) (references : Reference) : Constraint :=
  .foreignKey (some ("FK_" ++ column)) column references

structure CreateTable where
  name : String
  columns : List ColumnDefinition
  constraints : List Constraint
deriving Repr, DecidableEq

def Reference.text (dialect : Dialect) (target : Reference) : String :=
  "REFERENCES " ++ dialect.delimited target.table ++ "(" ++ target.column ++ ")"

def ColumnDefinition.text (dialect : Dialect) (column : ColumnDefinition) : String :=
  column.name ++ " " ++ column.typeText ++
    (if column.isPrimaryKey then " PRIMARY KEY" else "") ++
    (match column.references with
      | some target => " FOREIGN KEY " ++ target.text dialect
      | none => "")

def Constraint.text (dialect : Dialect) : Constraint → String
  | .primaryKey columns => "PRIMARY KEY (" ++ ", ".intercalate columns ++ ")"
  | .foreignKey name column references =>
    (match name with
      | some name => "CONSTRAINT " ++ name ++ " "
      | none => "") ++
      "FOREIGN KEY (" ++ column ++ ") " ++ references.text dialect

namespace CreateTable

/-- The columns and after them the constraints, each on a line of its own. -/
def lines (dialect : Dialect) (table : CreateTable) : List String :=
  table.columns.map (fun column => "  " ++ column.text dialect) ++
    table.constraints.map (fun constraint => "  " ++ constraint.text dialect)

def text (dialect : Dialect) (table : CreateTable) : String :=
  "CREATE TABLE " ++ dialect.delimited table.name ++ " (\n" ++
    ",\n".intercalate (table.lines dialect) ++ "\n)" ++ dialect.tableSuffix ++ ";"

end CreateTable

end SchemaDesign.Sql
