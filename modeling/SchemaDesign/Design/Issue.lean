import SchemaDesign.Design.Basic
import SchemaDesign.Graph.Components

/-!
# Issues of a design

A design that was not built through the gates may hold anything.  The issues of a design are all
its structural problems at once, in a fixed order: tables with several parents, cycles of the
inheritance relations, columns without a table, and ends of relations that do not resolve.

Cycles are the strongly connected components of the graph of all inheritance relations between
tables, several parents included.  A component counts when it has two nodes or more, or a node
that is its own successor.  The successors of a table are followed from the last relation to the
first.
-/

namespace SchemaDesign

/-- What an end of a relation refers to in vain. -/
inductive Missing where
  | table (id : TableId)
  /-- A data relation without a column at this end. -/
  | noColumn
  | column (id : ColumnId)
  /-- The column exists, but on another table. -/
  | columnOn (id : ColumnId) (owner : TableId)
deriving Repr, DecidableEq

def Missing.text : Missing → String
  | .table id => "table '" ++ id ++ "'"
  | .noColumn => "column (none given)"
  | .column id => "column '" ++ id ++ "'"
  | .columnOn id owner => "column '" ++ id ++ "' on table '" ++ owner ++ "'"

inductive Issue where
  /-- The tables of a cycle. -/
  | inheritanceCycle (tables : List Table)
  /-- A table and the names of its parents, or their ids where they are no tables. -/
  | multipleInheritance (table : Table) (parents : List String)
  | orphanColumn (column : Column)
  | danglingRelation (relation : Relation) (missing : Missing)

def Relation.label (relation : Relation) : String :=
  relation.kind.name ++ " " ++ relation.source.table ++ " -> " ++ relation.target.table

def Issue.text : Issue → String
  | .inheritanceCycle tables => "Inheritance cycle: " ++ " -> ".intercalate (tables.map (·.name))
  | .multipleInheritance table parents =>
    "Table '" ++ table.name ++ "' inherits from several tables: " ++ ", ".intercalate parents
  | .orphanColumn column =>
    "Column '" ++ column.name ++ "' belongs to unknown table '" ++ column.table ++ "'"
  | .danglingRelation relation missing =>
    "Relation " ++ relation.label ++ " references unknown " ++ missing.text

namespace Design

/-- The targets of all inheritance relations from a table, whether they are tables or not. -/
def parents (design : Design) (id : TableId) : List TableId :=
  ((design.relationsFrom id).filter (·.isInheritance)).map (·.target.table)

/-- The name of a table, or the id itself if there is no such table. -/
def displayName (design : Design) (id : TableId) : String :=
  match design.table? id with
  | some table => table.name
  | none => id

/-- The positions of the parents of the table at a position, the last one first. -/
def parentPositions (design : Design) (position : Nat) : List Nat :=
  match design.tables[position]? with
  | some table =>
    ((design.parents table.id).filterMap fun id =>
      design.tables.findIdx? (·.id == id)).reverse
  | none => []

/-- Whether the tables at these positions lie on a cycle, given that they form a component. -/
def isCyclic (design : Design) : List Nat → Bool
  | [position] => (design.parentPositions position).contains position
  | positions => positions.length > 1

def cycles (design : Design) : List (List Nat) :=
  (Graph.components design.tables.length design.parentPositions).filter design.isCyclic

def multipleInheritanceIssues (design : Design) : List Issue :=
  design.tables.filterMap fun table =>
    let parents := design.parents table.id
    if parents.length > 1 then
      some (.multipleInheritance table (parents.map design.displayName))
    else none

def cycleIssues (design : Design) : List Issue :=
  design.cycles.map fun positions =>
    .inheritanceCycle (positions.filterMap fun position => design.tables[position]?)

def columnIssues (design : Design) : List Issue :=
  (design.columns.filter fun column => !design.hasTable column.table).map .orphanColumn

def missingTable (design : Design) (endpoint : Endpoint) : List Missing :=
  if design.hasTable endpoint.table then [] else [.table endpoint.table]

def missingColumn (design : Design) (endpoint : Endpoint) : List Missing :=
  match endpoint.column with
  | none => [.noColumn]
  | some id =>
    match design.column? id with
    | none => [.column id]
    | some column =>
      if column.table = endpoint.table then [] else [.columnOn id endpoint.table]

def relationIssues (design : Design) (relation : Relation) : List Issue :=
  let tables := design.missingTable relation.source ++ design.missingTable relation.target
  let columns :=
    if relation.isInheritance then []
    else design.missingColumn relation.source ++ design.missingColumn relation.target
  (tables ++ columns).map (.danglingRelation relation)

def issues (design : Design) : List Issue :=
  design.multipleInheritanceIssues ++ design.cycleIssues ++ design.columnIssues ++
    design.relations.flatMap design.relationIssues

end Design

end SchemaDesign
