import SchemaDesign.Mapping.Lineage

/-!
# Only concrete tables

Every table receives copies of all columns of its ancestors, and then the abstract tables disappear
with their columns.  The tables are completed in an order in which each comes after its base, so a
table takes the columns of its base once, and these are already complete.
-/

namespace SchemaDesign

/-- The tables in an order in which each comes after its base, every id once. -/
def Lineage.basesFirst (lineage : Lineage) (tables : List Table) : List TableId :=
  tables.foldl
    (fun done table => done ++ ((lineage.line table.id).takeWhile (· ∉ done)).reverse) []

/-- Adds copies of the columns of its base to a table.  A copy takes the id at the position where
it stands in the list of columns. -/
def copyDown (ids : IdSupply) (lineage : Lineage) (columns : List Column) (id : TableId) :
    List Column :=
  let base := lineage.base id
  if base = id then columns
  else
    columns ++ ((columns.filter (·.table == base)).zipIdx columns.length).map
      fun (column, position) => column.copyTo (ids position) id

namespace Design

/-- The columns of the design and after them all copies. -/
def completedColumns (design : Design) (ids : IdSupply) (lineage : Lineage) : List Column :=
  (lineage.basesFirst design.tables).foldl (copyDown ids lineage) design.columns

def abstractIds (design : Design) : List TableId :=
  (design.tables.filter (·.isAbstract)).map (·.id)

def flattenHierarchies (design : Design) (ids : IdSupply) (lineage : Lineage) : Design :=
  let dropped := design.abstractIds
  { design with
    tables := design.tables.filter fun table => !table.isAbstract
    columns := (design.completedColumns ids lineage).filter fun column =>
      column.table ∉ dropped }

def flattenReport (design : Design) (ids : IdSupply) (lineage : Lineage) : List Event :=
  [.columnsCopied ((design.completedColumns ids lineage).length - design.columns.length)
    design.abstractIds.eraseDups.length]

end Design

end SchemaDesign
