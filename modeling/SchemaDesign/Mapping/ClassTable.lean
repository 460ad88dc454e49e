import SchemaDesign.Mapping.Lineage

/-!
# One table for each class

Every table stays.  A table below a root with a primary key gets a column that is its own primary
key and refers to the key of the root; the column has the name and the type of the root's first
key.  Tables below a root without a key get nothing, and this is warned of.
-/

namespace SchemaDesign

/-- A key column of a descendant and the relation that leads to it from the key of the root. -/
structure KeyLink where
  column : Column
  relation : Relation

/-- The link from a key to a table; the id is that of the new column. -/
def KeyLink.create (id : ColumnId) (root : TableId) (key : Column) (table : Table) : KeyLink where
  column := (Column.create id table.id key.name key.typeText).primaryKey.foreignKey.unique
  relation := .between .oneToOne root key.id table.id id

namespace Design

def handleDescendant (design : Design) (ids : IdSupply) (lineage : Lineage) (table : Table)
    (position : Nat) : Handling KeyLink :=
  if lineage.isRoot table.id then .passed
  else
    match design.table? (lineage.root table.id) with
    | none => .passed
    | some root =>
      match design.primaryKeyOf? root.id with
      | none => .warned (.rootWithoutKey root.name table.name)
      | some key => .made (.create (ids position) (lineage.root table.id) key table)

def handleDescendants (design : Design) (ids : IdSupply) (lineage : Lineage) :
    List (Handling KeyLink) :=
  design.tables.zipIdx.map fun (table, position) =>
    design.handleDescendant ids lineage table position

def keyLinks (design : Design) (ids : IdSupply) (lineage : Lineage) : List KeyLink :=
  (design.handleDescendants ids lineage).filterMap Handling.made?

def linkClasses (design : Design) (ids : IdSupply) (lineage : Lineage) : Design :=
  let links := design.keyLinks ids lineage
  { design with
    columns := design.columns ++ links.map (·.column)
    relations := design.relations ++ links.map (·.relation) }

def linkReport (design : Design) (ids : IdSupply) (lineage : Lineage) : List Event :=
  (design.handleDescendants ids lineage).filterMap Handling.warning? ++
    [.classesLinked (design.keyLinks ids lineage).length]

end Design

end SchemaDesign
