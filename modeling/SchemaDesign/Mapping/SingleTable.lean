import SchemaDesign.Mapping.Lineage

/-!
# One table for each hierarchy

The columns of all descendants move to the root of their hierarchy, the ends of relations follow
them, and the descendants disappear.  A root that took in a descendant gets a column that tells
which kind of row is meant; these columns come last, in the order in which the first descendants of
the roots are listed.
-/

namespace SchemaDesign

/-- The roots that take in a descendant. -/
def Lineage.absorbingRoots (lineage : Lineage) (tables : List Table) : List TableId :=
  ((tables.filter fun table => !lineage.isRoot table.id).map fun table =>
    lineage.root table.id).eraseDups

/-- The column that tells which kind of row is meant. -/
def Table.discriminator (table : Table) (id : ColumnId) (owner : TableId) : Column :=
  (Column.create id owner (table.name ++ "_TYPE") "INT").notNull

def Endpoint.atRoot (lineage : Lineage) (endpoint : Endpoint) : Endpoint :=
  { endpoint with table := lineage.root endpoint.table }

def Relation.atRoots (lineage : Lineage) (relation : Relation) : Relation :=
  { relation with
    source := relation.source.atRoot lineage
    target := relation.target.atRoot lineage }

def Column.atRoot (lineage : Lineage) (column : Column) : Column :=
  { column with table := lineage.root column.table }

namespace Design

def discriminators (design : Design) (ids : IdSupply) (lineage : Lineage) : List Column :=
  (lineage.absorbingRoots design.tables).zipIdx.filterMap fun (root, position) =>
    (design.table? root).map fun table => table.discriminator (ids position) root

def mergeHierarchies (design : Design) (ids : IdSupply) (lineage : Lineage) : Design :=
  { design with
    tables := design.tables.filter fun table => lineage.isRoot table.id
    columns := design.columns.map (·.atRoot lineage) ++ design.discriminators ids lineage
    relations := design.relations.map (·.atRoots lineage) }

/-- The ids of the tables that are not their own root, every id once. -/
def absorbedIds (design : Design) (lineage : Lineage) : List TableId :=
  ((design.tables.filter fun table => !lineage.isRoot table.id).map (·.id)).eraseDups

def mergeReport (design : Design) (lineage : Lineage) : List Event :=
  let absorbed := design.absorbedIds lineage
  if absorbed.isEmpty then []
  else [.hierarchiesMerged absorbed.length (lineage.absorbingRoots design.tables).length]

end Design

end SchemaDesign
