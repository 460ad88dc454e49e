import SchemaDesign.Log.Event

/-!
# Junction tables

A many-to-many relation whose two tables and two columns resolve becomes a table of its own, the
junction, with one key column for each side and a one-to-many relation from each side to its
column.  Every relation has its own junction, even where two relations join the same tables.  A
many-to-many relation with an end that does not resolve stays as it is, and this is warned of.
-/

namespace SchemaDesign

/-- The two resolved sides of a many-to-many relation. -/
structure Junction where
  source : Table
  sourceKey : Column
  target : Table
  targetKey : Column

namespace Junction

def table (junction : Junction) (id : TableId) : Table :=
  { Table.create id (junction.source.name ++ "_" ++ junction.target.name) with
    position := junction.source.position.midpoint junction.target.position }

/-- The key column for one side, typed like the key it refers to. -/
def keyColumn (id : ColumnId) (owner : TableId) (referenced : Table) (key : Column) : Column :=
  (Column.create id owner (referenced.name ++ "Id") key.typeText).primaryKey.foreignKey

/-- The columns of the junction; the three ids are those of its table and of its two columns. -/
def columns (junction : Junction) (id : TableId) (sourceId targetId : ColumnId) : List Column :=
  [ keyColumn sourceId id junction.source junction.sourceKey,
    keyColumn targetId id junction.target junction.targetKey ]

def relations (junction : Junction) (id : TableId) (sourceId targetId : ColumnId) :
    List Relation :=
  [ .between .oneToMany junction.source.id junction.sourceKey.id id sourceId,
    .between .oneToMany junction.target.id junction.targetKey.id id targetId ]

end Junction

namespace Design

def resolveEnds? (design : Design) (relation : Relation) : Option Junction := do
  let source ← design.table? relation.source.table
  let sourceKey ← design.column? (← relation.source.column)
  let target ← design.table? relation.target.table
  let targetKey ← design.column? (← relation.target.column)
  return ⟨source, sourceKey, target, targetKey⟩

def handleRelation (design : Design) (relation : Relation) : Handling Junction :=
  if relation.kind = .manyToMany then
    match design.resolveEnds? relation with
    | some junction => .made junction
    | none => .warned (.unresolvedEnds relation.source.table relation.target.table)
  else .passed

def junction? (design : Design) (relation : Relation) : Option Junction :=
  (design.handleRelation relation).made?

/-- The junctions of all relations that become one, in the order of the relations. -/
def junctions (design : Design) : List Junction :=
  design.relations.filterMap design.junction?

/-- The junction at each position takes three ids of the supply. -/
def expandJunctions (design : Design) (ids : IdSupply) : Design :=
  let junctions := design.junctions.zipIdx
  { design with
    tables := design.tables ++ junctions.map fun (junction, position) =>
      junction.table (ids (3 * position))
    columns := design.columns ++ junctions.flatMap fun (junction, position) =>
      junction.columns (ids (3 * position)) (ids (3 * position + 1)) (ids (3 * position + 2))
    relations := design.relations.filter (fun relation => (design.junction? relation).isNone) ++
      junctions.flatMap fun (junction, position) =>
        junction.relations (ids (3 * position)) (ids (3 * position + 1)) (ids (3 * position + 2)) }

def junctionReport (design : Design) : List Event :=
  design.relations.filterMap (fun relation => (design.handleRelation relation).warning?) ++
    [.junctionsMade design.junctions.length]

end Design

end SchemaDesign
