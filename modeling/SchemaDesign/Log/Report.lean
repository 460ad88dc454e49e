import SchemaDesign.Compilation
import SchemaDesign.Edit

/-!
# Reports of loading, gates and edits

A design that is taken over for editing is reported with its size.  A gate reports what it refuses.
Of the edits only the removal of a table reports what it took along.
-/

namespace SchemaDesign

namespace Design

def loadReport (design : Design) : List Event :=
  [.designLoaded design.tables.length design.columns.length design.relations.length]

def inheritanceGateReport (design : Design) (child parent : TableId) : List Event :=
  match design.checkInheritance child parent with
  | .ok () => []
  | .error rejection => [.inheritanceRefused rejection child parent]

def dataGateReport (design : Design) (kind : RelationKind) (sourceTable : TableId)
    (source : ColumnId) (targetTable : TableId) (target : ColumnId) : List Event :=
  match design.checkData kind sourceTable source targetTable target with
  | .ok () => []
  | .error rejection => [.dataRefused rejection source target]

end Design

def Edit.report (edit : Edit) (design : Design) : List Event :=
  match edit with
  | .removeTable id =>
    match (Editing.removeTable id).on design with
    | (.ok table, rest) =>
      [.tableRemoved table.name (design.columns.length - rest.columns.length)
        (design.relations.length - rest.relations.length)]
    | (.error _, _) => []
  | _ => []

end SchemaDesign
