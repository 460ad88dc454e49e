import SchemaDesign.Design.Gate

/-!
# Edits

A design is built by edits.  Every new relation passes a gate, ids are not used twice, and removing
a table or a column takes along what refers to it.  An edit looks at the design and changes it in
steps.  When it is refused at one of them, it gives the reason, and what the steps before it have
changed stays changed.
-/

namespace SchemaDesign

inductive EditError where
  | tableNotFound (id : TableId)
  | columnNotFound (id : ColumnId)
  | duplicateId (id : String)
  | duplicateRelation
  | rejected (rejection : Rejection)
deriving Repr, DecidableEq

def EditError.message : EditError → String
  | .tableNotFound id => "Table not found: " ++ id
  | .columnNotFound id => "Column not found: " ++ id
  | .duplicateId id => "Id already in use: " ++ id
  | .duplicateRelation => "Relation already exists"
  | .rejected rejection => "Relation rejected: " ++ rejection.message

def modifyFirst {α : Type} (property : α → Bool) (change : α → α) : List α → List α
  | [] => []
  | x :: others =>
    if property x then change x :: others else x :: modifyFirst property change others

/-- Steps that read and change the design at hand, and may refuse to go on. -/
abbrev Editing (α : Type) : Type := ExceptT EditError (StateM Design) α

def Editing.on {α : Type} (steps : Editing α) (design : Design) : Except EditError α × Design :=
  (ExceptT.run steps).run design

namespace Design

def addRelation (design : Design) (relation : Relation) : Design :=
  { design with relations := design.relations ++ [relation] }

def columnRelation? (design : Design) (source target : ColumnId) : Option Relation :=
  design.relations.find? (·.joins source target)

def isInheritanceBetween (child parent : TableId) (relation : Relation) : Bool :=
  relation.isInheritance && relation.source.table == child && relation.target.table == parent

def setInheritance (design : Design) (kind : InheritanceKind) : Design :=
  { design with inheritance := kind }

/-- Removes everything but the inheritance kind. -/
def clear (design : Design) : Design :=
  .empty design.inheritance

end Design

namespace Editing

/-- A refusal of a gate is a refusal of the edit. -/
def pass : Except Rejection Unit → Editing Unit
  | .ok () => return ()
  | .error rejection => throw (.rejected rejection)

def changeTables (change : List Table → List Table) : Editing Unit :=
  modify fun design => { design with tables := change design.tables }

def changeColumns (change : List Column → List Column) : Editing Unit :=
  modify fun design => { design with columns := change design.columns }

def changeRelations (change : List Relation → List Relation) : Editing Unit :=
  modify fun design => { design with relations := change design.relations }

/-! ### Tables -/

def addTable (table : Table) : Editing TableId := do
  if (← get).hasTable table.id then throw (.duplicateId table.id)
  changeTables (· ++ [table])
  return table.id

def updateTable (table : Table) : Editing Unit := do
  let some _ := (← get).table? table.id | throw (.tableNotFound table.id)
  changeTables (modifyFirst (·.id == table.id) fun _ => table)

/-- Removes the first table with the id, the columns of that id and the relations that touch it. -/
def removeTable (id : TableId) : Editing Table := do
  let some table := (← get).table? id | throw (.tableNotFound id)
  changeTables (·.eraseP (·.id == id))
  changeColumns (·.filter (·.table != id))
  changeRelations (·.filter (!·.touchesTable id))
  return table

/-! ### Columns -/

def addColumn (column : Column) : Editing ColumnId := do
  if !(← get).hasTable column.table then throw (.tableNotFound column.table)
  if ((← get).column? column.id).isSome then throw (.duplicateId column.id)
  changeColumns (· ++ [column])
  return column.id

/-- Replaces the first column with the same id; the column may move to another table. -/
def updateColumn (column : Column) : Editing Unit := do
  if !(← get).hasTable column.table then throw (.tableNotFound column.table)
  let some _ := (← get).column? column.id | throw (.columnNotFound column.id)
  changeColumns (modifyFirst (·.id == column.id) fun _ => column)

def removeColumn (id : ColumnId) : Editing Column := do
  let some column := (← get).column? id | throw (.columnNotFound id)
  changeColumns (·.eraseP (·.id == id))
  changeRelations (·.filter (!·.touchesColumn id))
  return column

/-! ### Relations -/

def connectTables (child parent : TableId) : Editing Unit := do
  pass ((← get).checkInheritance child parent)
  modify (·.addRelation (.inherits child parent))

def tableOf (id : ColumnId) : Editing TableId := do
  let some column := (← get).column? id | throw (.columnNotFound id)
  return column.table

def connectColumns (kind : RelationKind) (source target : ColumnId) : Editing Unit := do
  let sourceTable ← tableOf source
  let targetTable ← tableOf target
  pass ((← get).checkData kind sourceTable source targetTable target)
  if ((← get).columnRelation? source target).isSome then throw .duplicateRelation
  modify (·.addRelation (.between kind sourceTable source targetTable target))

def setRelationKind (kind : RelationKind) (source target : ColumnId) : Editing Unit := do
  if kind = .inheritsFrom then throw (.rejected .inheritanceOnColumns)
  let some _ := (← get).columnRelation? source target | throw (.columnNotFound target)
  changeRelations (modifyFirst (·.joins source target) fun relation =>
    { relation with kind := kind })

/-- Removes the first relation with a property, and tells whether there was one. -/
def removeRelation (property : Relation → Bool) : Editing Bool := do
  let found := (← get).relations.any property
  changeRelations (·.eraseP property)
  return found

def disconnectTables (child parent : TableId) : Editing Bool :=
  removeRelation (Design.isInheritanceBetween child parent)

def disconnectColumns (source target : ColumnId) : Editing Bool :=
  removeRelation (·.joins source target)

end Editing

/-- The ways to change a design step by step. -/
inductive Edit where
  | addTable (table : Table)
  | updateTable (table : Table)
  | removeTable (id : TableId)
  | addColumn (column : Column)
  | updateColumn (column : Column)
  | removeColumn (id : ColumnId)
  | connectTables (child parent : TableId)
  | connectColumns (kind : RelationKind) (source target : ColumnId)
  | setRelationKind (kind : RelationKind) (source target : ColumnId)
  | disconnectTables (child parent : TableId)
  | disconnectColumns (source target : ColumnId)
  | setInheritance (kind : InheritanceKind)
  | clear

namespace Edit

inductive Answer where
  | done
  | added (id : String)
  | removedTable (table : Table)
  | removedColumn (column : Column)
  /-- Whether there was a relation to remove. -/
  | existed (found : Bool)

def steps : Edit → Editing Answer
  | .addTable table => return .added (← Editing.addTable table)
  | .updateTable table => do
    Editing.updateTable table
    return .done
  | .removeTable id => return .removedTable (← Editing.removeTable id)
  | .addColumn column => return .added (← Editing.addColumn column)
  | .updateColumn column => do
    Editing.updateColumn column
    return .done
  | .removeColumn id => return .removedColumn (← Editing.removeColumn id)
  | .connectTables child parent => do
    Editing.connectTables child parent
    return .done
  | .connectColumns kind source target => do
    Editing.connectColumns kind source target
    return .done
  | .setRelationKind kind source target => do
    Editing.setRelationKind kind source target
    return .done
  | .disconnectTables child parent => return .existed (← Editing.disconnectTables child parent)
  | .disconnectColumns source target => return .existed (← Editing.disconnectColumns source target)
  | .setInheritance kind => do
    modify (·.setInheritance kind)
    return .done
  | .clear => do
    modify (·.clear)
    return .done

/-- The answer to an edit, or why it is refused, and the design that it leaves. -/
def apply (edit : Edit) (design : Design) : Except EditError Answer × Design :=
  edit.steps.on design

def next (design : Design) (edit : Edit) : Design :=
  (edit.apply design).2

def run (design : Design) (edits : List Edit) : Design :=
  edits.foldl next design

end Edit

end SchemaDesign
