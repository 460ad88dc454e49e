import SchemaDesign.Design.Basic
import SchemaDesign.Graph.Walk

/-!
# Gates for new relations

A gate decides whether a relation may be added to a design.  The gate for inheritance keeps the
hierarchies chains of single parents without cycles: it walks up from the new parent and refuses
when the walk meets the child or does not end.  The gate for data relations asks that a primary key
of one table leads to a key of another.
-/

namespace SchemaDesign

inductive Rejection where
  | selfInheritance
  | unknownTable (id : TableId)
  /-- The named table has a parent already. -/
  | multipleInheritance (table : String)
  | inheritanceCycle (child parent : String)
  | sameTable
  | sameColumn
  | unknownColumn (id : ColumnId)
  | sourceNotPrimaryKey (column : String)
  | targetNotKey (column : String)
  | inheritanceOnColumns
deriving Repr, DecidableEq

def Rejection.message : Rejection → String
  | .selfInheritance => "A table cannot inherit from itself"
  | .unknownTable id => "Unknown table: " ++ id
  | .multipleInheritance table => "Table '" ++ table ++ "' already inherits from another table"
  | .inheritanceCycle child parent =>
    "Inheritance from '" ++ parent ++ "' would close a cycle through '" ++ child ++ "'"
  | .sameTable => "A data relation cannot connect a table to itself"
  | .sameColumn => "A data relation cannot connect a column to itself"
  | .unknownColumn id => "Unknown column: " ++ id
  | .sourceNotPrimaryKey column =>
    "Connection must originate from a primary key column, '" ++ column ++ "' is not one"
  | .targetNotKey column =>
    "Connection must target a primary or foreign key column, '" ++ column ++ "' is neither"
  | .inheritanceOnColumns => "Inheritance cannot be declared between columns"

namespace Design

theorem source_mem_of_parentOf? {design : Design} {id parent : TableId}
    (h : design.parentOf? id = some parent) :
    id ∈ design.relations.map (·.source.table) := by
  simp only [parentOf?, Option.map_eq_some_iff] at h
  obtain ⟨relation, hfind, -⟩ := h
  have hmem := List.mem_of_find?_eq_some hfind
  have hsome := List.find?_some hfind
  simp only [Bool.and_eq_true, beq_iff_eq] at hsome
  exact List.mem_map.mpr ⟨relation, hmem, hsome.1⟩

def parentSteps (design : Design) : Steps TableId where
  next := design.parentOf?
  support := design.relations.map (·.source.table)
  mem_support := source_mem_of_parentOf?

def checkInheritance (design : Design) (child parent : TableId) : Except Rejection Unit :=
  if child = parent then .error .selfInheritance
  else
    match design.table? child with
    | none => .error (.unknownTable child)
    | some childTable =>
      match design.table? parent with
      | none => .error (.unknownTable parent)
      | some parentTable =>
        if (design.parentOf? child).isSome then .error (.multipleInheritance childTable.name)
        else if (design.parentSteps.walk [child] parent).isFinite then .ok ()
        else .error (.inheritanceCycle childTable.name parentTable.name)

def checkData (design : Design) (kind : RelationKind) (sourceTable : TableId)
    (sourceColumn : ColumnId) (targetTable : TableId) (targetColumn : ColumnId) :
    Except Rejection Unit :=
  if sourceTable = targetTable then .error .sameTable
  else if sourceColumn = targetColumn then .error .sameColumn
  else
    match design.column? sourceColumn with
    | none => .error (.unknownColumn sourceColumn)
    | some source =>
      match design.column? targetColumn with
      | none => .error (.unknownColumn targetColumn)
      | some target =>
        if !source.isPrimaryKey then .error (.sourceNotPrimaryKey source.name)
        else if !target.isPrimaryKey && !target.isForeignKey then
          .error (.targetNotKey target.name)
        else if kind = .inheritsFrom then .error .inheritanceOnColumns
        else .ok ()

end Design

end SchemaDesign
