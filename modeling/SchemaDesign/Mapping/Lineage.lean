import SchemaDesign.Design.Issue
import SchemaDesign.Graph.Walk
import SchemaDesign.Log.Event

/-!
# Lineages

The base of a table is the target of its first inheritance relation, if that is a table of the
design, and otherwise the table itself; a target that is no table is warned of.  Following the bases
from a table gives its line, which ends with its root: a table that is its own base.  A table that
names itself as its parent is therefore a root.

A lineage exists exactly when the line of every table ends.  Otherwise the first table whose line
comes back to itself tells the cycle, without the tables that merely lead into it.
-/

namespace SchemaDesign

/-- The names of the tables of a cycle; the first one is repeated at the end. -/
structure InheritanceCycle where
  tables : List String
deriving Repr, DecidableEq

def InheritanceCycle.message (cycle : InheritanceCycle) : String :=
  "Inheritance cycle detected: " ++ " -> ".intercalate cycle.tables

namespace Design

def handleParent (design : Design) (table : Table) : Handling TableId :=
  match design.parentOf? table.id with
  | none => .passed
  | some parent =>
    if design.hasTable parent then .made parent else .warned (.unknownParent table.name parent)

def bases (design : Design) : List (TableId × TableId) :=
  design.tables.map fun table => (table.id, (design.handleParent table).made?.getD table.id)

def unknownParentReport (design : Design) : List Event :=
  design.tables.filterMap fun table => (design.handleParent table).warning?

/-- The step from a table to its base, if that is another table. -/
def properBase? (bases : List (TableId × TableId)) (id : TableId) : Option TableId :=
  (bases.lookup id).filter (· ≠ id)

theorem mem_of_properBase? {bases : List (TableId × TableId)} {id base : TableId}
    (h : properBase? bases id = some base) : id ∈ bases.map Prod.fst := by
  obtain ⟨hlookup, _⟩ := Option.filter_eq_some_iff.mp h
  obtain ⟨before, after, hbases, _⟩ := List.lookup_eq_some_iff.mp hlookup
  simp [hbases]

def stepsAlong (bases : List (TableId × TableId)) : Steps TableId where
  next := properBase? bases
  support := bases.map Prod.fst
  mem_support := mem_of_properBase?

def baseSteps (design : Design) : Steps TableId :=
  stepsAlong design.bases

/-- The part of a walk from the first passage through an element that came back. -/
def cyclePart (path : List TableId) (again : TableId) : List TableId :=
  path.reverse.dropWhile (· ≠ again) ++ [again]

/-- The table itself, its base, and so on up to the root, along the steps to the bases. -/
def lineAlong (design : Design) (steps : Steps TableId) (id : TableId) :
    Except InheritanceCycle (List TableId) :=
  match steps.walk [] id with
  | .ends path root => .ok (path.reverse ++ [root])
  | .repeats path again => .error ⟨(cyclePart path again).map design.displayName⟩

end Design

/-- The lines of the tables of a design; an id that is no table has only itself in its line. -/
structure Lineage where
  lines : List (TableId × List TableId)

namespace Lineage

def of (design : Design) : Except InheritanceCycle Lineage := do
  let steps := design.baseSteps
  let lines ← design.tables.mapM fun table => do
    return (table.id, ← design.lineAlong steps table.id)
  return ⟨lines⟩

def line (lineage : Lineage) (id : TableId) : List TableId :=
  (lineage.lines.lookup id).getD [id]

/-- The parent of a table, or the table itself. -/
def base (lineage : Lineage) (id : TableId) : TableId :=
  match lineage.line id with
  | _ :: base :: _ => base
  | _ => id

/-- The topmost ancestor of a table, or the table itself. -/
def root (lineage : Lineage) (id : TableId) : TableId :=
  (lineage.line id).getLastD id

def isRoot (lineage : Lineage) (id : TableId) : Bool :=
  lineage.root id == id

end Lineage

end SchemaDesign
