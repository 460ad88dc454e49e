import SchemaDesign.Mapping.SingleTable
import SchemaDesign.Mapping.ClassTable
import SchemaDesign.Mapping.ConcreteTable
import SchemaDesign.Mapping.Junction

/-!
# Normalization

A normal design has no inheritance, and its many-to-many relations are those that do not resolve;
so its tables are those of a database.  Normalization applies the mapping of the design's
inheritance kind, drops the inheritance relations and expands the many-to-many relations.  It fails
only when the inheritance relations run in a cycle.  What each stage does is logged; when the
lineages do not end, only the unknown parents have been warned of.

The mapping and the expansion draw their ids from two halves of the supply.
-/

namespace SchemaDesign.Design

/-- The design after the mapping of its inheritance kind; inheritance relations are still there. -/
def mapInheritance (design : Design) (ids : IdSupply) (lineage : Lineage) : Design :=
  match design.inheritance with
  | .singleTable => design.mergeHierarchies ids lineage
  | .classTable => design.linkClasses ids lineage
  | .concreteTable => design.flattenHierarchies ids lineage

def dropInheritance (design : Design) : Design :=
  { design with relations := design.relations.filter fun relation => !relation.isInheritance }

def mappingReport (design : Design) (ids : IdSupply) (lineage : Lineage) : List Event :=
  match design.inheritance with
  | .singleTable => design.mergeReport lineage
  | .classTable => design.linkReport ids lineage
  | .concreteTable => design.flattenReport ids lineage

def normalizing (design : Design) (ids : IdSupply) : Logging InheritanceCycle Design := do
  Logging.log design.unknownParentReport
  let lineage ← Lineage.of design
  let mapped := design.mapInheritance ids.left lineage
  Logging.log (design.mappingReport ids.left lineage)
  let remaining := mapped.dropInheritance
  Logging.log [.inheritanceDropped (mapped.relations.length - remaining.relations.length)]
  Logging.log remaining.junctionReport
  return remaining.expandJunctions ids.right

def normalize (design : Design) (ids : IdSupply) : Except InheritanceCycle Design :=
  (design.normalizing ids).outcome

def normalizationReport (design : Design) (ids : IdSupply) : List Event :=
  (design.normalizing ids).report

/-- The log aside, the lineages decide whether a normalization succeeds. -/
theorem normalize_eq (design : Design) (ids : IdSupply) :
    design.normalize ids = do
      let lineage ← Lineage.of design
      return ((design.mapInheritance ids.left lineage).dropInheritance).expandJunctions
        ids.right := by
  unfold normalize normalizing
  cases Lineage.of design with
  | error cycle => rfl
  | ok lineage => rfl

end SchemaDesign.Design
