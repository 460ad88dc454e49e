import SchemaDesign.Mapping.Normalize
import SchemaDesign.Sql.Statement

/-!
# Compilation

A design is compiled by normalizing it and writing the statements of the normal design.  The
inheritance kind of the design can be replaced for the occasion.  The statements are put together
into a script with a separator between them; an annotated script has a comment line with its label
above each statement.
-/

namespace SchemaDesign

structure CompileOptions where
  dialect : Dialect
  /-- Replaces the inheritance kind of the design. -/
  inheritance : Option InheritanceKind
deriving Repr, DecidableEq

structure Compiled where
  dialect : Dialect
  statements : List Statement
  /-- The normal design that the statements come from. -/
  normal : Design

namespace Compiled

def script (compiled : Compiled) (separator : String) : String :=
  separator.intercalate (compiled.statements.map (·.sql))

def annotatedScript (compiled : Compiled) (separator : String) : String :=
  separator.intercalate (compiled.statements.map fun statement =>
    "-- " ++ statement.label ++ "\n" ++ statement.sql)

end Compiled

namespace Design

def withInheritance (design : Design) (kind : Option InheritanceKind) : Design :=
  { design with inheritance := kind.getD design.inheritance }

def replacementReport (design : Design) (kind : Option InheritanceKind) : List Event :=
  match kind with
  | some kind =>
    if kind = design.inheritance then [] else [.inheritanceReplaced design.inheritance kind]
  | none => []

def statementReport (design : Design) (dialect : Dialect) : List Event :=
  [.statementsWritten dialect (design.statements dialect).length]

def compiling (design : Design) (ids : IdSupply) (options : CompileOptions) :
    Logging InheritanceCycle Compiled := do
  Logging.log (design.replacementReport options.inheritance)
  let normal ← (design.withInheritance options.inheritance).normalizing ids
  Logging.log (normal.statementReport options.dialect)
  return ⟨options.dialect, normal.statements options.dialect, normal⟩

def compile (design : Design) (ids : IdSupply) (options : CompileOptions) :
    Except InheritanceCycle Compiled :=
  (design.compiling ids options).outcome

def compilationReport (design : Design) (ids : IdSupply) (options : CompileOptions) :
    List Event :=
  (design.compiling ids options).report

theorem compile_eq (design : Design) (ids : IdSupply) (options : CompileOptions) :
    design.compile ids options = do
      let normal ← (design.withInheritance options.inheritance).normalize ids
      return ⟨options.dialect, normal.statements options.dialect, normal⟩ := by
  unfold compile compiling normalize normalizing
  cases Lineage.of (design.withInheritance options.inheritance) with
  | error cycle => rfl
  | ok lineage => rfl

end Design

end SchemaDesign
