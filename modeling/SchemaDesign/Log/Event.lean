import SchemaDesign.Design.Gate
import SchemaDesign.Sql.Dialect

/-!
# Log events

Structural gaps that do not stop the work are reported as warnings, and each stage reports what it
did.  An event is one of these facts; its message is fixed and its details are named fields.

A stage handles the records of a design one by one.  It may pass over a record, make something of
it, or warn of a gap and go on.
-/

namespace SchemaDesign

inductive Level where
  | debug
  | warning
deriving Repr, DecidableEq

inductive FieldValue where
  | count (value : Nat)
  | text (value : String)
deriving Repr, DecidableEq

inductive Event where
  /-- A table names a parent that is no table. -/
  | unknownParent (table : String) (parent : TableId)
  | hierarchiesMerged (merged roots : Nat)
  /-- A table gets no key because its root has none. -/
  | rootWithoutKey (root table : String)
  | classesLinked (links : Nat)
  | columnsCopied (copied dropped : Nat)
  | inheritanceDropped (relations : Nat)
  /-- A many-to-many relation stays because an end does not resolve. -/
  | unresolvedEnds (source target : TableId)
  | junctionsMade (junctions : Nat)
  | inheritanceReplaced (former replacement : InheritanceKind)
  | statementsWritten (dialect : Dialect) (statements : Nat)
  | designLoaded (tables columns relations : Nat)
  | tableRemoved (table : String) (columns relations : Nat)
  | inheritanceRefused (rejection : Rejection) (child parent : TableId)
  | dataRefused (rejection : Rejection) (source target : ColumnId)
deriving Repr, DecidableEq

namespace Event

def level : Event → Level
  | .unknownParent .. => .warning
  | .rootWithoutKey .. => .warning
  | .unresolvedEnds .. => .warning
  | .inheritanceRefused .. => .warning
  | .dataRefused .. => .warning
  | _ => .debug

def message : Event → String
  | .unknownParent .. => "table inherits from an unknown table, treating it as a root"
  | .hierarchiesMerged .. => "single-table inheritance applied"
  | .rootWithoutKey .. => "root table has no primary key, skipping class-table link"
  | .classesLinked .. => "class-table inheritance applied"
  | .columnsCopied .. => "concrete-table inheritance applied"
  | .inheritanceDropped .. => "inheritance edges removed"
  | .unresolvedEnds .. => "many-to-many relation has unresolved endpoints, leaving it as is"
  | .junctionsMade .. => "many-to-many relations expanded"
  | .inheritanceReplaced .. => "inheritance kind overridden"
  | .statementsWritten .. => "sql emitted"
  | .designLoaded .. => "design loaded into session"
  | .tableRemoved .. => "table removed"
  | .inheritanceRefused .. => "inheritance edge rejected"
  | .dataRefused .. => "data edge rejected"

def fields : Event → List (String × FieldValue)
  | .unknownParent table parent => [("table", .text table), ("parent", .text parent)]
  | .hierarchiesMerged merged roots => [("merged", .count merged), ("roots", .count roots)]
  | .rootWithoutKey root table => [("root", .text root), ("table", .text table)]
  | .classesLinked links => [("links", .count links)]
  | .columnsCopied copied dropped => [("copied", .count copied), ("dropped", .count dropped)]
  | .inheritanceDropped relations => [("dropped", .count relations)]
  | .unresolvedEnds source target =>
    [("source_table_id", .text source), ("target_table_id", .text target)]
  | .junctionsMade junctions => [("junctions", .count junctions)]
  | .inheritanceReplaced former replacement =>
    [("from", .text former.name), ("to", .text replacement.name)]
  | .statementsWritten dialect statements =>
    [("dialect", .text dialect.name), ("statements", .count statements)]
  | .designLoaded tables columns relations =>
    [("tables", .count tables), ("columns", .count columns), ("relations", .count relations)]
  | .tableRemoved table columns relations =>
    [("table", .text table), ("columns", .count columns), ("relations", .count relations)]
  | .inheritanceRefused rejection child parent =>
    [("rejection", .text rejection.message), ("source_table_id", .text child),
      ("target_table_id", .text parent)]
  | .dataRefused rejection source target =>
    [("rejection", .text rejection.message), ("source_column_id", .text source),
      ("target_column_id", .text target)]

end Event

/-- What a stage does with a record. -/
inductive Handling (α : Type) where
  | passed
  | made (result : α)
  | warned (event : Event)

namespace Handling

variable {α : Type}

def made? : Handling α → Option α
  | .made result => some result
  | _ => none

def warning? : Handling α → Option Event
  | .warned event => some event
  | _ => none

end Handling

/-- Steps that log events and may fail; what was logged before a failure stays logged. -/
abbrev Logging (ε α : Type) : Type := ExceptT ε (StateM (List Event)) α

namespace Logging

variable {ε α : Type}

def log (events : List Event) : Logging ε Unit :=
  modify (· ++ events)

def outcome (steps : Logging ε α) : Except ε α :=
  ((ExceptT.run steps).run []).1

def report (steps : Logging ε α) : List Event :=
  ((ExceptT.run steps).run []).2

end Logging

end SchemaDesign
