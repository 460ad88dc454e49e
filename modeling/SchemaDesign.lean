import SchemaDesign.Machine
import SchemaDesign.Main
import SchemaDesign.Proofs.Graph.Components
import SchemaDesign.Proofs.Design.Lookup
import SchemaDesign.Proofs.Design.Hierarchy
import SchemaDesign.Proofs.Graph.Walk
import SchemaDesign.Proofs.Design.Sound
import SchemaDesign.Proofs.Mapping.Lineage
import SchemaDesign.Proofs.Mapping.Cycle
import SchemaDesign.Proofs.Design.Gate
import SchemaDesign.Proofs.Edit.Effect
import SchemaDesign.Proofs.Edit.Sound
import SchemaDesign.Proofs.Edit.Issues
import SchemaDesign.Proofs.Mapping.ClassTable
import SchemaDesign.Proofs.Mapping.ConcreteTable
import SchemaDesign.Proofs.Mapping.Junction
import SchemaDesign.Proofs.Mapping.Normalize
import SchemaDesign.Proofs.Related
import SchemaDesign.Proofs.Sql.Statement
import SchemaDesign.Proofs.Correspondence.Basic
import SchemaDesign.Proofs.Correspondence.Lineage
import SchemaDesign.Proofs.Correspondence.Normalize
import SchemaDesign.Proofs.Correspondence.Renaming
import SchemaDesign.Proofs.Mapping.Completion
import SchemaDesign.Proofs.Mapping.JunctionTable
import SchemaDesign.Proofs.Mapping.Mention
import SchemaDesign.Proofs.Reordering.Basic
import SchemaDesign.Proofs.Reordering.Twins
import SchemaDesign.Proofs.Reordering.Statements
import SchemaDesign.Proofs.Reordering.Junctions
import SchemaDesign.Proofs.Mapping.Normal
import SchemaDesign.Proofs.Mapping.KeyEnd
import SchemaDesign.Proofs.Sql.ForeignKey
import SchemaDesign.Proofs.Json.Number
import SchemaDesign.Proofs.Json.Printer
import SchemaDesign.Proofs.Json.Scalar
import SchemaDesign.Proofs.Json.Nested
import SchemaDesign.Proofs.Json.Skip
import SchemaDesign.Proofs.Json.Codec
import SchemaDesign.Proofs.Json.Fields
import SchemaDesign.Proofs.Json.Restored
import SchemaDesign.Proofs.Design.Codecs
import SchemaDesign.Proofs.Design.Exchange
import SchemaDesign.Proofs.Mapping.Remaining
import SchemaDesign.Proofs.Mapping.Acceptance
import SchemaDesign.Proofs.Mapping.Descent
import SchemaDesign.Proofs.Mapping.ColumnNames
import SchemaDesign.Proofs.Mapping.DistinctNames
import SchemaDesign.Proofs.Edit.Frame
import SchemaDesign.Proofs.Mapping.Inherited
import SchemaDesign.Proofs.Sql.ConstraintName
import SchemaDesign.Proofs.Mapping.Referring
import SchemaDesign.Proofs.ConstraintNames
import SchemaDesign.Proofs.Json.Alike
import SchemaDesign.Proofs.Design.Reading
import SchemaDesign.Proofs.Mapping.Root
import SchemaDesign.Proofs.Mapping.KnownRoots
import SchemaDesign.Proofs.Mapping.MergedHierarchies
import SchemaDesign.Proofs.Mapping.LinkedClasses
import SchemaDesign.Proofs.Mapping.ExpandedRelations
import SchemaDesign.Proofs.Mapping.ParentCycle
import SchemaDesign.Proofs.Text.Parts
import SchemaDesign.Proofs.TypeSignature
import SchemaDesign.Proofs.Settings.Expansion
import SchemaDesign.Proofs.Sql.Delimited
import SchemaDesign.Proofs.Sql.PrimaryKey
import SchemaDesign.Proofs.Edit.TakeBack
import SchemaDesign.Proofs.AnnotatedScript
import SchemaDesign.Proofs.Command.Action
import SchemaDesign.Proofs.Command.Arguments
import SchemaDesign.Proofs.Settings.Refusal
import SchemaDesign.Proofs.Command.Override
import SchemaDesign.Proofs.Log.Warnings
