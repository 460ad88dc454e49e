import SchemaDesign.Design.Exchange
import SchemaDesign.Proofs.Json.Fields

/-!
# The fields of designs

The fields of a table, a column, a relation and a design have different keys and set different parts
of it.  So the order of their members does not matter, and neither does their spacing.
-/

namespace SchemaDesign

open Json Codec RecordField

namespace Table

theorem lawful_fields : Lawful fields where
  keys := by decide
  steady := by
    simp only [fields, List.forall_mem_cons]
    exact ⟨steady_of steady_scalar, steady_of steady_scalar, steady_of steady_scalar,
      steady_of steady_scalar, steady_of steady_scalar, steady_of steady_scalar, nofun⟩
  commute := by
    simp only [fields, List.pairwise_cons, List.forall_mem_cons, List.not_mem_nil,
      IsEmpty.forall_iff, implies_true, List.Pairwise.nil, and_true]
    and_intros <;> exact commutes_of fun _ _ _ => rfl

theorem steady_codec : Reader.Steady codec.fromText :=
  steady_record _ lawful_fields.steady

end Table

namespace Column

theorem lawful_fields : Lawful fields where
  keys := by decide
  steady := by
    simp only [fields, List.forall_mem_cons]
    exact ⟨steady_of steady_scalar, steady_of steady_scalar, steady_of steady_scalar,
      steady_of steady_scalar, steady_of steady_scalar, steady_of steady_scalar,
      steady_of steady_scalar, steady_of steady_scalar, steady_of steady_scalar, nofun⟩
  commute := by
    simp only [fields, List.pairwise_cons, List.forall_mem_cons, List.not_mem_nil,
      IsEmpty.forall_iff, implies_true, List.Pairwise.nil, and_true]
    and_intros <;> exact commutes_of fun _ _ _ => rfl

theorem steady_codec : Reader.Steady codec.fromText :=
  steady_record _ lawful_fields.steady

end Column

namespace Relation

theorem lawful_fields : Lawful fields where
  keys := by decide
  steady := by
    simp only [fields, List.forall_mem_cons]
    exact ⟨steady_of steady_scalar, steady_of steady_scalar, steady_of steady_scalar,
      steady_of steady_scalar, steady_of steady_kind, nofun⟩
  commute := by
    simp only [fields, List.pairwise_cons, List.forall_mem_cons, List.not_mem_nil,
      IsEmpty.forall_iff, implies_true, List.Pairwise.nil, and_true]
    and_intros <;> exact commutes_of fun _ _ _ => rfl

theorem steady_codec : Reader.Steady codec.fromText :=
  steady_record _ lawful_fields.steady

end Relation

namespace Design

theorem lawful_fields : Lawful fields where
  keys := by decide
  steady := by
    simp only [fields, List.forall_mem_cons]
    exact ⟨steady_of (steady_list Table.steady_codec), steady_of (steady_list Column.steady_codec),
      steady_of (steady_list Relation.steady_codec), steady_of steady_kind, nofun⟩
  commute := by
    simp only [fields, List.pairwise_cons, List.forall_mem_cons, List.not_mem_nil,
      IsEmpty.forall_iff, implies_true, List.Pairwise.nil, and_true]
    and_intros <;> exact commutes_of fun _ _ _ => rfl

theorem steady_codec : Reader.Steady codec.fromText :=
  steady_record _ lawful_fields.steady

end Design

end SchemaDesign
