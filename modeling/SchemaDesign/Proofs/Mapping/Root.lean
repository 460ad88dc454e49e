import SchemaDesign.Proofs.Mapping.Cycle
import Mathlib.Dynamics.FixedPoints.Basic

/-!
# Roots as resting points

Going from a table to its base, from there to the base of the base and so on comes to rest at a
table that is its own base, or it never does.  A lineage exists exactly when it comes to rest from
every table, and the roots of the lineage are the tables where it does.
-/

open Relation

namespace SchemaDesign

variable {design : Design} {lineage : Lineage} {id root : TableId}

namespace Design

/-- Going from base to base leads from the id to the root and comes to rest there. -/
def HasRoot (design : Design) (id root : TableId) : Prop :=
  Function.IsFixedPt design.baseOf root ∧ ∃ n, design.baseOf^[n] id = root

theorem hasRoot_self_iff (design : Design) (id : TableId) :
    design.HasRoot id id ↔ design.baseOf id = id :=
  ⟨fun h => h.1, fun h => ⟨h, 0, rfl⟩⟩

instance decidableHasRootSelf (id : TableId) : Decidable (design.HasRoot id id) :=
  decidable_of_iff (design.baseOf id = id) (design.hasRoot_self_iff id).symm

theorem hasRoot_baseOf_iff (design : Design) (id root : TableId) :
    design.HasRoot (design.baseOf id) root ↔ design.HasRoot id root := by
  constructor
  · rintro ⟨hrest, n, hn⟩
    exact ⟨hrest, n + 1, hn⟩
  · rintro ⟨hrest, n, hn⟩
    cases n with
    | zero =>
        obtain rfl : id = root := hn
        exact ⟨hrest, 0, hrest⟩
    | succ n => exact ⟨hrest, n, hn⟩

theorem HasRoot.iterate_eq {n m : Nat} (hrest : Function.IsFixedPt design.baseOf root)
    (hn : design.baseOf^[n] id = root) (hle : n ≤ m) : design.baseOf^[m] id = root := by
  obtain ⟨more, rfl⟩ := Nat.exists_eq_add_of_le' hle
  rw [Function.iterate_add_apply, hn]
  exact hrest.iterate more

theorem HasRoot.unique {other : TableId} (h : design.HasRoot id root)
    (hother : design.HasRoot id other) : root = other := by
  obtain ⟨hrest, n, hn⟩ := h
  obtain ⟨hrest', m, hm⟩ := hother
  rw [← iterate_eq hrest hn (Nat.le_max_left n m), iterate_eq hrest' hm (Nat.le_max_right n m)]

/-- The id is that of a table below the root. -/
def Below (design : Design) (id root : TableId) : Prop :=
  design.HasRoot id root ∧ ¬design.HasRoot id id

theorem HasRoot.of_leads {base : TableId} (hleads : design.baseSteps.Leads id base) :
    design.HasRoot base root ↔ design.HasRoot id root := by
  rw [((design.leads_baseSteps_iff id base).mp hleads).1]
  exact design.hasRoot_baseOf_iff id root

theorem HasRoot.of_reaches {other : TableId}
    (hreach : ReflTransGen design.baseSteps.Leads id other) :
    design.HasRoot other root ↔ design.HasRoot id root := by
  induction hreach with
  | refl => exact Iff.rfl
  | tail _ hleads ih => exact (HasRoot.of_leads hleads).trans ih

/-- What comes to rest goes around no cycle. -/
theorem HasRoot.not_transGen (h : design.HasRoot id root) :
    ¬TransGen design.baseSteps.Leads id id := by
  intro hcycle
  obtain ⟨hrest, n, hn⟩ := h
  have haround : ∀ n, TransGen design.baseSteps.Leads (design.baseOf^[n] id)
      (design.baseOf^[n] id) := by
    intro n
    induction n with
    | zero => exact hcycle
    | succ n ih =>
        rw [Function.iterate_succ_apply']
        obtain ⟨next, hleads, hback⟩ := TransGen.head'_iff.mp ih
        rw [← ((design.leads_baseSteps_iff _ next).mp hleads).1]
        exact TransGen.tail' hback hleads
  have hroot := haround n
  rw [hn] at hroot
  obtain ⟨next, hleads, _⟩ := TransGen.head'_iff.mp hroot
  obtain ⟨rfl, hne⟩ := (design.leads_baseSteps_iff root next).mp hleads
  exact hne hrest

end Design

namespace Lineage

theorem hasRoot_root (hlineage : Lineage.of design = .ok lineage) (id : TableId) :
    design.HasRoot id (lineage.root id) := by
  induction id using lineage.line_induction hlineage with
  | root id hbase =>
      rw [lineage.root_of_base_eq hlineage hbase]
      exact (design.hasRoot_self_iff id).mpr hbase
  | step id hbase ih =>
      rw [lineage.root_of_base_ne hlineage hbase]
      exact (design.hasRoot_baseOf_iff id _).mp ih

theorem hasRoot_iff (hlineage : Lineage.of design = .ok lineage) (id root : TableId) :
    design.HasRoot id root ↔ lineage.root id = root := by
  constructor
  · exact (lineage.hasRoot_root hlineage id).unique
  · rintro rfl
    exact lineage.hasRoot_root hlineage id

theorem isRoot_iff_hasRoot (hlineage : Lineage.of design = .ok lineage) (id : TableId) :
    lineage.isRoot id ↔ design.HasRoot id id := by
  rw [isRoot, beq_iff_eq, hasRoot_iff hlineage]

theorem below_iff (hlineage : Lineage.of design = .ok lineage) (id root : TableId) :
    design.Below id root ↔ lineage.root id = root ∧ ¬lineage.isRoot id := by
  rw [Design.Below, hasRoot_iff hlineage, isRoot_iff_hasRoot hlineage]

/-- A lineage exists exactly when going from base to base comes to rest from every table. -/
theorem exists_iff_hasRoot (design : Design) :
    (∃ lineage, Lineage.of design = .ok lineage) ↔
      ∀ table ∈ design.tables, ∃ root, design.HasRoot table.id root := by
  constructor
  · rintro ⟨lineage, hlineage⟩ table _
    exact ⟨_, lineage.hasRoot_root hlineage table.id⟩
  · intro hrests
    apply exists_of_no_cycle
    intro id hcycle
    obtain ⟨base, hleads, _⟩ := TransGen.head'_iff.mp hcycle
    obtain ⟨table, hmem, rfl⟩ :=
      Design.exists_mem_of_hasTable (Design.inherits_of_leads hleads).child_hasTable
    obtain ⟨root, hroot⟩ := hrests table hmem
    exact hroot.not_transGen hcycle

end Lineage

end SchemaDesign
