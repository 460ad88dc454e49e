import SchemaDesign.Proofs.Graph.Components
import SchemaDesign.Proofs.Design.Lookup
import Mathlib.Data.List.Flatten

/-!
# Cycles of the inheritance relations

A table descends from another one when one or more inheritance relations between tables of the
design lead there.  The search for cycles works on the positions of the tables instead.  Both views
agree: an edge between positions leads to the first table with the id of a parent, so a table
descends from itself exactly when the first position of its id lies on a cycle of positions.

The reported cycles are then the components in which some table, and so every table, descends from
itself.
-/

open Relation

namespace SchemaDesign

open SchemaDesign.Graph

/-- The tables of a reported cycle. -/
def Issue.cycle? : Issue → Option (List Table)
  | .inheritanceCycle tables => some tables
  | _ => none

namespace Design

variable {design : Design}

/-- One table of the design names another one as a parent. -/
structure Inherits (design : Design) (child parent : TableId) : Prop where
  child_hasTable : design.hasTable child
  parent_hasTable : design.hasTable parent
  relation : ∃ relation ∈ design.relations, relation.isInheritance ∧
    relation.source.table = child ∧ relation.target.table = parent

/-- One table descends from another one by one or more inheritance relations. -/
abbrev Descends (design : Design) : TableId → TableId → Prop :=
  TransGen design.Inherits

/-- No table descends from itself. -/
def Acyclic (design : Design) : Prop :=
  ∀ id, ¬design.Descends id id

theorem Inherits.of_mem_parents {child parent : TableId} (hchild : design.hasTable child)
    (hparent : design.hasTable parent) (hmem : parent ∈ design.parents child) :
    design.Inherits child parent :=
  ⟨hchild, hparent, (design.mem_parents_iff child parent).mp hmem⟩

theorem Descends.hasTable {child ancestor : TableId} (h : design.Descends child ancestor) :
    design.hasTable child ∧ design.hasTable ancestor := by
  rcases TransGen.head'_iff.mp h with ⟨_, hfirst, _⟩
  rcases TransGen.tail'_iff.mp h with ⟨_, _, hlast⟩
  exact ⟨hfirst.child_hasTable, hlast.parent_hasTable⟩

/-! ### Positions -/

/-- The id of the table at a position. -/
def IdAt (design : Design) (position : Nat) (id : TableId) : Prop :=
  ∃ table, design.tables[position]? = some table ∧ table.id = id

/-- The position is that of the first table with the id. -/
def IsPositionOf (design : Design) (position : Nat) (id : TableId) : Prop :=
  design.tables.findIdx? (·.id == id) = some position

theorem IsPositionOf.idAt {position : Nat} {id : TableId}
    (h : design.IsPositionOf position id) : design.IdAt position id := by
  rcases List.findIdx?_eq_some_iff_getElem.mp h with ⟨hlt, hid, _⟩
  exact ⟨_, List.getElem?_eq_getElem hlt, by simpa using hid⟩

theorem IdAt.hasTable {position : Nat} {id : TableId} (h : design.IdAt position id) :
    design.hasTable id := by
  rcases h with ⟨table, htable, rfl⟩
  exact hasTable_of_mem (List.mem_of_getElem? htable)

theorem IdAt.unique {position : Nat} {id other : TableId} (h : design.IdAt position id)
    (hother : design.IdAt position other) : id = other := by
  rcases h with ⟨table, htable, rfl⟩
  rcases hother with ⟨otherTable, hotherTable, rfl⟩
  rw [htable] at hotherTable
  rw [Option.some.inj hotherTable]

theorem exists_isPositionOf {id : TableId} (h : design.hasTable id) :
    ∃ position, design.IsPositionOf position id := by
  apply Option.isSome_iff_exists.mp
  rw [List.findIdx?_isSome]
  simpa [hasTable, table?] using h

theorem edge_parentPositions_iff (design : Design) (a b : Nat) :
    Edge design.parentPositions a b ↔
      ∃ id parent, design.IdAt a id ∧ parent ∈ design.parents id ∧
        design.IsPositionOf b parent := by
  unfold Edge parentPositions
  cases htable : design.tables[a]? with
  | none => simp [IdAt, htable]
  | some table =>
      simp only [List.mem_reverse, List.mem_filterMap]
      constructor
      · rintro ⟨parent, hparent, hposition⟩
        exact ⟨table.id, parent, ⟨table, htable, rfl⟩, hparent, hposition⟩
      · rintro ⟨id, parent, hid, hparent, hposition⟩
        have hsame := hid.unique ⟨table, htable, rfl⟩
        exact ⟨parent, hsame ▸ hparent, hposition⟩

theorem parentPositions_lt (design : Design) :
    ∀ a, ∀ b ∈ design.parentPositions a, b < design.tables.length := by
  intro a b hb
  rcases (design.edge_parentPositions_iff a b).mp hb with ⟨_, _, _, _, hposition⟩
  exact (List.findIdx?_eq_some_iff_getElem.mp hposition).1

theorem inherits_of_edge {a b : Nat} {child : TableId}
    (hedge : Edge design.parentPositions a b) (hchild : design.IdAt a child) :
    ∃ parent, design.IsPositionOf b parent ∧ design.Inherits child parent := by
  rcases (design.edge_parentPositions_iff a b).mp hedge with ⟨id, parent, hid, hparent, hposition⟩
  rw [hid.unique hchild] at hparent
  exact ⟨parent, hposition, .of_mem_parents hchild.hasTable hposition.idAt.hasTable hparent⟩

theorem edge_of_inherits {a b : Nat} {child parent : TableId}
    (hinherits : design.Inherits child parent) (hchild : design.IdAt a child)
    (hparent : design.IsPositionOf b parent) : Edge design.parentPositions a b :=
  (design.edge_parentPositions_iff a b).mpr
    ⟨child, parent, hchild, (design.mem_parents_iff child parent).mpr hinherits.relation, hparent⟩

/-- A walk along positions is one along ids that ends at the first position of its last id. -/
theorem descends_of_transGen {a b : Nat} {child : TableId}
    (h : TransGen (Edge design.parentPositions) a b) (hchild : design.IdAt a child) :
    ∃ ancestor, design.IsPositionOf b ancestor ∧ design.Descends child ancestor := by
  induction h with
  | single hedge =>
      rcases inherits_of_edge hedge hchild with ⟨parent, hposition, hinherits⟩
      exact ⟨parent, hposition, .single hinherits⟩
  | tail _ hedge ih =>
      rcases ih with ⟨ancestor, hposition, hdescends⟩
      rcases inherits_of_edge hedge hposition.idAt with ⟨parent, hparent, hinherits⟩
      exact ⟨parent, hparent, hdescends.tail hinherits⟩

theorem transGen_of_descends {a b : Nat} {child ancestor : TableId}
    (h : design.Descends child ancestor) (hchild : design.IdAt a child)
    (hancestor : design.IsPositionOf b ancestor) :
    TransGen (Edge design.parentPositions) a b := by
  induction h generalizing b with
  | single hinherits => exact .single (edge_of_inherits hinherits hchild hancestor)
  | tail _ hinherits ih =>
      rcases exists_isPositionOf hinherits.child_hasTable with ⟨c, hc⟩
      exact (ih hc).tail (edge_of_inherits hinherits hc.idAt hancestor)

theorem transGen_iff {a b : Nat} {id other : TableId} (hid : design.IsPositionOf a id)
    (hother : design.IsPositionOf b other) :
    TransGen (Edge design.parentPositions) a b ↔ design.Descends id other := by
  constructor
  · intro h
    rcases descends_of_transGen h hid.idAt with ⟨ancestor, hposition, hdescends⟩
    rwa [hposition.idAt.unique hother.idAt] at hdescends
  · intro h
    exact transGen_of_descends h hid.idAt hother

/-! ### The reported cycles -/

theorem isCyclic_iff {positions : List Nat}
    (hcomponent : IsComponent design.parentPositions positions) (hnodup : positions.Nodup)
    {a : Nat} (ha : a ∈ positions) :
    design.isCyclic positions ↔ TransGen (Edge design.parentPositions) a a := by
  rw [hcomponent.transGen_self_iff ha]
  match positions with
  | [position] =>
      rcases List.mem_singleton.mp ha with rfl
      simp [isCyclic, Edge]
  | first :: second :: others =>
      have hne : first ≠ second := by
        rintro rfl
        exact (List.nodup_cons.mp hnodup).1 (by simp)
      have hother : ∃ b ∈ first :: second :: others, b ≠ a := by
        by_cases hfirst : first = a
        · exact ⟨second, by simp, fun h => hne (hfirst.trans h.symm)⟩
        · exact ⟨first, by simp, hfirst⟩
      exact iff_of_true (by simp [isCyclic]) (.inr hother)

/-- The cycles hold every position on a cycle once, in lists that are components. -/
theorem cycles_spec (design : Design) :
    design.cycles.flatten.Nodup ∧
      (∀ positions ∈ design.cycles, IsComponent design.parentPositions positions ∧
        ∀ a ∈ positions, TransGen (Edge design.parentPositions) a a) ∧
      ∀ a, TransGen (Edge design.parentPositions) a a →
        ∃ positions ∈ design.cycles, a ∈ positions := by
  have hcomponents := components_areComponents design.parentPositions_lt
  have hnodup : ∀ positions ∈ components design.tables.length design.parentPositions,
      positions.Nodup :=
    fun positions hmem => (List.nodup_flatten.mp hcomponents.nodup).1 positions hmem
  refine ⟨?_, ?_, ?_⟩
  · exact hcomponents.nodup.sublist (List.Sublist.flatten List.filter_sublist)
  · intro positions hmem
    rcases List.mem_filter.mp hmem with ⟨hmem, hcyclic⟩
    have hcomponent := hcomponents.component positions hmem
    exact ⟨hcomponent, fun a ha =>
      (isCyclic_iff hcomponent (hnodup positions hmem) ha).mp hcyclic⟩
  · intro a ha
    rcases TransGen.tail'_iff.mp ha with ⟨_, _, hlast⟩
    obtain ⟨positions, hmem, hpositions⟩ := List.mem_flatten.mp
      ((hcomponents.mem_iff a).mpr (design.parentPositions_lt _ a hlast))
    have hcomponent := hcomponents.component positions hmem
    exact ⟨positions, List.mem_filter.mpr
      ⟨hmem, (isCyclic_iff hcomponent (hnodup positions hmem) hpositions).mpr ha⟩, hpositions⟩

theorem cycleIssues_eq_nil_iff (design : Design) :
    design.cycleIssues = [] ↔ design.Acyclic := by
  rcases design.cycles_spec with ⟨_, hcycles, hcovered⟩
  rw [cycleIssues, List.map_eq_nil_iff]
  constructor
  · intro hnil id hdescends
    rcases exists_isPositionOf (Descends.hasTable hdescends).1 with ⟨position, hposition⟩
    rcases hcovered position ((transGen_iff hposition hposition).mpr hdescends) with
      ⟨positions, hmem, _⟩
    rw [hnil] at hmem
    exact List.not_mem_nil hmem
  · intro hacyclic
    apply List.eq_nil_iff_forall_not_mem.mpr
    intro positions hmem
    rcases hcycles positions hmem with ⟨hcomponent, hself⟩
    rcases List.exists_mem_of_ne_nil positions hcomponent.ne_nil with ⟨a, ha⟩
    rcases TransGen.tail'_iff.mp (hself a ha) with ⟨_, _, hlast⟩
    rcases (design.edge_parentPositions_iff _ a).mp hlast with ⟨_, id, _, _, hposition⟩
    exact hacyclic id ((transGen_iff hposition hposition).mp (hself a ha))

theorem filterMap_cycle?_issues (design : Design) :
    design.issues.filterMap Issue.cycle? =
      design.cycles.map fun positions => positions.filterMap fun position =>
        design.tables[position]? := by
  have hmultiple : design.multipleInheritanceIssues.filterMap Issue.cycle? = [] := by
    rw [multipleInheritanceIssues, List.filterMap_filterMap, List.filterMap_eq_nil_iff]
    intro table _
    dsimp only
    split <;> rfl
  have hcycles : design.cycleIssues.filterMap Issue.cycle? =
      design.cycles.map fun positions => positions.filterMap fun position =>
        design.tables[position]? := by
    simp [cycleIssues, List.filterMap_map, Issue.cycle?, Function.comp_def]
  have hcolumns : design.columnIssues.filterMap Issue.cycle? = [] := by
    simp [columnIssues, List.filterMap_map, Issue.cycle?, Function.comp_def]
  have hrelations :
      (design.relations.flatMap design.relationIssues).filterMap Issue.cycle? = [] := by
    simp [relationIssues, List.filterMap_flatMap, List.filterMap_map, Issue.cycle?,
      Function.comp_def]
  rw [issues, List.filterMap_append, List.filterMap_append, List.filterMap_append, hmultiple,
    hcycles, hcolumns, hrelations]
  simp

theorem exists_position_of_mem (hids : design.tableIds.Nodup) {table : Table}
    (hmem : table ∈ design.tables) :
    ∃ position, design.tables[position]? = some table ∧
      design.IsPositionOf position table.id := by
  rcases exists_isPositionOf (hasTable_of_mem hmem) with ⟨position, hposition⟩
  rcases hposition.idAt with ⟨found, hfound, hid⟩
  have hsame : found = table :=
    List.inj_on_of_nodup_map hids (List.mem_of_getElem? hfound) hmem hid
  exact ⟨position, hsame ▸ hfound, hposition⟩

theorem mem_filterMap_tables_iff (hids : design.tableIds.Nodup) {position : Nat} {table : Table}
    (htable : design.tables[position]? = some table) (positions : List Nat) :
    table ∈ positions.filterMap (fun other => design.tables[other]?) ↔ position ∈ positions := by
  rw [List.mem_filterMap]
  constructor
  · rintro ⟨other, hmem, hother⟩
    have hlt : other < design.tableIds.length := by
      simpa [tableIds] using (List.getElem?_eq_some_iff.mp hother).1
    have hsame : other = position := by
      apply (List.getElem?_inj hlt hids).mp
      simp [tableIds, htable, hother]
    exact hsame ▸ hmem
  · intro hmem
    exact ⟨position, hmem, htable⟩

/-- No id stands twice in the reported cycles. -/
theorem nodup_ids_cycles (hids : design.tableIds.Nodup) :
    ((design.issues.filterMap Issue.cycle?).flatten.map (·.id)).Nodup := by
  have hflatten : (design.issues.filterMap Issue.cycle?).flatten.map (·.id) =
      design.cycles.flatten.filterMap fun position => design.tableIds[position]? := by
    rw [filterMap_cycle?_issues, ← List.filterMap_flatten, List.map_filterMap]
    simp [tableIds]
  rw [hflatten]
  apply List.Nodup.filterMap _ design.cycles_spec.1
  intro a b id ha hb
  have hlt := (List.getElem?_eq_some_iff.mp (Option.mem_def.mp ha)).1
  exact (List.getElem?_inj hlt hids).mp (ha.trans hb.symm)

/-- Two tables are in one reported cycle exactly when each descends from the other one. -/
theorem mem_same_cycle_iff (hids : design.tableIds.Nodup) {s t : Table}
    (hs : s ∈ design.tables) (ht : t ∈ design.tables) :
    (∃ cycle ∈ design.issues.filterMap Issue.cycle?, s ∈ cycle ∧ t ∈ cycle) ↔
      design.Descends s.id t.id ∧ design.Descends t.id s.id := by
  rcases exists_position_of_mem hids hs with ⟨p, hp, hpid⟩
  rcases exists_position_of_mem hids ht with ⟨q, hq, hqid⟩
  rcases design.cycles_spec with ⟨_, hcycles, hcovered⟩
  rw [← transGen_iff hpid hqid, ← transGen_iff hqid hpid, filterMap_cycle?_issues]
  simp only [List.mem_map, exists_exists_and_eq_and, mem_filterMap_tables_iff hids hp,
    mem_filterMap_tables_iff hids hq]
  constructor
  · rintro ⟨positions, hmem, hppos, hqpos⟩
    rcases hcycles positions hmem with ⟨hcomponent, hself⟩
    rcases (hcomponent.mem_iff p hppos q).mp hqpos with ⟨hpq, hqp⟩
    exact ⟨(hself p hppos).trans_left hpq, (hself q hqpos).trans_left hqp⟩
  · rintro ⟨hpq, hqp⟩
    rcases hcovered p (hpq.trans hqp) with ⟨positions, hmem, hppos⟩
    rcases hcycles positions hmem with ⟨hcomponent, _⟩
    have hqpos := (hcomponent.mem_iff p hppos q).mpr ⟨hpq.to_reflTransGen, hqp.to_reflTransGen⟩
    exact ⟨positions, hmem, hppos, hqpos⟩

theorem ne_nil_of_mem_cycles {cycle : List Table}
    (hcycle : cycle ∈ design.issues.filterMap Issue.cycle?) :
    cycle ≠ [] ∧ ∀ table ∈ cycle, table ∈ design.tables := by
  rw [filterMap_cycle?_issues] at hcycle
  rcases List.mem_map.mp hcycle with ⟨positions, hmem, rfl⟩
  rcases design.cycles_spec.2.1 positions hmem with ⟨hcomponent, hself⟩
  constructor
  · rcases List.exists_mem_of_ne_nil positions hcomponent.ne_nil with ⟨a, ha⟩
    rcases TransGen.tail'_iff.mp (hself a ha) with ⟨_, _, hlast⟩
    have hlt := design.parentPositions_lt _ a hlast
    apply List.ne_nil_of_mem
    exact List.mem_filterMap.mpr ⟨a, ha, List.getElem?_eq_getElem hlt⟩
  · intro table htable
    rcases List.mem_filterMap.mp htable with ⟨position, _, hposition⟩
    exact List.mem_of_getElem? hposition

/-- The reported cycles are the strongly connected components of the inheritance relations between
tables that lie on a cycle: a table that descends from itself stands once in all of them together,
and with exactly the tables that descend from it and from which it descends. -/
theorem reported_cycles_are_cyclic_components (design : Design) (hids : design.tableIds.Nodup) :
    let reported := design.issues.filterMap Issue.cycle?
    (∀ cycle ∈ reported, cycle ≠ [] ∧ ∀ table ∈ cycle, table ∈ design.tables) ∧
      (∀ t ∈ design.tables, design.Descends t.id t.id →
        (reported.flatten.map (·.id)).count t.id = 1) ∧
      (∀ t ∈ design.tables, ¬design.Descends t.id t.id →
        (reported.flatten.map (·.id)).count t.id = 0) ∧
      ∀ s ∈ design.tables, ∀ t ∈ design.tables,
        (∃ cycle ∈ reported, s ∈ cycle ∧ t ∈ cycle) ↔
          design.Descends s.id t.id ∧ design.Descends t.id s.id := by
  intro reported
  have hmem : ∀ t ∈ design.tables,
      t.id ∈ reported.flatten.map (·.id) ↔ design.Descends t.id t.id := by
    intro t ht
    have hsame := mem_same_cycle_iff hids ht ht
    rw [and_self] at hsame
    rw [← hsame, List.mem_map]
    constructor
    · rintro ⟨other, hother, hid⟩
      rcases List.mem_flatten.mp hother with ⟨cycle, hcycle, hotherCycle⟩
      have hotherMem := (ne_nil_of_mem_cycles hcycle).2 other hotherCycle
      rcases List.inj_on_of_nodup_map hids hotherMem ht hid with rfl
      exact ⟨cycle, hcycle, hotherCycle, hotherCycle⟩
    · rintro ⟨cycle, hcycle, htCycle, _⟩
      exact ⟨t, List.mem_flatten.mpr ⟨cycle, hcycle, htCycle⟩, rfl⟩
  refine ⟨fun cycle hcycle => ne_nil_of_mem_cycles hcycle, ?_, ?_, ?_⟩
  · intro t ht hdescends
    exact List.count_eq_one_of_mem (nodup_ids_cycles hids) ((hmem t ht).mpr hdescends)
  · intro t ht hdescends
    exact List.count_eq_zero_of_not_mem fun h => hdescends ((hmem t ht).mp h)
  · exact fun s hs t ht => mem_same_cycle_iff hids hs ht

/-- Two nested cycles, with a table beside them that names itself and names one of them twice. -/
def knot : Design where
  tables := ["a", "b", "c", "d"].map fun name => Table.create name name
  columns := []
  relations :=
    [("a", "b"), ("b", "c"), ("c", "b"), ("c", "a"), ("d", "d"), ("d", "a"), ("d", "a")].map
      fun (child, parent) => .inherits child parent
  inheritance := .singleTable

theorem knot_inherits {child parent : TableId} (hmem : .inherits child parent ∈ knot.relations)
    (hchild : knot.hasTable child) (hparent : knot.hasTable parent) :
    knot.Inherits child parent :=
  ⟨hchild, hparent, .inherits child parent, hmem, rfl, rfl, rfl⟩

theorem reported_cycles_of_knot :
    knot.tableIds.Nodup ∧
      (∃ cycle ∈ knot.issues.filterMap Issue.cycle?,
        Table.create "a" "a" ∈ cycle ∧ Table.create "c" "c" ∈ cycle) ∧
      ((knot.issues.filterMap Issue.cycle?).flatten.map (·.id)).count "d" = 1 := by
  have hab : knot.Inherits "a" "b" := knot_inherits (by decide) (by decide) (by decide)
  have hbc : knot.Inherits "b" "c" := knot_inherits (by decide) (by decide) (by decide)
  have hca : knot.Inherits "c" "a" := knot_inherits (by decide) (by decide) (by decide)
  have hdd : knot.Inherits "d" "d" := knot_inherits (by decide) (by decide) (by decide)
  have hids : knot.tableIds.Nodup := by decide
  rcases reported_cycles_are_cyclic_components knot hids with ⟨_, honce, _, hsame⟩
  refine ⟨hids, ?_, ?_⟩
  · exact (hsame (Table.create "a" "a") (by simp [knot]) (Table.create "c" "c")
      (by simp [knot])).mpr ⟨.tail (.single hab) hbc, .single hca⟩
  · exact honce (Table.create "d" "d") (by simp [knot]) (.single hdd)

end Design

end SchemaDesign
