import SchemaDesign.Mapping.Normalize
import SchemaDesign.Proofs.Graph.Walk
import SchemaDesign.Proofs.Design.Sound
import SchemaDesign.Proofs.Related

/-!
# Lineages of acyclic designs

A step to a base is an inheritance between tables of the design, so in an acyclic design every line
ends and the lineage exists.  The line of an id ends at its root, which has no other base; it starts
with the id itself, followed by its base if that is another table.
-/

open Relation

namespace SchemaDesign

namespace Design

variable {design : Design}

/-- The base of a table; an id that is no table is its own base. -/
def baseOf (design : Design) (id : TableId) : TableId :=
  match design.parentOf? id with
  | some parent => if design.hasTable id && design.hasTable parent then parent else id
  | none => id

theorem made?_handleParent {table : Table} (htable : table ∈ design.tables) :
    (design.handleParent table).made?.getD table.id = design.baseOf table.id := by
  unfold handleParent baseOf
  rw [hasTable_of_mem htable]
  cases design.parentOf? table.id with
  | none => rfl
  | some parent =>
      by_cases hparent : design.hasTable parent
      · simp [hparent, Handling.made?]
      · simp [hparent, Handling.made?]

theorem inherits_of_baseOf_ne {id : TableId} (h : design.baseOf id ≠ id) :
    design.Inherits id (design.baseOf id) := by
  unfold baseOf at h ⊢
  cases hparent : design.parentOf? id with
  | none => simp [hparent] at h
  | some parent =>
      by_cases htables : design.hasTable id && design.hasTable parent
      · have hboth := Bool.and_eq_true_iff.mp htables
        simp only [htables, if_true]
        exact .of_mem_parents hboth.1 hboth.2 (mem_parents_of_parentOf? hparent)
      · simp [hparent, htables] at h

/-- Where tables have single parents, a table inherits from its base only. -/
theorem baseOf_eq_of_inherits
    (hparents : ∀ table ∈ design.tables, (design.parents table.id).length ≤ 1)
    {child parent : TableId} (h : design.Inherits child parent) : design.baseOf child = parent := by
  obtain ⟨table, htable, rfl⟩ := exists_mem_of_hasTable h.child_hasTable
  have hparent : design.parentOf? table.id = some parent :=
    parentOf?_eq_some_of_mem (hparents table htable)
      ((design.mem_parents_iff table.id parent).mpr h.relation)
  simp [baseOf, hparent, h.child_hasTable, h.parent_hasTable]

theorem eq_baseOf_of_lookup {id base : TableId} (h : design.bases.lookup id = some base) :
    base = design.baseOf id := by
  rcases List.lookup_eq_some_iff.mp h with ⟨before, after, hbases, _⟩
  have hmem : (id, base) ∈ design.bases := by simp [hbases]
  rcases List.mem_map.mp hmem with ⟨table, htable, heq⟩
  rcases Prod.mk.inj heq with ⟨rfl, rfl⟩
  exact made?_handleParent htable

theorem lookup_bases_of_hasTable {id : TableId} (h : design.hasTable id) :
    design.bases.lookup id = some (design.baseOf id) := by
  cases hlookup : design.bases.lookup id with
  | none =>
      rcases exists_mem_of_hasTable h with ⟨table, htable, rfl⟩
      have hne := List.lookup_eq_none_iff.mp hlookup _ (List.mem_map_of_mem htable)
      simp at hne
  | some base => rw [eq_baseOf_of_lookup hlookup]

/-- A step of a line leads from a table to its base, if that is another table. -/
theorem leads_baseSteps_iff (design : Design) (id base : TableId) :
    design.baseSteps.Leads id base ↔ base = design.baseOf id ∧ base ≠ id := by
  unfold Steps.Leads baseSteps stepsAlong properBase?
  rw [Option.filter_eq_some_iff, decide_eq_true_iff]
  constructor
  · rintro ⟨hlookup, hne⟩
    exact ⟨eq_baseOf_of_lookup hlookup, hne⟩
  · rintro ⟨rfl, hne⟩
    exact ⟨lookup_bases_of_hasTable (inherits_of_baseOf_ne hne).child_hasTable, hne⟩

theorem inherits_of_leads {id base : TableId} (h : design.baseSteps.Leads id base) :
    design.Inherits id base := by
  rcases (design.leads_baseSteps_iff id base).mp h with ⟨rfl, hne⟩
  exact inherits_of_baseOf_ne hne

theorem next_baseSteps_eq_none_iff (design : Design) (id : TableId) :
    design.baseSteps.next id = none ↔ design.baseOf id = id := by
  constructor
  · intro hnone
    by_contra hne
    have hleads := (design.leads_baseSteps_iff id _).mpr ⟨rfl, hne⟩
    exact absurd (hnone.symm.trans hleads) (by simp)
  · intro hbase
    cases hnext : design.baseSteps.next id with
    | none => rfl
    | some base =>
        rcases (design.leads_baseSteps_iff id base).mp hnext with ⟨rfl, hne⟩
        exact absurd hbase hne

theorem next_baseSteps (design : Design) (id : TableId) :
    design.baseSteps.next id =
      if design.baseOf id = id then none else some (design.baseOf id) := by
  split
  case isTrue hbase => exact (design.next_baseSteps_eq_none_iff id).mpr hbase
  case isFalse hne => exact (design.leads_baseSteps_iff id _).mpr ⟨rfl, hne⟩

theorem lineAlong_eq_ok_iff (design : Design) (id : TableId) (line : List TableId) :
    design.lineAlong design.baseSteps id = .ok line ↔
      ∃ path root, design.baseSteps.walk [] id = .ends path root ∧
        line = path.reverse ++ [root] := by
  unfold lineAlong
  cases design.baseSteps.walk [] id with
  | ends path root => simp [eq_comm]
  | repeats path again => simp

end Design

namespace Lineage

variable {design : Design} {lineage : Lineage}

theorem of_eq_map (design : Design) :
    Lineage.of design =
      (design.tables.mapM fun table => (design.lineAlong design.baseSteps table.id).map
        fun line => (table.id, line)).map Lineage.mk := by
  have hline : (fun table : Table => (do return (table.id, ← design.lineAlong design.baseSteps
      table.id) : Except InheritanceCycle (TableId × List TableId))) =
      fun table => (design.lineAlong design.baseSteps table.id).map fun line =>
        (table.id, line) := by
    funext table
    cases design.lineAlong design.baseSteps table.id <;> rfl
  unfold Lineage.of
  dsimp only
  rw [hline]
  cases design.tables.mapM (fun table => (design.lineAlong design.baseSteps table.id).map
      fun line => (table.id, line)) <;> rfl

theorem of_eq_ok_iff (design : Design) (lineage : Lineage) :
    Lineage.of design = .ok lineage ↔
      design.tables.mapM (fun table => (design.lineAlong design.baseSteps table.id).map
        fun line => (table.id, line)) = .ok lineage.lines := by
  rw [of_eq_map]
  cases design.tables.mapM (fun table => (design.lineAlong design.baseSteps table.id).map
      fun line => (table.id, line)) with
  | error e => simp [Except.map]
  | ok lines =>
      cases lineage
      simp [Except.map]

/-- Where the steps to the bases run in no cycle, all lines end. -/
theorem exists_of_no_cycle (hcycle : ∀ id, ¬TransGen design.baseSteps.Leads id id) :
    ∃ lineage, Lineage.of design = .ok lineage := by
  have hline : ∀ table ∈ design.tables,
      ∃ pair, (design.lineAlong design.baseSteps table.id).map
        (fun line => (table.id, line)) = .ok pair := by
    intro table _
    have hfinite : (design.baseSteps.walk [] table.id).isFinite := by
      apply (design.baseSteps.walk_isFinite_iff [] table.id).mpr
      exact fun x _ => ⟨List.not_mem_nil, hcycle x⟩
    unfold Design.lineAlong
    cases hwalk : design.baseSteps.walk [] table.id with
    | ends path root => exact ⟨(table.id, path.reverse ++ [root]), rfl⟩
    | repeats path again => simp [hwalk, Walk.isFinite] at hfinite
  rcases exists_mapM_eq_ok hline with ⟨lines, hlines⟩
  exact ⟨⟨lines⟩, (of_eq_ok_iff design ⟨lines⟩).mpr hlines⟩

/-- The lines of an acyclic design end. -/
theorem exists_of_acyclic (hacyclic : design.Acyclic) :
    ∃ lineage, Lineage.of design = .ok lineage := by
  apply exists_of_no_cycle
  intro id hcycle
  exact hacyclic id (TransGen.mono (fun _ _ h => Design.inherits_of_leads h) id id hcycle)

theorem lines_of_forall₂ {tables : List Table} {lines : List (TableId × List TableId)}
    (hlines : List.Forall₂ (fun table pair => (design.lineAlong design.baseSteps table.id).map
      (fun line => (table.id, line)) = .ok pair) tables lines) :
    lines.map Prod.fst = tables.map (·.id) ∧
      ∀ pair ∈ lines, design.lineAlong design.baseSteps pair.1 = .ok pair.2 := by
  induction hlines with
  | nil => simp
  | @cons table pair tables lines hpair _ ih =>
      cases hline : design.lineAlong design.baseSteps table.id with
      | error e => simp [hline, Except.map] at hpair
      | ok line =>
          have hsame : (table.id, line) = pair := by simpa [hline, Except.map] using hpair
          subst pair
          refine ⟨by simp [ih.1], ?_⟩
          intro other hother
          rcases List.mem_cons.mp hother with rfl | hother
          · exact hline
          · exact ih.2 other hother

theorem lineAlong_of_base_eq {id : TableId} (hbase : design.baseOf id = id) :
    design.lineAlong design.baseSteps id = .ok [id] := by
  have hnone := (design.next_baseSteps_eq_none_iff id).mpr hbase
  rw [Design.lineAlong, Steps.walk_of_none List.not_mem_nil hnone]
  rfl

/-- The line that a lineage holds for an id is the one along the bases, also for an id that is no
table. -/
theorem lineAlong_line (hlineage : Lineage.of design = .ok lineage) (id : TableId) :
    design.lineAlong design.baseSteps id = .ok (lineage.line id) := by
  have hlines := mapM_eq_ok_iff.mp ((of_eq_ok_iff design lineage).mp hlineage)
  have hpairs := lines_of_forall₂ hlines
  unfold line
  cases hlookup : lineage.lines.lookup id with
  | some line =>
      rcases List.lookup_eq_some_iff.mp hlookup with ⟨before, after, hsplit, _⟩
      exact hpairs.2 (id, line) (by simp [hsplit])
  | none =>
      have hnotTable : ¬design.hasTable id := by
        rw [design.hasTable_iff, Design.tableIds, ← hpairs.1]
        intro hmem
        rcases List.mem_map.mp hmem with ⟨pair, hpair, rfl⟩
        have hne := List.lookup_eq_none_iff.mp hlookup pair hpair
        simp at hne
      apply lineAlong_of_base_eq
      by_contra hne
      exact hnotTable (Design.inherits_of_baseOf_ne hne).child_hasTable

theorem line_of_base_eq (hlineage : Lineage.of design = .ok lineage) {id : TableId}
    (hbase : design.baseOf id = id) : lineage.line id = [id] := by
  have hline := lineAlong_line hlineage id
  rw [lineAlong_of_base_eq hbase] at hline
  exact (Except.ok.inj hline).symm

/-- The line of a table with another base is that of the base with the table before it. -/
theorem line_of_base_ne (hlineage : Lineage.of design = .ok lineage) {id : TableId}
    (hbase : design.baseOf id ≠ id) :
    lineage.line id = id :: lineage.line (design.baseOf id) := by
  have hleads := (design.leads_baseSteps_iff id _).mpr ⟨rfl, hbase⟩
  rcases (design.lineAlong_eq_ok_iff id _).mp (lineAlong_line hlineage id) with
    ⟨way, root, hwalk, hline⟩
  rw [Steps.walk_of_leads List.not_mem_nil hleads] at hwalk
  rcases design.baseSteps.walk_ends_of_append [id] [] _ hwalk with ⟨rest, rfl, hrest⟩
  have hbaseLine : design.lineAlong design.baseSteps (design.baseOf id) =
      .ok (rest.reverse ++ [root]) :=
    (design.lineAlong_eq_ok_iff _ _).mpr ⟨rest, root, hrest, rfl⟩
  rw [lineAlong_line hlineage] at hbaseLine
  rw [hline, Except.ok.inj hbaseLine]
  simp

/-- The induction runs from the roots down along the lines. -/
theorem line_induction (hlineage : Lineage.of design = .ok lineage) {motive : TableId → Prop}
    (root : ∀ id, design.baseOf id = id → motive id)
    (step : ∀ id, design.baseOf id ≠ id → motive (design.baseOf id) → motive id)
    (id : TableId) : motive id := by
  generalize hlength : (lineage.line id).length = length
  induction length generalizing id with
  | zero =>
      by_cases hbase : design.baseOf id = id
      · exact root id hbase
      · simp [line_of_base_ne hlineage hbase] at hlength
  | succ length ih =>
      by_cases hbase : design.baseOf id = id
      · exact root id hbase
      · refine step id hbase (ih _ ?_)
        simpa [line_of_base_ne hlineage hbase] using hlength

theorem line_ne_nil (hlineage : Lineage.of design = .ok lineage) (id : TableId) :
    ∃ rest, lineage.line id = id :: rest := by
  by_cases hbase : design.baseOf id = id
  · exact ⟨[], line_of_base_eq hlineage hbase⟩
  · exact ⟨_, line_of_base_ne hlineage hbase⟩

theorem base_eq (hlineage : Lineage.of design = .ok lineage) (id : TableId) :
    lineage.base id = design.baseOf id := by
  unfold base
  by_cases hbase : design.baseOf id = id
  · rw [line_of_base_eq hlineage hbase, hbase]
  · rcases line_ne_nil hlineage (design.baseOf id) with ⟨rest, hrest⟩
    rw [line_of_base_ne hlineage hbase, hrest]

theorem root_of_base_eq (hlineage : Lineage.of design = .ok lineage) {id : TableId}
    (hbase : design.baseOf id = id) : lineage.root id = id := by
  rw [root, line_of_base_eq hlineage hbase]
  rfl

theorem root_of_base_ne (hlineage : Lineage.of design = .ok lineage) {id : TableId}
    (hbase : design.baseOf id ≠ id) :
    lineage.root id = lineage.root (design.baseOf id) := by
  rcases line_ne_nil hlineage (design.baseOf id) with ⟨rest, hrest⟩
  rw [root, root, line_of_base_ne hlineage hbase, hrest]
  simp [List.getLastD]

theorem baseOf_root (hlineage : Lineage.of design = .ok lineage) (id : TableId) :
    design.baseOf (lineage.root id) = lineage.root id := by
  induction id using line_induction hlineage with
  | root id hbase => rw [root_of_base_eq hlineage hbase, hbase]
  | step id hbase ih => rw [root_of_base_ne hlineage hbase, ih]

theorem root_root (hlineage : Lineage.of design = .ok lineage) (id : TableId) :
    lineage.root (lineage.root id) = lineage.root id :=
  root_of_base_eq hlineage (baseOf_root hlineage id)

theorem hasTable_root (hlineage : Lineage.of design = .ok lineage) {id : TableId}
    (htable : design.hasTable id) : design.hasTable (lineage.root id) := by
  induction id using line_induction hlineage with
  | root id hbase => rwa [root_of_base_eq hlineage hbase]
  | step id hbase ih =>
      rw [root_of_base_ne hlineage hbase]
      exact ih (Design.inherits_of_baseOf_ne hbase).parent_hasTable

end Lineage

end SchemaDesign
