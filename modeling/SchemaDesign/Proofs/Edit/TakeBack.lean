import SchemaDesign.Proofs.Edit.Issues

/-!
# Edits taken back

A new relation can be disconnected again, and a new table can be removed again.  What is removed is
the first relation with the given ends, and that is the new one: otherwise its gate, or the look for
a relation between the same columns, would have refused it.  This holds whatever the design is.

A removed table takes along what names its id.  So a new table can be taken back exactly when
nothing has named its id before, as in every sound design.
-/

namespace SchemaDesign

theorem eraseP_append_of_first {α : Type} {property : α → Bool} {list : List α} {new : α}
    (hfirst : ∀ x ∈ list, ¬property x) (hnew : property new) :
    (list ++ [new]).eraseP property = list := by
  rw [List.eraseP_append_right [new] hfirst, List.eraseP_cons_of_pos hnew, List.append_nil]

namespace Design

variable {design after : Design}

/-! ### Relations -/

/-- A new relation is taken back if it is the first one with the property. -/
theorem on_removeRelation_addRelation {property : Relation → Bool} {relation : Relation}
    (hfirst : ∀ other ∈ design.relations, ¬property other) (hnew : property relation) :
    (Editing.removeRelation property).on (design.addRelation relation) = (.ok true, design) := by
  have hany : (design.addRelation relation).relations.any property = true :=
    List.any_eq_true.mpr ⟨relation, by simp [addRelation], hnew⟩
  have hrest : (design.addRelation relation).withoutRelation property = design := by
    rw [withoutRelation, addRelation, eraseP_append_of_first hfirst hnew]
  rw [Editing.on_removeRelation, hany, hrest]

theorem not_isInheritanceBetween_of_parentOf? {child : TableId}
    (hnone : design.parentOf? child = none) (parent : TableId) :
    ∀ relation ∈ design.relations, ¬isInheritanceBetween child parent relation := by
  intro relation hmem hbetween
  simp only [isInheritanceBetween, Bool.and_eq_true, beq_iff_eq] at hbetween
  rw [parentOf?, Option.map_eq_none_iff, List.find?_eq_none] at hnone
  exact hnone relation hmem (by simp [hbetween])

/-! ### Tables -/

/-- Nothing names the id of a table. -/
structure Unnamed (design : Design) (id : TableId) : Prop where
  columns : ∀ column ∈ design.columns, column.table ≠ id
  relations : ∀ relation ∈ design.relations, ¬relation.touchesTable id

theorem Sound.unnamed (hsound : design.Sound) {id : TableId} (hnew : ¬design.hasTable id) :
    design.Unnamed id where
  columns := fun column hmem hsame => hnew (hsame ▸ hsound.owner column hmem)
  relations := by
    intro relation hmem htouches
    obtain ⟨hsource, htarget⟩ := hsound.ends relation hmem
    rw [Relation.touchesTable, Bool.or_eq_true, beq_iff_eq, beq_iff_eq] at htouches
    rcases htouches with rfl | rfl
    · exact hnew hsource
    · exact hnew htarget

theorem table?_addTable {table : Table} (hnew : ¬design.hasTable table.id) :
    ({ design with tables := design.tables ++ [table] } : Design).table? table.id =
      some table := by
  have hnone : design.tables.find? (·.id == table.id) = none := by
    rw [List.find?_eq_none]
    intro other hmem hsame
    exact hnew (beq_iff_eq.mp hsame ▸ hasTable_of_mem hmem)
  rw [table?, List.find?_append, hnone]
  simp

/-- When a new table is removed again, the design is as before exactly when nothing has named the
id of the table. -/
theorem withoutTable_addTable_eq_iff {table : Table} (hnew : ¬design.hasTable table.id) :
    ({ design with tables := design.tables ++ [table] } : Design).withoutTable table.id = design ↔
      design.Unnamed table.id := by
  constructor
  · intro hrest
    constructor
    · intro column hmem
      rw [← congrArg Design.columns hrest] at hmem
      simpa using (List.mem_filter.mp hmem).2
    · intro relation hmem
      rw [← congrArg Design.relations hrest] at hmem
      simpa using (List.mem_filter.mp hmem).2
  · intro hunnamed
    have htables : (design.tables ++ [table]).eraseP (·.id == table.id) = design.tables := by
      apply eraseP_append_of_first
      · intro other hmem hsame
        exact hnew (beq_iff_eq.mp hsame ▸ hasTable_of_mem hmem)
      · exact beq_self_eq_true table.id
    have hcolumns : design.columns.filter (·.table != table.id) = design.columns := by
      rw [List.filter_eq_self]
      exact fun column hmem => bne_iff_ne.mpr (hunnamed.columns column hmem)
    have hrelations :
        design.relations.filter (!·.touchesTable table.id) = design.relations := by
      rw [List.filter_eq_self]
      exact fun relation hmem => by simpa using hunnamed.relations relation hmem
    rw [withoutTable, htables, hcolumns, hrelations]

end Design

namespace Edit

variable {design after : Design} {edit back : Edit} {answer : Answer}

/-! ### Steps -/

theorem disconnectTables_of_connectTables {child parent : TableId}
    (h : (connectTables child parent).apply design = (.ok answer, after)) :
    (disconnectTables child parent).apply after = (.ok (.existed true), design) := by
  cases effect_of_apply h with
  | connectTables hgate =>
      obtain ⟨_, _, _, hnone, _⟩ := (design.checkInheritance_eq_ok_iff child parent).mp hgate
      have hnew : Design.isInheritanceBetween child parent (.inherits child parent) := by
        simp [Design.isInheritanceBetween, Relation.inherits, Relation.isInheritance]
      have hothers := Design.not_isInheritanceBetween_of_parentOf? hnone parent
      simp only [apply, steps, bind_pure_comp, Editing.on_map, Editing.disconnectTables,
        Design.on_removeRelation_addRelation hothers hnew]

theorem disconnectColumns_of_connectColumns {kind : RelationKind} {source target : ColumnId}
    (h : (connectColumns kind source target).apply design = (.ok answer, after)) :
    (disconnectColumns source target).apply after = (.ok (.existed true), design) := by
  cases effect_of_apply h with
  | @connectColumns _ _ _ sourceColumn targetColumn _ _ _ hnone =>
      have hnew : (Relation.between kind sourceColumn.table source targetColumn.table target).joins
          source target := by
        simp [Relation.joins, Relation.between]
      have hothers := List.find?_eq_none.mp hnone
      simp only [apply, steps, bind_pure_comp, Editing.on_map, Editing.disconnectColumns,
        Design.on_removeRelation_addRelation hothers hnew]

theorem removeTable_of_addTable {table : Table} (hsound : design.Sound)
    (h : (addTable table).apply design = (.ok answer, after)) :
    (removeTable table.id).apply after = (.ok (.removedTable table), design) := by
  cases effect_of_apply h with
  | addTable hnew =>
      have hrest := (Design.withoutTable_addTable_eq_iff hnew).mpr (hsound.unnamed hnew)
      simp only [apply, steps, bind_pure_comp, Editing.on_map, Editing.on_removeTable,
        Design.table?_addTable hnew, hrest]

/-! ### Runs -/

/-- The edit that takes another one back. -/
def takenBackBy? : Edit → Option Edit
  | .addTable table => some (.removeTable table.id)
  | .connectTables child parent => some (.disconnectTables child parent)
  | .connectColumns _ source target => some (.disconnectColumns source target)
  | _ => none

/-- Edits that are done one after the other, none of them refused. -/
inductive Done : Design → List Edit → Design → Prop where
  | nil (design : Design) : Done design [] design
  | cons {design following after : Design} {edit : Edit} {edits : List Edit} {answer : Answer}
      (first : edit.apply design = (.ok answer, following))
      (others : Done following edits after) : Done design (edit :: edits) after

theorem next_takenBackBy? (hsound : design.Sound) (h : edit.apply design = (.ok answer, after))
    (hback : edit.takenBackBy? = some back) : next after back = design := by
  cases edit with
  | addTable table =>
      cases hback
      rw [next, removeTable_of_addTable hsound h]
  | connectTables child parent =>
      cases hback
      rw [next, disconnectTables_of_connectTables h]
  | connectColumns kind source target =>
      cases hback
      rw [next, disconnectColumns_of_connectColumns h]
  | updateTable | removeTable | addColumn | updateColumn | removeColumn | setRelationKind
  | disconnectTables | disconnectColumns | setInheritance | clear => cases hback

/-- The last edit is taken back first. -/
theorem Done.run_takenBackBy? {edits backs : List Edit} (h : Done design edits after)
    (hsound : design.Sound) (hbacks : List.Forall₂ (fun edit back => edit.takenBackBy? = some back)
      edits backs) : run after backs.reverse = design := by
  induction h generalizing backs with
  | nil => cases hbacks; rfl
  | @cons design following after edit edits answer first others ih =>
      cases hbacks with
      | @cons _ back _ backs hback hbacks =>
          have hfollowing : following.Sound := (effect_of_apply first).sound hsound
          rw [List.reverse_cons, run_append_singleton, ih hfollowing hbacks]
          exact next_takenBackBy? hsound first hback

/-- In any design a new relation is taken back by disconnecting its ends, and in a design that edits
have built a new table is taken back by removing it.  So whole runs of such edits can be taken back,
the last edit first. -/
theorem edits_taken_back :
    (∀ design child parent answer after,
      (connectTables child parent).apply design = (.ok answer, after) →
      (disconnectTables child parent).apply after = (.ok (.existed true), design)) ∧
    (∀ design kind source target answer after,
      (connectColumns kind source target).apply design = (.ok answer, after) →
      (disconnectColumns source target).apply after = (.ok (.existed true), design)) ∧
    ∀ kind edits,
      (∀ table answer after,
        (addTable table).apply (run (.empty kind) edits) = (.ok answer, after) →
        (removeTable table.id).apply after =
          (.ok (.removedTable table), run (.empty kind) edits)) ∧
      ∀ others backs after, Done (run (.empty kind) edits) others after →
        List.Forall₂ (fun edit back => edit.takenBackBy? = some back) others backs →
        run after backs.reverse = run (.empty kind) edits := by
  refine ⟨fun _ _ _ _ _ => disconnectTables_of_connectTables,
    fun _ _ _ _ _ _ => disconnectColumns_of_connectColumns, fun kind edits => ?_⟩
  have hsound : (run (.empty kind) edits).Sound := run_sound (Design.empty_sound kind) edits
  exact ⟨fun _ _ _ => removeTable_of_addTable hsound,
    fun _ _ _ hdone => hdone.run_takenBackBy? hsound⟩

/-- Relations were left behind here, one to a table and one to a column that are not there. -/
def annex : Design where
  tables := [.create "hall" "Hall", .create "door" "Door"]
  columns :=
    [ (Column.create "hall.id" "hall" "id" "INT").primaryKey,
      (Column.create "door.hall" "door" "hall_id" "INT").foreignKey ]
  relations :=
    [ .inherits "hall" "house",
      .between .oneToMany "house" "house.id" "door" "door.hall" ]
  inheritance := .classTable

theorem edits_taken_back_in_annex :
    (∃ answer after, (connectTables "door" "hall").apply annex = (.ok answer, after) ∧
      (disconnectTables "door" "hall").apply after = (.ok (.existed true), annex)) ∧
    (∃ answer after,
      (connectColumns .oneToMany "hall.id" "door.hall").apply annex = (.ok answer, after) ∧
      (disconnectColumns "hall.id" "door.hall").apply after = (.ok (.existed true), annex)) ∧
    ∃ answer after,
      (addTable (.create "b" "B")).apply (run (.empty .singleTable) strandingEdits) =
        (.ok answer, after) ∧
      (removeTable "b").apply after =
        (.ok (.removedTable (.create "b" "B")), run (.empty .singleTable) strandingEdits) ∧
      run after [.removeTable "b"] = run (.empty .singleTable) strandingEdits := by
  obtain ⟨htables, hcolumns, hedits⟩ := edits_taken_back
  obtain ⟨hadded, hruns⟩ := hedits .singleTable strandingEdits
  have hgate : annex.checkInheritance "door" "hall" = .ok () := by decide +kernel
  have hconnected : (connectTables "door" "hall").apply annex =
      (.ok .done, annex.addRelation (.inherits "door" "hall")) := by
    simp [apply, steps, Editing.on_connectTables, hgate]
  refine ⟨⟨_, _, hconnected, htables _ _ _ _ _ hconnected⟩,
    ⟨_, _, rfl, hcolumns _ .oneToMany _ _ _ _ rfl⟩,
    _, _, rfl, hadded (.create "b" "B") _ _ rfl, ?_⟩
  exact hruns [.addTable (.create "b" "B")] [.removeTable "b"] _ (.cons rfl (.nil _))
    (.cons rfl .nil)

end Edit

end SchemaDesign
