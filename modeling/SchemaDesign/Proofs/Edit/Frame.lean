import SchemaDesign.Proofs.Edit.Effect
import SchemaDesign.Proofs.Related

/-!
# What edits leave alone

An edit names at most one record of each list of a design.  That record is added at the end, or it
is the first one of its name and is replaced or removed.  The columns of a removed table go along,
and so do the relations that touch a removed table or column.  Nothing else changes, whatever the
design is: ids may repeat, and references need not resolve.
-/

namespace SchemaDesign

/-- At most one record with a property is added at the end, or the first one that has it is replaced
by another one or removed. -/
inductive Exchange {α : Type} (property : α → Bool) : List α → List α → Prop where
  | same (list : List α) : Exchange property list list
  | added {new : α} (hnew : property new) (list : List α) :
      Exchange property list (list ++ [new])
  | replaced {before rest : List α} {old new : α} (hfirst : ∀ x ∈ before, ¬property x)
      (hold : property old) (hnew : property new) :
      Exchange property (before ++ old :: rest) (before ++ new :: rest)
  | removed {before rest : List α} {old : α} (hfirst : ∀ x ∈ before, ¬property x)
      (hold : property old) : Exchange property (before ++ old :: rest) (before ++ rest)

section Exchange

variable {α : Type} {property : α → Bool} {change : α → α} {list : List α}

theorem exchange_eraseP (property : α → Bool) (list : List α) :
    Exchange property list (list.eraseP property) := by
  rcases List.exists_or_eq_self_of_eraseP property list with hsame | hsplit
  · rw [hsame]
    exact .same list
  · obtain ⟨old, before, rest, hfirst, hold, hlist, herase⟩ := hsplit
    rw [herase, hlist]
    exact .removed hfirst hold

theorem modifyFirst_append_cons {before : List α} {old : α} (hfirst : ∀ x ∈ before, ¬property x)
    (hold : property old) (rest : List α) :
    modifyFirst property change (before ++ old :: rest) = before ++ change old :: rest := by
  induction before with
  | nil => rw [List.nil_append, modifyFirst, if_pos hold, List.nil_append]
  | cons x before ih =>
      have hothers : ∀ y ∈ before, ¬property y := fun y hy => hfirst y (List.mem_cons_of_mem _ hy)
      rw [List.cons_append, modifyFirst, if_neg (hfirst x List.mem_cons_self), ih hothers,
        List.cons_append]

theorem exchange_modifyFirst (hchange : ∀ x, property x → property (change x))
    (hfound : (list.find? property).isSome) :
    Exchange property list (modifyFirst property change list) := by
  obtain ⟨old, hfind⟩ := Option.isSome_iff_exists.mp hfound
  obtain ⟨hold, before, rest, hlist, hbefore⟩ := List.find?_eq_some_iff_append.mp hfind
  have hfirst : ∀ x ∈ before, ¬property x := fun x hx => by simpa using hbefore x hx
  rw [hlist, modifyFirst_append_cons hfirst hold]
  exact .replaced hfirst hold (hchange old hold)

theorem filter_kept {goes : α → Bool} (hgoes : ∀ x, goes x = false) (list : List α) :
    list.filter (!goes ·) = list := by
  rw [List.filter_eq_self]
  intro x _
  simp [hgoes x]

end Exchange

namespace Edit

open Design (isInheritanceBetween)

/-! ### The records that an edit is about -/

def namesTable : Edit → Table → Bool
  | .addTable table, other => other.id == table.id
  | .updateTable table, other => other.id == table.id
  | .removeTable id, other => other.id == id
  | _, _ => false

def namesColumn : Edit → Column → Bool
  | .addColumn column, other => other.id == column.id
  | .updateColumn column, other => other.id == column.id
  | .removeColumn id, other => other.id == id
  | _, _ => false

/-- A relation is named by its ends. -/
def namesRelation : Edit → Relation → Bool
  | .connectTables child parent, relation => isInheritanceBetween child parent relation
  | .disconnectTables child parent, relation => isInheritanceBetween child parent relation
  | .connectColumns _ source target, relation => relation.joins source target
  | .setRelationKind _ source target, relation => relation.joins source target
  | .disconnectColumns source target, relation => relation.joins source target
  | _, _ => false

/-- The columns of a removed table. -/
def takesColumn : Edit → Column → Bool
  | .removeTable id, column => column.table == id
  | _, _ => false

/-- The relations that touch a removed table or column. -/
def takesRelation : Edit → Relation → Bool
  | .removeTable id, relation => relation.touchesTable id
  | .removeColumn id, relation => relation.touchesColumn id
  | _, _ => false

def newInheritance? : Edit → Option InheritanceKind
  | .setInheritance kind => some kind
  | _ => none

/-- The edit changes nothing but the records that it names and those that go along. -/
structure Frame (edit : Edit) (design after : Design) : Prop where
  tables : Exchange edit.namesTable design.tables after.tables
  columns : Exchange edit.namesColumn (design.columns.filter (!edit.takesColumn ·)) after.columns
  relations :
    Exchange edit.namesRelation (design.relations.filter (!edit.takesRelation ·)) after.relations
  inheritance : after.inheritance = edit.newInheritance?.getD design.inheritance

variable {design after : Design} {edit : Edit} {answer : Answer}

theorem Frame.of_none_taken (hcolumn : ∀ x, edit.takesColumn x = false)
    (hrelation : ∀ x, edit.takesRelation x = false)
    (htables : Exchange edit.namesTable design.tables after.tables)
    (hcolumns : Exchange edit.namesColumn design.columns after.columns)
    (hrelations : Exchange edit.namesRelation design.relations after.relations)
    (hkind : after.inheritance = edit.newInheritance?.getD design.inheritance) :
    edit.Frame design after where
  tables := htables
  columns := by
    rw [filter_kept hcolumn]
    exact hcolumns
  relations := by
    rw [filter_kept hrelation]
    exact hrelations
  inheritance := hkind

theorem Effect.frame (heffect : Effect design edit answer after) (hedit : edit ≠ .clear) :
    edit.Frame design after := by
  cases heffect with
  | @addTable table =>
      refine .of_none_taken (fun _ => rfl) (fun _ => rfl) ?_ (.same _) (.same _) rfl
      apply Exchange.added
      simp [namesTable]
  | @updateTable table hfound =>
      refine .of_none_taken (fun _ => rfl) (fun _ => rfl) ?_ (.same _) (.same _) rfl
      exact exchange_modifyFirst (fun _ _ => beq_self_eq_true table.id) hfound
  | removeTable => exact ⟨exchange_eraseP _ _, .same _, .same _, rfl⟩
  | @addColumn column =>
      refine .of_none_taken (fun _ => rfl) (fun _ => rfl) (.same _) ?_ (.same _) rfl
      apply Exchange.added
      simp [namesColumn]
  | @updateColumn column former _ hfound =>
      refine .of_none_taken (fun _ => rfl) (fun _ => rfl) (.same _) ?_ (.same _) rfl
      exact exchange_modifyFirst (fun _ _ => beq_self_eq_true column.id)
        (Option.isSome_iff_exists.mpr ⟨former, hfound⟩)
  | @removeColumn id =>
      have hcolumns : Exchange (Edit.removeColumn id).namesColumn
          (design.columns.filter (!(Edit.removeColumn id).takesColumn ·))
          (design.withoutColumn id).columns := by
        have hkept : ∀ x, (Edit.removeColumn id).takesColumn x = false := fun _ => rfl
        rw [filter_kept hkept]
        exact exchange_eraseP _ _
      exact ⟨.same _, hcolumns, .same _, rfl⟩
  | @connectTables child parent =>
      refine .of_none_taken (fun _ => rfl) (fun _ => rfl) (.same _) (.same _) ?_ rfl
      apply Exchange.added
      simp [namesRelation, isInheritanceBetween, Relation.inherits, Relation.isInheritance]
  | @connectColumns kind source target sourceColumn targetColumn =>
      refine .of_none_taken (fun _ => rfl) (fun _ => rfl) (.same _) (.same _) ?_ rfl
      apply Exchange.added
      simp [namesRelation, Relation.joins, Relation.between]
  | setRelationKind _ hfound =>
      refine .of_none_taken (fun _ => rfl) (fun _ => rfl) (.same _) (.same _) ?_ rfl
      exact exchange_modifyFirst (fun _ hjoins => hjoins) hfound
  | disconnectTables =>
      refine .of_none_taken (fun _ => rfl) (fun _ => rfl) (.same _) (.same _) ?_ rfl
      exact exchange_eraseP _ _
  | disconnectColumns =>
      refine .of_none_taken (fun _ => rfl) (fun _ => rfl) (.same _) (.same _) ?_ rfl
      exact exchange_eraseP _ _
  | setInheritance =>
      exact .of_none_taken (fun _ => rfl) (fun _ => rfl) (.same _) (.same _) (.same _) rfl
  | clear => exact absurd rfl hedit

/-! ### Edits that find nothing -/

theorem withoutRelation_of_not_any {property : Relation → Bool}
    (hnone : design.relations.any property = false) : design.withoutRelation property = design := by
  have hkept : design.relations.eraseP property = design.relations :=
    List.eraseP_of_forall_not (by simpa using hnone)
  rw [Design.withoutRelation, hkept]

theorem Effect.eq_of_not_existed (heffect : Effect design edit (.existed false) after) :
    after = design := by
  generalize hanswer : Answer.existed false = answer at heffect
  cases heffect with
  | disconnectTables => exact withoutRelation_of_not_any (Answer.existed.inj hanswer).symm
  | disconnectColumns => exact withoutRelation_of_not_any (Answer.existed.inj hanswer).symm
  | addTable | updateTable | removeTable | addColumn | updateColumn | removeColumn | connectTables
  | connectColumns | setRelationKind | setInheritance | clear => cases hanswer

/-- An edit that is refused, or that finds nothing to disconnect, leaves the design as it is.  Any
other one exchanges the records that it names, takes along what refers to a removed one, and leaves
all others as they are and in their order. -/
theorem records_kept_by_edits (design : Design) {edit : Edit} (hedit : edit ≠ .clear) :
    (∀ error, (edit.apply design).1 = .error error → next design edit = design) ∧
    ((edit.apply design).1 = .ok (.existed false) → next design edit = design) ∧
    ∀ answer, (edit.apply design).1 = .ok answer → edit.Frame design (next design edit) := by
  refine ⟨fun error hrefused => ?_, fun hmissing => ?_, fun answer hdone => ?_⟩
  · exact eq_of_refused (Prod.ext hrefused rfl)
  · exact (effect_of_apply (Prod.ext hmissing rfl)).eq_of_not_existed
  · exact (effect_of_apply (Prod.ext hdone rfl)).frame hedit

/-- Ids repeat here, and there is no shelf. -/
def attic : Design where
  tables := [.create "box" "Box", .create "lid" "Lid", .create "box" "Crate"]
  columns :=
    [ (Column.create "key" "box" "id" "INT").primaryKey,
      (Column.create "key" "lid" "box_id" "INT").foreignKey,
      Column.create "size" "shelf" "size" "INT" ]
  relations :=
    [ .between .oneToOne "box" "key" "lid" "key",
      .inherits "lid" "shelf",
      .between .oneToMany "lid" "key" "shelf" "size" ]
  inheritance := .singleTable

theorem records_kept_in_attic :
    ((next attic (removeTable "box")).tables.map (·.name) = ["Lid", "Crate"] ∧
      (next attic (removeTable "box")).columns.length = 2 ∧
      (removeTable "box").Frame attic (next attic (removeTable "box"))) ∧
    next attic (connectTables "lid" "box") = attic ∧
    next attic (disconnectTables "lid" "box") = attic := by
  have hremove := records_kept_by_edits attic (nofun : removeTable "box" ≠ .clear)
  have hconnect := records_kept_by_edits attic (nofun : connectTables "lid" "box" ≠ .clear)
  have hdisconnect :=
    records_kept_by_edits attic (nofun : disconnectTables "lid" "box" ≠ .clear)
  refine ⟨⟨rfl, rfl, ?_⟩, ?_, ?_⟩
  · exact hremove.2.2 (.removedTable (.create "box" "Box")) rfl
  · exact hconnect.1 (.rejected (.multipleInheritance "Lid")) rfl
  · exact hdisconnect.2.1 rfl

end Edit

end SchemaDesign
