import SchemaDesign.Proofs.Design.Gate

/-!
# The effects of edits

Run on a design, each edit either is refused with the design as it was, or it has one of a dozen
effects under the conditions that were checked before it.  Later proofs go through these cases and
do not look into the steps again.
-/

namespace SchemaDesign

/-! ### Changing the first element with a property -/

section ModifyFirst

variable {α β : Type} {property : α → Bool} {change : α → α}

theorem mem_modifyFirst {y : α} {list : List α} (h : y ∈ modifyFirst property change list) :
    y ∈ list ∨ ∃ x ∈ list, property x ∧ y = change x := by
  induction list with
  | nil => simp [modifyFirst] at h
  | cons x list ih =>
      rw [modifyFirst] at h
      split at h
      case isTrue hx =>
        rcases List.mem_cons.mp h with hy | hy
        · exact .inr ⟨x, by simp, hx, hy⟩
        · exact .inl (List.mem_cons_of_mem _ hy)
      case isFalse =>
        rcases List.mem_cons.mp h with hy | hy
        · exact .inl (by simp [hy])
        · rcases ih hy with hy | ⟨z, hz, hproperty, hchange⟩
          · exact .inl (List.mem_cons_of_mem _ hy)
          · exact .inr ⟨z, List.mem_cons_of_mem _ hz, hproperty, hchange⟩

theorem map_modifyFirst {f : α → β} (h : ∀ x, property x → f (change x) = f x) (list : List α) :
    (modifyFirst property change list).map f = list.map f := by
  induction list with
  | nil => rfl
  | cons x list ih =>
      rw [modifyFirst]
      split
      case isTrue hx => simp [h x hx]
      case isFalse => simp [ih]

theorem countP_modifyFirst {quality : α → Bool}
    (h : ∀ x, property x → quality (change x) = quality x) (list : List α) :
    (modifyFirst property change list).countP quality = list.countP quality := by
  have hcount : ∀ xs : List α, xs.countP quality = (xs.map quality).count true := by
    intro xs
    rw [List.count, List.countP_map]
    congr 1
    funext x
    simp
  rw [hcount, hcount, map_modifyFirst h]

/-- A change that loses a quality leaves no more elements of that quality. -/
theorem filter_modifyFirst_sublist {quality : α → Bool}
    (h : ∀ x, property x → quality (change x) = false) (list : List α) :
    ((modifyFirst property change list).filter quality).Sublist (list.filter quality) := by
  induction list with
  | nil => exact .refl _
  | cons x list ih =>
      rw [modifyFirst]
      split
      case isTrue hx =>
        rw [List.filter_cons_of_neg (by simp [h x hx])]
        exact (List.sublist_cons_self x list).filter quality
      case isFalse =>
        rw [List.filter_cons, List.filter_cons]
        split
        · exact ih.cons_cons x
        · exact ih

/-- Once the first element with a key is replaced by another one with that key, the search for the
key finds the new element, and every other search goes as before. -/
theorem find?_replaceFirst {key : α → String} {new : α} {list : List α}
    (hfound : (list.find? (key · == key new)).isSome) (k : String) :
    (modifyFirst (key · == key new) (fun _ => new) list).find? (key · == k) =
      if key new = k then some new else list.find? (key · == k) := by
  induction list with
  | nil => simp at hfound
  | cons x list ih =>
      rw [modifyFirst]
      split
      case isTrue hx =>
        have hkey : key x = key new := eq_of_beq hx
        by_cases hk : key new = k
        · simp [hk]
        · simp [hkey, hk]
      case isFalse hx =>
        have hrest : (list.find? (key · == key new)).isSome := by
          simpa [List.find?_cons, hx] using hfound
        by_cases hk : key x = k
        · have hne : key new ≠ k := fun h => hx (by simp [hk, h])
          simp [hk, hne]
        · rw [List.find?_cons_of_neg (by simp [hk]), List.find?_cons_of_neg (by simp [hk]),
            ih hrest]

end ModifyFirst

namespace Design

/-- What is left when a table is removed. -/
def withoutTable (design : Design) (id : TableId) : Design :=
  { design with
    tables := design.tables.eraseP (·.id == id)
    columns := design.columns.filter (·.table != id)
    relations := design.relations.filter (!·.touchesTable id) }

def withoutColumn (design : Design) (id : ColumnId) : Design :=
  { design with
    columns := design.columns.eraseP (·.id == id)
    relations := design.relations.filter (!·.touchesColumn id) }

def withoutRelation (design : Design) (property : Relation → Bool) : Design :=
  { design with relations := design.relations.eraseP property }

def withTable (design : Design) (table : Table) : Design :=
  { design with
    tables := modifyFirst (·.id == table.id) (fun _ => table) design.tables }

def withColumn (design : Design) (column : Column) : Design :=
  { design with
    columns := modifyFirst (·.id == column.id) (fun _ => column) design.columns }

def withRelationKind (design : Design) (kind : RelationKind) (source target : ColumnId) : Design :=
  { design with
    relations := modifyFirst (·.joins source target)
      (fun relation => { relation with kind := kind }) design.relations }

end Design

/-! ### Steps -/

namespace Editing

variable {α β : Type} (design : Design)

@[simp]
theorem on_pure (x : α) : (pure x : Editing α).on design = (.ok x, design) :=
  rfl

@[simp]
theorem on_throw (error : EditError) :
    (throw error : Editing α).on design = (.error error, design) :=
  rfl

@[simp]
theorem on_get : (get : Editing Design).on design = (.ok design, design) :=
  rfl

@[simp]
theorem on_modify (change : Design → Design) :
    (modify change : Editing Unit).on design = (.ok (), change design) :=
  rfl

/-- After a refusal the other steps are not taken. -/
@[simp]
theorem on_bind (first : Editing α) (others : α → Editing β) :
    (first >>= others).on design =
      match first.on design with
      | (.ok x, following) => (others x).on following
      | (.error error, following) => (.error error, following) := by
  change ExceptT.bindCont others (first.on design).1 (first.on design).2 = _
  rcases first.on design with ⟨answer, following⟩
  cases answer with
  | error error => rfl
  | ok x => rfl

@[simp]
theorem on_map (f : α → β) (steps : Editing α) :
    (f <$> steps).on design =
      match steps.on design with
      | (.ok x, following) => (.ok (f x), following)
      | (.error error, following) => (.error error, following) := by
  rw [map_eq_pure_bind, on_bind]
  rfl

theorem on_addTable (table : Table) :
    (addTable table).on design =
      if design.hasTable table.id then (.error (.duplicateId table.id), design)
      else (.ok table.id, { design with tables := design.tables ++ [table] }) := by
  by_cases hfound : design.hasTable table.id
  · simp [addTable, hfound]
  · simp [addTable, changeTables, hfound]

theorem on_updateTable (table : Table) :
    (updateTable table).on design =
      match design.table? table.id with
      | some _ => (.ok (), design.withTable table)
      | none => (.error (.tableNotFound table.id), design) := by
  cases hfound : design.table? table.id with
  | none => simp [updateTable, hfound]
  | some _ => simp [updateTable, changeTables, Design.withTable, hfound]

theorem on_removeTable (id : TableId) :
    (removeTable id).on design =
      match design.table? id with
      | some table => (.ok table, design.withoutTable id)
      | none => (.error (.tableNotFound id), design) := by
  cases hfound : design.table? id with
  | none => simp [removeTable, hfound]
  | some table =>
      simp [removeTable, changeTables, changeColumns, changeRelations, Design.withoutTable, hfound]

theorem on_addColumn (column : Column) :
    (addColumn column).on design =
      if !design.hasTable column.table then (.error (.tableNotFound column.table), design)
      else if (design.column? column.id).isSome then (.error (.duplicateId column.id), design)
      else (.ok column.id, { design with columns := design.columns ++ [column] }) := by
  by_cases howner : design.hasTable column.table
  · by_cases hfound : (design.column? column.id).isSome
    · simp [addColumn, howner, hfound]
    · simp [addColumn, changeColumns, howner, hfound]
  · simp [addColumn, howner]

theorem on_removeRelation (property : Relation → Bool) :
    (removeRelation property).on design =
      (.ok (design.relations.any property), design.withoutRelation property) := by
  simp [removeRelation, changeRelations, Design.withoutRelation]

theorem on_connectTables (child parent : TableId) :
    (connectTables child parent).on design =
      match design.checkInheritance child parent with
      | .ok () => (.ok (), design.addRelation (.inherits child parent))
      | .error rejection => (.error (.rejected rejection), design) := by
  cases hgate : design.checkInheritance child parent with
  | error rejection => simp [connectTables, pass, hgate]
  | ok => simp [connectTables, pass, hgate]

theorem on_updateColumn (column : Column) :
    (updateColumn column).on design =
      if !design.hasTable column.table then (.error (.tableNotFound column.table), design)
      else
        match design.column? column.id with
        | some _ => (.ok (), design.withColumn column)
        | none => (.error (.columnNotFound column.id), design) := by
  by_cases howner : design.hasTable column.table
  · cases hfound : design.column? column.id with
    | none => simp [updateColumn, howner, hfound]
    | some _ => simp [updateColumn, changeColumns, Design.withColumn, howner, hfound]
  · simp [updateColumn, howner]

theorem on_removeColumn (id : ColumnId) :
    (removeColumn id).on design =
      match design.column? id with
      | some column => (.ok column, design.withoutColumn id)
      | none => (.error (.columnNotFound id), design) := by
  cases hfound : design.column? id with
  | none => simp [removeColumn, hfound]
  | some column =>
      simp [removeColumn, changeColumns, changeRelations, Design.withoutColumn, hfound]

theorem on_tableOf (id : ColumnId) :
    (tableOf id).on design =
      match design.column? id with
      | some column => (.ok column.table, design)
      | none => (.error (.columnNotFound id), design) := by
  cases hfound : design.column? id with
  | none => simp [tableOf, hfound]
  | some column => simp [tableOf, hfound]

theorem on_connectColumns (kind : RelationKind) (source target : ColumnId) :
    (connectColumns kind source target).on design =
      match design.column? source, design.column? target with
      | none, _ => (.error (.columnNotFound source), design)
      | some _, none => (.error (.columnNotFound target), design)
      | some sourceColumn, some targetColumn =>
        match design.checkData kind sourceColumn.table source targetColumn.table target with
        | .error rejection => (.error (.rejected rejection), design)
        | .ok () =>
          if (design.columnRelation? source target).isSome then (.error .duplicateRelation, design)
          else (.ok (), design.addRelation
            (.between kind sourceColumn.table source targetColumn.table target)) := by
  cases hsource : design.column? source with
  | none => simp [connectColumns, on_tableOf, hsource]
  | some sourceColumn =>
      cases htarget : design.column? target with
      | none => simp [connectColumns, on_tableOf, hsource, htarget]
      | some targetColumn =>
          cases hgate :
              design.checkData kind sourceColumn.table source targetColumn.table target with
          | error rejection => simp [connectColumns, on_tableOf, pass, hsource, htarget, hgate]
          | ok =>
              by_cases hfound : (design.columnRelation? source target).isSome
              · simp [connectColumns, on_tableOf, pass, hsource, htarget, hgate, hfound]
              · simp [connectColumns, on_tableOf, pass, hsource, htarget, hgate, hfound]

theorem on_setRelationKind (kind : RelationKind) (source target : ColumnId) :
    (setRelationKind kind source target).on design =
      if kind = .inheritsFrom then (.error (.rejected .inheritanceOnColumns), design)
      else
        match design.columnRelation? source target with
        | some _ => (.ok (), design.withRelationKind kind source target)
        | none => (.error (.columnNotFound target), design) := by
  by_cases hkind : kind = .inheritsFrom
  · simp [setRelationKind, hkind]
  · cases hfound : design.columnRelation? source target with
    | none => simp [setRelationKind, hkind, hfound]
    | some _ => simp [setRelationKind, changeRelations, Design.withRelationKind, hkind, hfound]

end Editing

namespace Edit

/-- The answer to an edit that is not refused, and the design that it makes of another one. -/
inductive Effect (design : Design) : Edit → Answer → Design → Prop
  | addTable {table : Table} (hnew : ¬design.hasTable table.id) :
      Effect design (.addTable table) (.added table.id)
        { design with tables := design.tables ++ [table] }
  | updateTable {table : Table} (hfound : design.hasTable table.id) :
      Effect design (.updateTable table) .done (design.withTable table)
  | removeTable {id : TableId} {table : Table} (hfound : design.table? id = some table) :
      Effect design (.removeTable id) (.removedTable table) (design.withoutTable id)
  | addColumn {column : Column} (howner : design.hasTable column.table)
      (hnew : design.column? column.id = none) :
      Effect design (.addColumn column) (.added column.id)
        { design with columns := design.columns ++ [column] }
  | updateColumn {column former : Column} (howner : design.hasTable column.table)
      (hfound : design.column? column.id = some former) :
      Effect design (.updateColumn column) .done (design.withColumn column)
  | removeColumn {id : ColumnId} {column : Column} (hfound : design.column? id = some column) :
      Effect design (.removeColumn id) (.removedColumn column) (design.withoutColumn id)
  | connectTables {child parent : TableId}
      (hgate : design.checkInheritance child parent = .ok ()) :
      Effect design (.connectTables child parent) .done
        (design.addRelation (.inherits child parent))
  | connectColumns {kind : RelationKind} {source target : ColumnId}
      {sourceColumn targetColumn : Column} (hsource : design.column? source = some sourceColumn)
      (htarget : design.column? target = some targetColumn)
      (hgate : design.checkData kind sourceColumn.table source targetColumn.table target = .ok ())
      (hnew : design.columnRelation? source target = none) :
      Effect design (.connectColumns kind source target) .done
        (design.addRelation (.between kind sourceColumn.table source targetColumn.table target))
  | setRelationKind {kind : RelationKind} {source target : ColumnId}
      (hkind : kind ≠ .inheritsFrom) (hfound : (design.columnRelation? source target).isSome) :
      Effect design (.setRelationKind kind source target) .done
        (design.withRelationKind kind source target)
  | disconnectTables {child parent : TableId} :
      Effect design (.disconnectTables child parent)
        (.existed (design.relations.any (Design.isInheritanceBetween child parent)))
        (design.withoutRelation (Design.isInheritanceBetween child parent))
  | disconnectColumns {source target : ColumnId} :
      Effect design (.disconnectColumns source target)
        (.existed (design.relations.any (·.joins source target)))
        (design.withoutRelation (·.joins source target))
  | setInheritance {kind : InheritanceKind} :
      Effect design (.setInheritance kind) .done (design.setInheritance kind)
  | clear : Effect design .clear .done design.clear

/-- An edit is refused, and then nothing has been changed, or it has its effect. -/
inductive Outcome (design : Design) (edit : Edit) : Except EditError Answer × Design → Prop
  | refused (error : EditError) : Outcome design edit (.error error, design)
  | done {answer : Answer} {after : Design} (heffect : Effect design edit answer after) :
      Outcome design edit (.ok answer, after)

theorem outcome_of_apply (edit : Edit) (design : Design) :
    Outcome design edit (edit.apply design) := by
  cases edit with
  | addTable table =>
      simp only [apply, steps, bind_pure_comp, Editing.on_map, Editing.on_addTable]
      by_cases hfound : design.hasTable table.id
      · rw [if_pos hfound]
        exact .refused _
      · rw [if_neg hfound]
        exact .done (.addTable hfound)
  | updateTable table =>
      simp only [apply, steps, bind_pure_comp, Editing.on_map, Editing.on_updateTable]
      cases hfound : design.table? table.id with
      | none => exact .refused _
      | some _ => exact .done (.updateTable (Option.isSome_of_eq_some hfound))
  | removeTable id =>
      simp only [apply, steps, bind_pure_comp, Editing.on_map, Editing.on_removeTable]
      cases hfound : design.table? id with
      | none => exact .refused _
      | some table => exact .done (.removeTable hfound)
  | addColumn column =>
      simp only [apply, steps, bind_pure_comp, Editing.on_map, Editing.on_addColumn]
      by_cases howner : design.hasTable column.table
      · by_cases hfound : (design.column? column.id).isSome
        · rw [if_neg (by simp [howner]), if_pos hfound]
          exact .refused _
        · rw [if_neg (by simp [howner]), if_neg hfound]
          exact .done (.addColumn howner (Option.not_isSome_iff_eq_none.mp hfound))
      · rw [if_pos (by simp [howner])]
        exact .refused _
  | updateColumn column =>
      simp only [apply, steps, bind_pure_comp, Editing.on_map, Editing.on_updateColumn]
      by_cases howner : design.hasTable column.table
      · rw [if_neg (by simp [howner])]
        cases hfound : design.column? column.id with
        | none => exact .refused _
        | some former => exact .done (.updateColumn howner hfound)
      · rw [if_pos (by simp [howner])]
        exact .refused _
  | removeColumn id =>
      simp only [apply, steps, bind_pure_comp, Editing.on_map, Editing.on_removeColumn]
      cases hfound : design.column? id with
      | none => exact .refused _
      | some column => exact .done (.removeColumn hfound)
  | connectTables child parent =>
      simp only [apply, steps, bind_pure_comp, Editing.on_map, Editing.on_connectTables]
      cases hgate : design.checkInheritance child parent with
      | error rejection => exact .refused _
      | ok => exact .done (.connectTables hgate)
  | connectColumns kind source target =>
      simp only [apply, steps, bind_pure_comp, Editing.on_map, Editing.on_connectColumns]
      cases hsource : design.column? source with
      | none => exact .refused _
      | some sourceColumn =>
          cases htarget : design.column? target with
          | none => exact .refused _
          | some targetColumn =>
              cases hgate :
                  design.checkData kind sourceColumn.table source targetColumn.table target with
              | error rejection =>
                  simp only [hgate]
                  exact .refused _
              | ok =>
                  simp only [hgate]
                  cases hnew : design.columnRelation? source target with
                  | some _ => exact .refused _
                  | none => exact .done (.connectColumns hsource htarget hgate hnew)
  | setRelationKind kind source target =>
      simp only [apply, steps, bind_pure_comp, Editing.on_map, Editing.on_setRelationKind]
      by_cases hkind : kind = .inheritsFrom
      · rw [if_pos hkind]
        exact .refused _
      · rw [if_neg hkind]
        cases hfound : design.columnRelation? source target with
        | none => exact .refused _
        | some _ => exact .done (.setRelationKind hkind (Option.isSome_of_eq_some hfound))
  | disconnectTables child parent => exact .done .disconnectTables
  | disconnectColumns source target => exact .done .disconnectColumns
  | setInheritance kind => exact .done .setInheritance
  | clear => exact .done .clear

variable {design after : Design} {edit : Edit}

theorem effect_of_apply {answer : Answer} (h : edit.apply design = (.ok answer, after)) :
    Effect design edit answer after := by
  have houtcome := outcome_of_apply edit design
  rw [h] at houtcome
  cases houtcome with
  | done heffect => exact heffect

theorem eq_of_refused {error : EditError} (h : edit.apply design = (.error error, after)) :
    after = design := by
  have houtcome := outcome_of_apply edit design
  rw [h] at houtcome
  cases houtcome with
  | refused => rfl

/-- An edit either is refused and changes nothing or has its effect. -/
theorem next_eq_or_effect (design : Design) (edit : Edit) :
    next design edit = design ∨ ∃ answer, Effect design edit answer (next design edit) := by
  rcases hresult : edit.apply design with ⟨result, after⟩
  have hnext : next design edit = after := congrArg Prod.snd hresult
  rw [hnext]
  cases result with
  | error error => exact .inl (eq_of_refused hresult)
  | ok answer => exact .inr ⟨answer, effect_of_apply hresult⟩

end Edit

end SchemaDesign
