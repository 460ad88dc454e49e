import SchemaDesign.Proofs.Edit.Sound

/-!
# Issues of edited designs

The relations of an edited design always join tables that exist, but their columns may get lost:
an update can move a column to another table, and a data relation that names the column keeps the
former table.  When the new table is removed later, the column disappears and the relation stays.
Moving a column that a data relation names is the only way to such an issue.
-/

namespace SchemaDesign

/-- What relations look like that the edits add. -/
inductive Relation.Regular : Relation → Prop
  | inherits (child parent : TableId) : Regular (.inherits child parent)
  | between {kind : RelationKind} (hkind : kind ≠ .inheritsFrom) (sourceTable : TableId)
      (source : ColumnId) (targetTable : TableId) (target : ColumnId) :
      Regular (.between kind sourceTable source targetTable target)

namespace Design

variable {design other : Design}

theorem Resolved.of_subset (hresolved : design.Resolved)
    (hsubset : other.relations ⊆ design.relations) (hcolumns : other.columns = design.columns) :
    other.Resolved := by
  intro relation hmem hdata
  have hends := hresolved relation (hsubset hmem) hdata
  have hsame : ∀ id, other.column? id = design.column? id := by
    intro id
    rw [column?, hcolumns, column?]
  simpa only [Resolves, hsame] using hends

theorem Resolved.withColumns (hresolved : design.Resolved) {columns : List Column}
    (hkept : ∀ relation ∈ design.relations, ¬relation.isInheritance → ∀ id column,
      relation.touchesColumn id → design.column? id = some column →
      ∃ new, { design with columns := columns }.column? id = some new ∧
        new.table = column.table) :
    { design with columns := columns }.Resolved := by
  intro relation hmem hdata
  have hend : ∀ endpoint, (∀ id, endpoint.column = some id → relation.touchesColumn id) →
      design.Resolves endpoint → { design with columns := columns }.Resolves endpoint := by
    intro endpoint htouches hresolves
    rcases hresolves with ⟨id, column, hid, hcolumn, htable⟩
    rcases hkept relation hmem hdata id column (htouches id hid) hcolumn with ⟨new, hnew, hsame⟩
    exact ⟨id, new, hid, hnew, hsame.trans htable⟩
  have hends := hresolved relation hmem hdata
  constructor
  · apply hend _ _ hends.1
    intro id hid
    simp [Relation.touchesColumn, hid]
  · apply hend _ _ hends.2
    intro id hid
    simp [Relation.touchesColumn, hid]

theorem Resolved.addColumn (hresolved : design.Resolved) (column : Column) :
    { design with columns := design.columns ++ [column] }.Resolved := by
  apply hresolved.withColumns
  intro _ _ _ id former _ hformer
  refine ⟨former, ?_, rfl⟩
  rw [column?] at hformer
  rw [column?, List.find?_append, hformer]
  rfl

theorem column?_replaceColumn {column former : Column}
    (hfound : design.column? column.id = some former) (id : ColumnId) :
    (design.withColumn column).column? id =
      if column.id = id then some column else design.column? id := by
  apply find?_replaceFirst
  rw [column?] at hfound
  rw [hfound]
  rfl

theorem Resolved.replaceColumn (hresolved : design.Resolved) {column former : Column}
    (hfound : design.column? column.id = some former)
    (hstays : former.table ≠ column.table → ∀ relation ∈ design.relations,
      ¬relation.isInheritance → ¬relation.touchesColumn column.id) :
    (design.withColumn column).Resolved := by
  apply hresolved.withColumns
  intro relation hmem hdata id other htouches hother
  change ∃ new, (design.withColumn column).column? id = some new ∧ new.table = other.table
  rw [column?_replaceColumn hfound]
  by_cases hsame : column.id = id
  · rw [← hsame] at htouches hother
    have hformer : former = other := Option.some.inj (hfound.symm.trans hother)
    refine ⟨column, if_pos hsame, ?_⟩
    by_contra hmoves
    exact hstays (fun h => hmoves (by rw [← h, hformer])) relation hmem hdata htouches
  · exact ⟨other, by rw [if_neg hsame, hother], rfl⟩

theorem Resolved.withoutTable (hresolved : design.Resolved)
    (hnodup : design.columnIds.Nodup) (id : TableId) : (design.withoutTable id).Resolved := by
  have hids : (design.withoutTable id).columnIds.Nodup :=
    hnodup.sublist (List.filter_sublist.map _)
  have hend : ∀ endpoint, endpoint.table ≠ id → design.Resolves endpoint →
      (design.withoutTable id).Resolves endpoint := by
    intro endpoint hne hresolves
    apply hresolves.of_kept hids
    intro column hcolumn _ htable
    exact List.mem_filter.mpr ⟨hcolumn, bne_iff_ne.mpr (htable ▸ hne)⟩
  intro relation hmem hdata
  rcases List.mem_filter.mp hmem with ⟨hmem, huntouched⟩
  have hne : relation.source.table ≠ id ∧ relation.target.table ≠ id := by
    simpa [Relation.touchesTable] using huntouched
  have hends := hresolved relation hmem hdata
  exact ⟨hend _ hne.1 hends.1, hend _ hne.2 hends.2⟩

theorem Resolved.withoutColumn (hresolved : design.Resolved)
    (hnodup : design.columnIds.Nodup) (id : ColumnId) : (design.withoutColumn id).Resolved := by
  have hcolumns : (design.withoutColumn id).columns = design.columns.filter (·.id != id) :=
    eraseP_key_of_nodup hnodup id
  have hids : (design.withoutColumn id).columnIds.Nodup :=
    hnodup.sublist (List.eraseP_sublist.map _)
  have hend : ∀ endpoint, endpoint.column ≠ some id → design.Resolves endpoint →
      (design.withoutColumn id).Resolves endpoint := by
    intro endpoint hne hresolves
    apply hresolves.of_kept hids
    intro column hcolumn hid _
    rw [hcolumns]
    have hkept : column.id ≠ id := by
      intro hsame
      exact hne (hsame ▸ hid)
    exact List.mem_filter.mpr ⟨hcolumn, bne_iff_ne.mpr hkept⟩
  intro relation hmem hdata
  rcases List.mem_filter.mp hmem with ⟨hmem, huntouched⟩
  have hne : relation.source.column ≠ some id ∧ relation.target.column ≠ some id := by
    simpa [Relation.touchesColumn] using huntouched
  have hends := hresolved relation hmem hdata
  exact ⟨hend _ hne.1 hends.1, hend _ hne.2 hends.2⟩

theorem Resolved.addRelation (hresolved : design.Resolved) {relation : Relation}
    (hends : ¬relation.isInheritance →
      design.Resolves relation.source ∧ design.Resolves relation.target) :
    (design.addRelation relation).Resolved := by
  intro other hmem hdata
  rcases List.mem_append.mp hmem with hmem | hmem
  · exact hresolved other hmem hdata
  · rw [List.mem_singleton] at hmem
    subst hmem
    exact hends hdata

theorem Resolved.withRelationKind (hresolved : design.Resolved)
    (hregular : ∀ relation ∈ design.relations, relation.Regular) (kind : RelationKind)
    (source target : ColumnId) : (design.withRelationKind kind source target).Resolved := by
  intro relation hmem hdata
  rcases mem_modifyFirst hmem with hkept | ⟨former, hformer, hjoins, rfl⟩
  · exact hresolved relation hkept hdata
  · have hformerData : ¬former.isInheritance := by
      cases hregular former hformer with
      | inherits => simp [Relation.joins, Relation.inherits] at hjoins
      | between hkind => exact Relation.not_isInheritance_between hkind _ _ _ _
    exact hresolved former hformer hformerData

/-- The issues of a sound design are columns that its data relations name in vain. -/
theorem Sound.mem_issues (hsound : design.Sound)
    (hregular : ∀ relation ∈ design.relations, relation.Regular) {issue : Issue}
    (hissue : issue ∈ design.issues) :
    ∃ relation ∈ design.relations, ¬relation.isInheritance ∧
      ∃ id, relation.touchesColumn id ∧
        (issue = .danglingRelation relation (.column id) ∨
          ∃ owner, issue = .danglingRelation relation (.columnOn id owner)) := by
  rcases mem_relationIssues_of_mem_issues hsound.parents_le_one hsound.acyclic hsound.owner hissue
    with ⟨relation, hmem, hissue⟩
  have hends := hsound.ends relation hmem
  rw [relationIssues, (missingTable_eq_nil_iff design _).mpr hends.1,
    (missingTable_eq_nil_iff design _).mpr hends.2] at hissue
  refine ⟨relation, hmem, ?_⟩
  cases hregular relation hmem with
  | inherits child parent => simp [Relation.isInheritance, Relation.inherits] at hissue
  | @between kind hkind sourceTable source targetTable target =>
      have hdata := Relation.not_isInheritance_between hkind sourceTable source targetTable target
      refine ⟨hdata, ?_⟩
      rw [if_neg hdata, List.append_nil, List.nil_append] at hissue
      rcases List.mem_map.mp hissue with ⟨missing, hmissing, rfl⟩
      rcases List.mem_append.mp hmissing with hmissing | hmissing
      · refine ⟨source, by simp [Relation.touchesColumn, Relation.between], ?_⟩
        rcases mem_missingColumn rfl hmissing with ⟨rfl, _⟩ | rfl
        · exact .inl rfl
        · exact .inr ⟨_, rfl⟩
      · refine ⟨target, by simp [Relation.touchesColumn, Relation.between], ?_⟩
        rcases mem_missingColumn rfl hmissing with ⟨rfl, _⟩ | rfl
        · exact .inl rfl
        · exact .inr ⟨_, rfl⟩

theorem Sound.issues_eq_nil_iff (hsound : design.Sound) :
    design.issues = [] ↔ design.Resolved := by
  rw [Design.issues_eq_nil_iff]
  constructor
  · intro hclean
    exact hclean.resolved
  · intro hresolved
    exact ⟨hsound.parents_le_one, hsound.acyclic, hsound.owner, hsound.ends, hresolved⟩

end Design

namespace Edit

variable {design after : Design}

/-- The edit moves a column that a data relation names to another table. -/
inductive Detaches (design : Design) : Edit → Prop
  | updateColumn {column former : Column} {relation : Relation}
      (howner : design.hasTable column.table) (hfound : design.column? column.id = some former)
      (hmoves : former.table ≠ column.table) (hmem : relation ∈ design.relations)
      (hdata : ¬relation.isInheritance) (htouches : relation.touchesColumn column.id) :
      Detaches design (.updateColumn column)

theorem Effect.regular {edit : Edit} {answer : Answer} (heffect : Effect design edit answer after)
    (hregular : ∀ relation ∈ design.relations, relation.Regular) :
    ∀ relation ∈ after.relations, relation.Regular := by
  intro relation hmem
  cases heffect with
  | addTable => exact hregular relation hmem
  | updateTable => exact hregular relation hmem
  | removeTable => exact hregular relation (List.mem_of_mem_filter hmem)
  | addColumn => exact hregular relation hmem
  | updateColumn => exact hregular relation hmem
  | removeColumn => exact hregular relation (List.mem_of_mem_filter hmem)
  | connectTables =>
      rcases List.mem_append.mp hmem with hmem | hmem
      · exact hregular relation hmem
      · rw [List.mem_singleton.mp hmem]
        exact .inherits _ _
  | connectColumns _ _ hgate =>
      rcases List.mem_append.mp hmem with hmem | hmem
      · exact hregular relation hmem
      · rw [List.mem_singleton.mp hmem]
        exact .between ((design.checkData_eq_ok_iff _ _ _ _ _).mp hgate).2.2.2.2 _ _ _ _
  | setRelationKind hkind =>
      rcases mem_modifyFirst hmem with hkept | ⟨former, hformer, hjoins, rfl⟩
      · exact hregular relation hkept
      · cases hregular former hformer with
        | inherits => simp [Relation.joins, Relation.inherits] at hjoins
        | between => exact .between hkind _ _ _ _
  | disconnectTables => exact hregular relation (List.mem_of_mem_eraseP hmem)
  | disconnectColumns => exact hregular relation (List.mem_of_mem_eraseP hmem)
  | setInheritance => exact hregular relation hmem
  | clear => simp [Design.clear, Design.empty] at hmem

theorem Effect.resolved {edit : Edit} {answer : Answer}
    (heffect : Effect design edit answer after) (hsound : design.Sound)
    (hregular : ∀ relation ∈ design.relations, relation.Regular)
    (hresolved : design.Resolved) (hattached : ¬Detaches design edit) : after.Resolved := by
  cases heffect with
  | addTable => exact hresolved
  | updateTable => exact hresolved
  | removeTable => exact hresolved.withoutTable hsound.columnIds_nodup _
  | addColumn => exact hresolved.addColumn _
  | @updateColumn column former howner hfound =>
      apply hresolved.replaceColumn hfound
      intro hmoves relation hmem hdata htouches
      exact hattached (.updateColumn howner hfound hmoves hmem hdata htouches)
  | removeColumn => exact hresolved.withoutColumn hsound.columnIds_nodup _
  | connectTables =>
      apply hresolved.addRelation
      intro hdata
      exact absurd rfl hdata
  | @connectColumns kind source target sourceColumn targetColumn hsource htarget =>
      apply hresolved.addRelation
      intro _
      exact ⟨⟨source, sourceColumn, rfl, hsource, rfl⟩, ⟨target, targetColumn, rfl, htarget, rfl⟩⟩
  | setRelationKind => exact hresolved.withRelationKind hregular _ _ _
  | disconnectTables => exact hresolved.of_subset List.eraseP_subset rfl
  | disconnectColumns => exact hresolved.of_subset List.eraseP_subset rfl
  | setInheritance => exact hresolved
  | clear =>
      intro relation hmem
      simp [Design.clear, Design.empty] at hmem

theorem not_resolved_of_detaches {edit : Edit} (hresolved : design.Resolved)
    (hdetaches : Detaches design edit) : ¬(next design edit).Resolved := by
  intro hafter
  cases hdetaches with
  | @updateColumn column former relation howner hfound hmoves hmem hdata htouches =>
      have hnext : next design (.updateColumn column) = design.withColumn column := by
        simp [next, apply, steps, Editing.on_updateColumn, howner, hfound]
      rw [hnext] at hafter
      have hlookup := Design.column?_replaceColumn hfound column.id
      rw [if_pos rfl] at hlookup
      have hsame : ∀ endpoint : Endpoint, endpoint.column = some column.id →
          design.Resolves endpoint → (design.withColumn column).Resolves endpoint →
          former.table = column.table := by
        intro endpoint hid hbefore hnow
        rcases hbefore with ⟨id, other, hother, hcolumn, htable⟩
        rcases hnow with ⟨newId, new, hnew, hnewColumn, hnewTable⟩
        rw [hid, Option.some.injEq] at hother hnew
        subst hother hnew
        rw [hfound, Option.some.injEq] at hcolumn
        rw [hlookup, Option.some.injEq] at hnewColumn
        rw [hcolumn, hnewColumn, htable, hnewTable]
      have hbefore := hresolved relation hmem hdata
      have hnow := hafter relation hmem hdata
      simp only [Relation.touchesColumn, Bool.or_eq_true, beq_iff_eq] at htouches
      rcases htouches with htouches | htouches
      · exact hmoves (hsame _ htouches hbefore.1 hnow.1)
      · exact hmoves (hsame _ htouches hbefore.2 hnow.2)

/-! ### Runs -/

theorem next_regular (hregular : ∀ relation ∈ design.relations, relation.Regular) (edit : Edit) :
    ∀ relation ∈ (next design edit).relations, relation.Regular := by
  rcases next_eq_or_effect design edit with hsame | ⟨_, heffect⟩
  · rw [hsame]
    exact hregular
  · exact heffect.regular hregular

theorem next_resolved {edit : Edit} (hsound : design.Sound)
    (hregular : ∀ relation ∈ design.relations, relation.Regular) (hresolved : design.Resolved)
    (hattached : ¬Detaches design edit) : (next design edit).Resolved := by
  rcases next_eq_or_effect design edit with hsame | ⟨_, heffect⟩
  · rw [hsame]
    exact hresolved
  · exact heffect.resolved hsound hregular hresolved hattached

theorem run_append_singleton (design : Design) (edits : List Edit) (edit : Edit) :
    run design (edits ++ [edit]) = next (run design edits) edit :=
  List.foldl_append ..

theorem run_regular (hregular : ∀ relation ∈ design.relations, relation.Regular)
    (edits : List Edit) : ∀ relation ∈ (run design edits).relations, relation.Regular := by
  induction edits generalizing design with
  | nil => exact hregular
  | cons edit edits ih => exact ih (next_regular hregular edit)

theorem empty_regular (kind : InheritanceKind) :
    ∀ relation ∈ (Design.empty kind).relations, relation.Regular := by
  simp [Design.empty]

theorem run_empty_resolved (kind : InheritanceKind) (edits : List Edit)
    (hattached : ∀ before edit, before ++ [edit] <+: edits →
      ¬Detaches (run (.empty kind) before) edit) : (run (.empty kind) edits).Resolved := by
  induction edits using List.reverseRecOn with
  | nil =>
      intro relation hmem
      simp [run, Design.empty] at hmem
  | append_singleton edits edit ih =>
      have hresolved : (run (.empty kind) edits).Resolved := by
        apply ih
        intro before other hbegins
        exact hattached before other (hbegins.trans (List.prefix_append _ _))
      rw [run_append_singleton]
      exact next_resolved (run_sound (Design.empty_sound kind) edits)
        (run_regular (empty_regular kind) edits) hresolved (hattached edits edit List.prefix_rfl)

/-- Edited designs have no issues but columns that data relations name in vain, and they have none
of these all the way exactly when no edit moves a column that a data relation names. -/
theorem issues_of_edited_designs (kind : InheritanceKind) (edits : List Edit) :
    (∀ issue ∈ (run (.empty kind) edits).issues,
      ∃ relation ∈ (run (.empty kind) edits).relations, ¬relation.isInheritance ∧
        ∃ id, relation.touchesColumn id ∧
          (issue = .danglingRelation relation (.column id) ∨
            ∃ owner, issue = .danglingRelation relation (.columnOn id owner))) ∧
      ((∀ before, before <+: edits → (run (.empty kind) before).issues = []) ↔
        ∀ before edit, before ++ [edit] <+: edits →
          ¬Detaches (run (.empty kind) before) edit) := by
  have hsound : ∀ before, (run (.empty kind) before).Sound :=
    run_sound (Design.empty_sound kind)
  have hregular := run_regular (empty_regular kind) edits
  constructor
  · intro issue hissue
    exact (hsound edits).mem_issues hregular hissue
  · constructor
    · intro hclean before edit hbegins hdetaches
      have hresolved : (run (.empty kind) before).Resolved :=
        (hsound before).issues_eq_nil_iff.mp
          (hclean before ((List.prefix_append _ _).trans hbegins))
      have hafter : (run (.empty kind) (before ++ [edit])).Resolved :=
        (hsound (before ++ [edit])).issues_eq_nil_iff.mp (hclean _ hbegins)
      rw [run_append_singleton] at hafter
      exact not_resolved_of_detaches hresolved hdetaches hafter
    · intro hattached before hbefore
      apply (hsound before).issues_eq_nil_iff.mpr
      apply run_empty_resolved
      intro earlier edit hbegins
      exact hattached earlier edit (hbegins.trans hbefore)

/-- A key is moved to another table, and this table is removed. -/
def strandingEdits : List Edit :=
  [ .addTable (.create "a" "A"),
    .addTable (.create "b" "B"),
    .addTable (.create "t" "T"),
    .addColumn ((Column.create "a.id" "a" "id" "INT").primaryKey),
    .addColumn ((Column.create "t.a" "t" "a_id" "INT").foreignKey),
    .connectColumns .oneToMany "a.id" "t.a",
    .updateColumn ((Column.create "a.id" "b" "id" "INT").primaryKey),
    .removeTable "b" ]

theorem not_all_edited_designs_clean :
    ¬∀ kind edits, (run (.empty kind) edits).issues = [] := by
  intro hclean
  have hresolved := (Design.issues_eq_nil_iff _).mp (hclean .singleTable strandingEdits)
  have hmem : Relation.between .oneToMany "a" "a.id" "t" "t.a" ∈
      (run (.empty .singleTable) strandingEdits).relations := by
    decide
  have hmissing : (run (.empty .singleTable) strandingEdits).column? "a.id" = none := by
    decide
  rcases (hresolved.resolved _ hmem (by decide)).1 with ⟨id, column, hid, hcolumn, _⟩
  have hsame : "a.id" = id := Option.some.inj hid
  rw [← hsame, hmissing] at hcolumn
  exact absurd hcolumn (by simp)

end Edit

end SchemaDesign
