import SchemaDesign.Proofs.Design.Lookup

/-!
# Fresh ids

The records that a mapping makes take their ids from a supply.  When the supply is fresh for the
design, each position of it is used once and so ids stay distinct.

References of a design need not resolve, so a fresh id can still be one that the design mentions.
When the supply is unused in the design, no reference leads to a new record by accident.
-/

namespace SchemaDesign

theorem pairwise_zipIdx {α : Type} (list : List α) (start : Nat) :
    (list.zipIdx start).Pairwise fun x y => x.2 ≠ y.2 := by
  have hnodup : ((list.zipIdx start).map Prod.snd).Nodup := by
    rw [List.zipIdx_map_snd]
    exact List.nodup_range'
  exact List.pairwise_map.mp hnodup

/-- Of the records made of a list without repeated keys, at most one has a given key. -/
theorem exists_filter_filterMap_zipIdx {α β : Type} (key : α → String) {madeKey : β → String}
    {make : α × Nat → Option β}
    (hkey : ∀ x position y, make (x, position) = some y → madeKey y = key x) {list : List α}
    (hnodup : (list.map key).Nodup) (start : Nat) (k : String) :
    ∃ position, ((list.zipIdx start).filterMap make).filter (madeKey · == k) =
      ((list.find? (key · == k)).bind fun x => make (x, position)).toList := by
  induction list generalizing start with
  | nil => exact ⟨0, rfl⟩
  | cons x list ih =>
      rw [List.map_cons, List.nodup_cons] at hnodup
      obtain ⟨position, hposition⟩ := ih hnodup.2 (start + 1)
      by_cases hx : key x = k
      · have hothers : list.find? (key · == k) = none := by
          rw [List.find?_eq_none]
          intro y hy hsame
          exact hnodup.1 (List.mem_map.mpr ⟨y, hy, (beq_iff_eq.mp hsame).trans hx.symm⟩)
        rw [hothers, Option.bind_none, Option.toList_none] at hposition
        refine ⟨start, ?_⟩
        rw [List.find?_cons_of_pos (by simp [hx]), Option.bind_some, List.zipIdx_cons,
          List.filterMap_cons]
        cases hmade : make (x, start) with
        | none => exact hposition
        | some y =>
            have hy : madeKey y = k := (hkey x start y hmade).trans hx
            simp [hy, hposition]
      · refine ⟨position, ?_⟩
        rw [List.find?_cons_of_neg (by simp [hx]), List.zipIdx_cons, List.filterMap_cons]
        cases hmade : make (x, start) with
        | none => exact hposition
        | some y =>
            have hy : madeKey y ≠ k := fun hsame => hx ((hkey x start y hmade).symm.trans hsame)
            simp [hy, hposition]

namespace Design

/-- The ids of tables, and those named by columns and relations, whether they are tables or not. -/
def mentionedTables (design : Design) : List TableId :=
  design.tableIds ++ design.columns.map (·.table) ++
    design.relations.flatMap fun relation => [relation.source.table, relation.target.table]

/-- The ids of columns, and those named by relations, whether they are columns or not. -/
def mentionedColumns (design : Design) : List ColumnId :=
  design.columnIds ++
    design.relations.flatMap fun relation =>
      relation.source.column.toList ++ relation.target.column.toList

variable {design : Design} {relation : Relation} {endpoint : Endpoint}

theorem mem_mentionedTables_of_end (hmem : relation ∈ design.relations)
    (hend : endpoint = relation.source ∨ endpoint = relation.target) :
    endpoint.table ∈ design.mentionedTables := by
  refine List.mem_append_right _ (List.mem_flatMap.mpr ⟨relation, hmem, ?_⟩)
  rcases hend with rfl | rfl <;> simp

theorem mem_mentionedColumns_of_end (hmem : relation ∈ design.relations)
    (hend : endpoint = relation.source ∨ endpoint = relation.target) {id : ColumnId}
    (hid : endpoint.column = some id) : id ∈ design.mentionedColumns := by
  refine List.mem_append_right _ (List.mem_flatMap.mpr ⟨relation, hmem, ?_⟩)
  rcases hend with rfl | rfl <;> simp [hid]

/-- The design mentions all that an end of a relation names. -/
structure Mentions (design : Design) (endpoint : Endpoint) : Prop where
  table : endpoint.table ∈ design.mentionedTables
  column : ∀ id, endpoint.column = some id → id ∈ design.mentionedColumns

theorem mentions_of_end (hmem : relation ∈ design.relations)
    (hend : endpoint = relation.source ∨ endpoint = relation.target) : design.Mentions endpoint :=
  ⟨mem_mentionedTables_of_end hmem hend, fun _ => mem_mentionedColumns_of_end hmem hend⟩

theorem mem_mentionedTables_iff (design : Design) (id : TableId) :
    id ∈ design.mentionedTables ↔ id ∈ design.tableIds ∨ (∃ x ∈ design.columns, x.table = id) ∨
      ∃ r ∈ design.relations, ∃ e, (e = r.source ∨ e = r.target) ∧ e.table = id := by
  constructor
  · intro hmem
    rcases List.mem_append.mp hmem with hmem | hend
    · rcases List.mem_append.mp hmem with htable | hcolumn
      · exact .inl htable
      · exact .inr (.inl (List.mem_map.mp hcolumn))
    · obtain ⟨r, hr, hid⟩ := List.mem_flatMap.mp hend
      rcases List.mem_cons.mp hid with rfl | hid
      · exact .inr (.inr ⟨r, hr, r.source, .inl rfl, rfl⟩)
      · exact .inr (.inr ⟨r, hr, r.target, .inr rfl, (List.mem_singleton.mp hid).symm⟩)
  · rintro (htable | ⟨x, hx, rfl⟩ | ⟨r, hr, e, he, rfl⟩)
    · exact List.mem_append_left _ (List.mem_append_left _ htable)
    · exact List.mem_append_left _ (List.mem_append_right _ (List.mem_map_of_mem hx))
    · exact mem_mentionedTables_of_end hr he

theorem mem_mentionedColumns_iff (design : Design) (id : ColumnId) :
    id ∈ design.mentionedColumns ↔ id ∈ design.columnIds ∨
      ∃ r ∈ design.relations, ∃ e, (e = r.source ∨ e = r.target) ∧ e.column = some id := by
  constructor
  · intro hmem
    rcases List.mem_append.mp hmem with hcolumn | hend
    · exact .inl hcolumn
    · obtain ⟨r, hr, hid⟩ := List.mem_flatMap.mp hend
      rcases List.mem_append.mp hid with hid | hid
      · exact .inr ⟨r, hr, r.source, .inl rfl, Option.mem_toList.mp hid⟩
      · exact .inr ⟨r, hr, r.target, .inr rfl, Option.mem_toList.mp hid⟩
  · rintro (hcolumn | ⟨r, hr, e, he, hid⟩)
    · exact List.mem_append_left _ hcolumn
    · exact mem_mentionedColumns_of_end hr he hid

theorem mem_mentionedTables_of_hasTable {id : TableId} (htable : design.hasTable id) :
    id ∈ design.mentionedTables :=
  (design.mem_mentionedTables_iff id).mpr (.inl ((design.hasTable_iff id).mp htable))

theorem mem_mentionedTables_of_owner {x : Column} (hx : x ∈ design.columns) :
    x.table ∈ design.mentionedTables :=
  (design.mem_mentionedTables_iff _).mpr (.inr (.inl ⟨x, hx, rfl⟩))

theorem mem_mentionedColumns_of_mem {x : Column} (hx : x ∈ design.columns) :
    x.id ∈ design.mentionedColumns :=
  (design.mem_mentionedColumns_iff _).mpr (.inl (List.mem_map_of_mem hx))

/-- All that a design mentions is mentioned in an earlier one, or is drawn from a supply as the id
of a column. -/
structure MentionsOnly (ids : IdSupply) (design after : Design) : Prop where
  tables : after.tableIds ⊆ design.mentionedTables
  owners : ∀ x ∈ after.columns, x.table ∈ design.mentionedTables
  columns : ∀ x ∈ after.columns, x.id ∈ design.mentionedColumns ∨ ∃ position, ids position = x.id
  endTables : ∀ r ∈ after.relations, ∀ e, (e = r.source ∨ e = r.target) →
    e.table ∈ design.mentionedTables
  endColumns : ∀ r ∈ after.relations, ∀ e, (e = r.source ∨ e = r.target) →
    ∀ id, e.column = some id → id ∈ design.mentionedColumns ∨ ∃ position, ids position = id

end Design

namespace IdSupply

variable {ids : IdSupply} {design after : Design}

/-- The ids are distinct from each other and from those of a design. -/
structure FreshFor (ids : IdSupply) (design : Design) : Prop where
  injective : Function.Injective ids
  tables : ∀ position, ids position ∉ design.tableIds
  columns : ∀ position, ids position ∉ design.columnIds

/-- The ids are distinct from each other and from all that a design mentions. -/
structure UnusedIn (ids : IdSupply) (design : Design) : Prop where
  injective : Function.Injective ids
  tables : ∀ position, ids position ∉ design.mentionedTables
  columns : ∀ position, ids position ∉ design.mentionedColumns

theorem UnusedIn.freshFor (hunused : ids.UnusedIn design) : ids.FreshFor design where
  injective := hunused.injective
  tables := fun position hmem =>
    hunused.tables position (List.mem_append_left _ (List.mem_append_left _ hmem))
  columns := fun position hmem => hunused.columns position (List.mem_append_left _ hmem)

theorem FreshFor.left (hfresh : ids.FreshFor design) : ids.left.FreshFor design where
  injective := by
    intro m n hsame
    have hdouble := hfresh.injective hsame
    omega
  tables := fun position => hfresh.tables (2 * position)
  columns := fun position => hfresh.columns (2 * position)

theorem UnusedIn.left (hunused : ids.UnusedIn design) : ids.left.UnusedIn design where
  injective := hunused.freshFor.left.injective
  tables := fun position => hunused.tables (2 * position)
  columns := fun position => hunused.columns (2 * position)

theorem injective_right (hinjective : Function.Injective ids) : Function.Injective ids.right := by
  intro m n hsame
  have hdouble := hinjective hsame
  omega

/-- Ids of the right half are not among known ids and those drawn from the left half. -/
theorem right_not_known_or_drawn (hinjective : Function.Injective ids) {known : List String}
    (hnew : ∀ position, ids position ∉ known) (position : Nat) :
    ¬(ids.right position ∈ known ∨ ∃ drawn, ids.left drawn = ids.right position) := by
  rintro (hknown | ⟨drawn, hdrawn⟩)
  · exact hnew (2 * position + 1) hknown
  · have hdouble := hinjective hdrawn
    omega

/-- The right half is still fresh after ids were drawn from the left half. -/
theorem FreshFor.right (hfresh : ids.FreshFor design) (htables : after.tableIds ⊆ design.tableIds)
    (hcolumns : ∀ id ∈ after.columnIds,
      id ∈ design.columnIds ∨ ∃ position, ids.left position = id) :
    ids.right.FreshFor after where
  injective := injective_right hfresh.injective
  tables := fun position hmem => hfresh.tables (2 * position + 1) (htables hmem)
  columns := fun position hmem =>
    right_not_known_or_drawn hfresh.injective hfresh.columns position (hcolumns _ hmem)

/-- The right half is still unused after ids were drawn from the left half. -/
theorem UnusedIn.right (hunused : ids.UnusedIn design)
    (h : Design.MentionsOnly ids.left design after) : ids.right.UnusedIn after where
  injective := injective_right hunused.injective
  tables := by
    intro position hmem
    apply hunused.tables (2 * position + 1)
    change ids.right position ∈ design.mentionedTables
    rcases (after.mem_mentionedTables_iff _).mp hmem with
      htable | ⟨x, hx, howner⟩ | ⟨r, hr, e, he, hid⟩
    · exact h.tables htable
    · rw [← howner]
      exact h.owners x hx
    · rw [← hid]
      exact h.endTables r hr e he
  columns := by
    intro position hmem
    apply right_not_known_or_drawn hunused.injective hunused.columns position
    rcases (after.mem_mentionedColumns_iff _).mp hmem with hcolumn | ⟨r, hr, e, he, hid⟩
    · obtain ⟨x, hx, hid⟩ := List.mem_map.mp hcolumn
      rw [← hid]
      exact h.columns x hx
    · exact h.endColumns r hr e he _ hid

theorem FreshFor.nodup_append_columns (hfresh : ids.FreshFor design)
    (hnodup : design.columnIds.Nodup) {columns : List Column}
    (hnew : (columns.map (·.id)).Nodup)
    (hdrawn : ∀ column ∈ columns, ∃ position, ids position = column.id) :
    ((design.columns ++ columns).map (·.id)).Nodup := by
  rw [List.map_append, List.nodup_append]
  refine ⟨hnodup, hnew, ?_⟩
  intro id hold other hmem hsame
  rcases List.mem_map.mp hmem with ⟨column, hcolumn, rfl⟩
  rcases hdrawn column hcolumn with ⟨position, hposition⟩
  apply hfresh.columns position
  rw [hposition, ← hsame]
  exact hold

/-- Records that take their ids from their positions have distinct ids. -/
theorem nodup_filterMap_zipIdx (hinjective : Function.Injective ids) {α β : Type}
    {make : α × Nat → Option β} {key : β → String}
    (hkey : ∀ x position y, make (x, position) = some y → key y = ids position)
    (list : List α) (start : Nat) :
    (((list.zipIdx start).filterMap make).map key).Nodup := by
  rw [List.Nodup, List.pairwise_map]
  apply (pairwise_zipIdx list start).filterMap
  intro x y hne made hmade other hother hsame
  rw [hkey x.1 x.2 made hmade, hkey y.1 y.2 other hother] at hsame
  exact hne (hinjective hsame)

end IdSupply

end SchemaDesign
