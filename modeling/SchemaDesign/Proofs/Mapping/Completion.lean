import SchemaDesign.Proofs.Mapping.ConcreteTable

/-!
# Completed tables

Tables are completed in an order that lists every id once and after its base.  At its turn a table
receives copies of the columns that its base has then.  The base gets no further column, and neither
does the table, so in the end every table has its own columns and after them a copy of each column
of its completed base.
-/

namespace SchemaDesign

variable {design : Design} {ids : IdSupply} {lineage : Lineage}

namespace Lineage

/-! ### The order of completion -/

/-- Every id is listed once, and after its base if that is another one. -/
inductive AfterBases (lineage : Lineage) : List TableId → Prop where
  | nil : AfterBases lineage []
  | snoc {order : List TableId} {id : TableId} (hbefore : AfterBases lineage order)
      (hnew : id ∉ order) (hbase : lineage.base id = id ∨ lineage.base id ∈ order) :
      AfterBases lineage (order ++ [id])

theorem AfterBases.base_mem {order : List TableId} (horder : lineage.AfterBases order)
    {id : TableId} (hmem : id ∈ order) : lineage.base id ∈ order := by
  induction horder with
  | nil => simp at hmem
  | @snoc order last _ _ hbase ih =>
      rcases List.mem_append.mp hmem with hmem | hmem
      · exact List.mem_append_left _ (ih hmem)
      · obtain rfl : id = last := List.mem_singleton.mp hmem
        cases hbase with
        | inl hself => simp [hself]
        | inr hbefore => exact List.mem_append_left _ hbefore

theorem length_line_le (hlineage : Lineage.of design = .ok lineage) {id member : TableId}
    (hmem : member ∈ lineage.line id) :
    (lineage.line member).length ≤ (lineage.line id).length := by
  induction id using lineage.line_induction hlineage with
  | root id hbase =>
      rw [lineage.line_of_base_eq hlineage hbase, List.mem_singleton] at hmem
      rw [hmem]
  | step id hbase ih =>
      have hline := lineage.line_of_base_ne hlineage hbase
      rw [hline] at hmem
      rcases List.mem_cons.mp hmem with rfl | hmem
      · exact Nat.le_refl _
      · have hle := ih hmem
        rw [hline, List.length_cons]
        omega

theorem not_mem_line_base (hlineage : Lineage.of design = .ok lineage) {id : TableId}
    (hbase : design.baseOf id ≠ id) : id ∉ lineage.line (design.baseOf id) := by
  intro hmem
  have hle := lineage.length_line_le hlineage hmem
  rw [lineage.line_of_base_ne hlineage hbase, List.length_cons] at hle
  omega

/-- The part of a line that is still to be done, from the top down, comes after its bases. -/
theorem AfterBases.append_line (hlineage : Lineage.of design = .ok lineage) {order : List TableId}
    (horder : lineage.AfterBases order) (id : TableId) :
    lineage.AfterBases (order ++ ((lineage.line id).takeWhile (· ∉ order)).reverse) ∧
      id ∈ order ++ ((lineage.line id).takeWhile (· ∉ order)).reverse := by
  have hpassed : ∀ id ∈ order,
      lineage.AfterBases (order ++ ((lineage.line id).takeWhile (· ∉ order)).reverse) ∧
        id ∈ order ++ ((lineage.line id).takeWhile (· ∉ order)).reverse := by
    intro id hdone
    obtain ⟨rest, hline⟩ := lineage.line_ne_nil hlineage id
    rw [hline, List.takeWhile_cons_of_neg (by simpa using hdone), List.reverse_nil,
      List.append_nil]
    exact ⟨horder, hdone⟩
  induction id using lineage.line_induction hlineage with
  | root id hbase =>
      by_cases hdone : id ∈ order
      · exact hpassed id hdone
      · have honly : (lineage.line id).takeWhile (· ∉ order) = [id] := by
          rw [lineage.line_of_base_eq hlineage hbase,
            List.takeWhile_cons_of_pos (by simpa using hdone), List.takeWhile_nil]
        have hself : lineage.base id = id := (lineage.base_eq hlineage id).trans hbase
        rw [honly, List.reverse_singleton]
        exact ⟨horder.snoc hdone (.inl hself), by simp⟩
  | step id hbase ih =>
      by_cases hdone : id ∈ order
      · exact hpassed id hdone
      · have hbelow : (lineage.line id).takeWhile (· ∉ order) =
            id :: (lineage.line (design.baseOf id)).takeWhile (· ∉ order) := by
          rw [lineage.line_of_base_ne hlineage hbase,
            List.takeWhile_cons_of_pos (by simpa using hdone)]
        have hnew : id ∉ order ++
            ((lineage.line (design.baseOf id)).takeWhile (· ∉ order)).reverse := by
          intro hmem
          rcases List.mem_append.mp hmem with hmem | hmem
          · exact hdone hmem
          · have hline := (List.takeWhile_sublist _).subset (List.mem_reverse.mp hmem)
            exact lineage.not_mem_line_base hlineage hbase hline
        rw [hbelow, List.reverse_cons, ← List.append_assoc]
        refine ⟨ih.1.snoc hnew (.inr ?_), by simp⟩
        rw [lineage.base_eq hlineage]
        exact ih.2

theorem afterBases_basesFirst (hlineage : Lineage.of design = .ok lineage) :
    lineage.AfterBases (lineage.basesFirst design.tables) ∧
      ∀ table ∈ design.tables, table.id ∈ lineage.basesFirst design.tables := by
  have hfold : ∀ (tables : List Table) (done : List TableId), lineage.AfterBases done →
      lineage.AfterBases (tables.foldl (fun done table =>
        done ++ ((lineage.line table.id).takeWhile (· ∉ done)).reverse) done) ∧
      ∀ id, (id ∈ done ∨ id ∈ tables.map (·.id)) → id ∈ tables.foldl (fun done table =>
        done ++ ((lineage.line table.id).takeWhile (· ∉ done)).reverse) done := by
    intro tables
    induction tables with
    | nil => exact fun done hdone => ⟨hdone, fun id hid => by simpa using hid⟩
    | cons table tables ih =>
        intro done hdone
        obtain ⟨hnext, hmem⟩ := hdone.append_line hlineage table.id
        obtain ⟨hall, hkept⟩ := ih _ hnext
        refine ⟨hall, ?_⟩
        intro id hid
        apply hkept
        rcases hid with hid | hid
        · exact .inl (List.mem_append_left _ hid)
        · rcases List.mem_cons.mp hid with rfl | hid
          · exact .inl hmem
          · exact .inr hid
  obtain ⟨hall, hkept⟩ := hfold design.tables [] .nil
  exact ⟨hall, fun table hmem => hkept table.id (.inr (List.mem_map_of_mem hmem))⟩

end Lineage

/-! ### The columns of a table -/

theorem filter_copiesFor (ids : IdSupply) (id : TableId) (start : Nat) (columns : List Column)
    (other : TableId) :
    (copiesFor ids id start columns).filter (·.table == other) =
      if id = other then copiesFor ids id start columns else [] := by
  split
  case isTrue hsame =>
    rw [List.filter_eq_self]
    intro column hmem
    rw [table_of_mem_copiesFor hmem, beq_iff_eq]
    exact hsame
  case isFalse hne =>
    rw [List.filter_eq_nil_iff]
    intro column hmem
    rw [table_of_mem_copiesFor hmem, beq_iff_eq]
    exact hne

theorem filter_copyDown_of_ne {id other : TableId} (hne : id ≠ other) (columns : List Column) :
    (copyDown ids lineage columns id).filter (·.table == other) =
      columns.filter (·.table == other) := by
  by_cases hself : lineage.base id = id
  · rw [copyDown_of_base_eq hself]
  · rw [copyDown_of_base_ne hself, List.filter_append, filter_copiesFor, if_neg hne,
      List.append_nil]

/-- Before its turn, and also then if it has no base, a table has its own columns. -/
theorem filter_foldl_copyDown {order : List TableId} {id : TableId}
    (hself : id ∈ order → lineage.base id = id) (columns : List Column) :
    (order.foldl (copyDown ids lineage) columns).filter (·.table == id) =
      columns.filter (·.table == id) := by
  induction order generalizing columns with
  | nil => rfl
  | cons first order ih =>
      rw [List.foldl_cons, ih fun hmem => hself (List.mem_cons_of_mem _ hmem)]
      by_cases hfirst : first = id
      · subst hfirst
        rw [copyDown_of_base_eq (hself List.mem_cons_self)]
      · exact filter_copyDown_of_ne hfirst columns

/-- After its turn a table has its own columns and copies of those of its base. -/
theorem Lineage.AfterBases.exists_copies {order : List TableId} (horder : lineage.AfterBases order)
    {id : TableId} (hid : id ∈ order) (hbase : lineage.base id ≠ id) (columns : List Column) :
    ∃ start, (order.foldl (copyDown ids lineage) columns).filter (·.table == id) =
      columns.filter (·.table == id) ++ copiesFor ids id start
        ((order.foldl (copyDown ids lineage) columns).filter (·.table == lineage.base id)) := by
  induction horder with
  | nil => simp at hid
  | @snoc order last hbefore hnew hlast ih =>
      rw [List.foldl_append, List.foldl_cons, List.foldl_nil]
      generalize hdone : order.foldl (copyDown ids lineage) columns = done at ih ⊢
      rcases List.mem_append.mp hid with hid | hid
      · have hne : last ≠ id := fun hsame => hnew (hsame ▸ hid)
        have hbaseNe : last ≠ lineage.base id := fun hsame => hnew (hsame ▸ hbefore.base_mem hid)
        rw [filter_copyDown_of_ne hne, filter_copyDown_of_ne hbaseNe]
        exact ih hid
      · obtain rfl : id = last := List.mem_singleton.mp hid
        have hown : done.filter (·.table == id) = columns.filter (·.table == id) := by
          rw [← hdone, filter_foldl_copyDown fun hmem => absurd hmem hnew]
        refine ⟨done.length, ?_⟩
        rw [filter_copyDown_of_ne (Ne.symm hbase), copyDown_of_base_ne hbase, List.filter_append,
          filter_copiesFor, if_pos rfl, hown]

namespace Design

theorem filter_completedColumns_of_base_eq {id : TableId} (hself : lineage.base id = id) :
    (design.completedColumns ids lineage).filter (·.table == id) = design.columnsOf id :=
  filter_foldl_copyDown (fun _ => hself) design.columns

theorem exists_filter_completedColumns (ids : IdSupply)
    (hlineage : Lineage.of design = .ok lineage) {id : TableId} (hbase : lineage.base id ≠ id) :
    ∃ start, (design.completedColumns ids lineage).filter (·.table == id) =
      design.columnsOf id ++ copiesFor ids id start
        ((design.completedColumns ids lineage).filter (·.table == lineage.base id)) := by
  obtain ⟨horder, hall⟩ := lineage.afterBases_basesFirst hlineage
  have hproper : design.baseOf id ≠ id := lineage.base_eq hlineage id ▸ hbase
  obtain ⟨table, hmem, rfl⟩ := exists_mem_of_hasTable (inherits_of_baseOf_ne hproper).child_hasTable
  exact horder.exists_copies (hall table hmem) hbase design.columns

/-- The tables that stay are completed. -/
theorem columnsOf_flattenHierarchies (design : Design) (ids : IdSupply) (lineage : Lineage)
    (id : TableId) :
    (design.flattenHierarchies ids lineage).columnsOf id =
      if id ∈ design.abstractIds then []
      else (design.completedColumns ids lineage).filter (·.table == id) := by
  have hboth : (design.flattenHierarchies ids lineage).columnsOf id =
      ((design.completedColumns ids lineage).filter (·.table == id)).filter
        fun column => id ∉ design.abstractIds := by
    unfold columnsOf flattenHierarchies
    rw [List.filter_filter, List.filter_filter]
    apply List.filter_congr
    intro column _
    by_cases howner : column.table = id
    · simp [howner]
    · simp [beq_eq_false_iff_ne.mpr howner]
  rw [hboth]
  split
  case isTrue hdropped => simp [hdropped]
  case isFalse hkept => simp [hkept]

end Design

end SchemaDesign
