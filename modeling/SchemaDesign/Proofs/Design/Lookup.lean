import SchemaDesign.Design.Issue
import Mathlib.Data.List.Nodup

/-!
# Lookups in a design

Lookups take the first record with an id.  Where ids do not repeat, a lookup returns exactly the
record that is listed.
-/

namespace SchemaDesign

/-- The first element with a key is the only one if keys do not repeat. -/
theorem find?_key_of_nodup {α : Type} {key : α → String} {list : List α}
    (hnodup : (list.map key).Nodup) {x : α} (hx : x ∈ list) :
    list.find? (fun y => key y == key x) = some x := by
  have hsome : (list.find? fun y => key y == key x).isSome :=
    List.find?_isSome.mpr ⟨x, hx, by simp⟩
  rcases Option.isSome_iff_exists.mp hsome with ⟨y, hy⟩
  have hkey : key y = key x := by simpa using List.find?_some hy
  rw [hy, List.inj_on_of_nodup_map hnodup (List.mem_of_find?_eq_some hy) hx hkey]

theorem find?_key_eq_some_iff {α : Type} {key : α → String} {list : List α}
    (hnodup : (list.map key).Nodup) (k : String) (x : α) :
    list.find? (fun y => key y == k) = some x ↔ x ∈ list ∧ key x = k := by
  constructor
  · intro hfound
    exact ⟨List.mem_of_find?_eq_some hfound, by simpa using List.find?_some hfound⟩
  · rintro ⟨hx, rfl⟩
    exact find?_key_of_nodup hnodup hx

/-- The order of a list has no influence on a lookup if keys do not repeat. -/
theorem find?_key_of_perm {α : Type} {key : α → String} {list other : List α}
    (hperm : list.Perm other) (hnodup : (list.map key).Nodup) (k : String) :
    list.find? (fun y => key y == k) = other.find? (fun y => key y == k) := by
  have hnodup' : (other.map key).Nodup := (hperm.map key).nodup_iff.mp hnodup
  ext x
  rw [find?_key_eq_some_iff hnodup, find?_key_eq_some_iff hnodup', hperm.mem_iff]

/-- Records with other keys at the end of a list have no influence on a lookup. -/
theorem find?_key_append {α : Type} {key : α → String} {list others : List α} {k : String}
    (hothers : ∀ x ∈ others, key x ≠ k) :
    (list ++ others).find? (fun y => key y == k) = list.find? (fun y => key y == k) := by
  have hnone : others.find? (fun y => key y == k) = none := by
    rw [List.find?_eq_none]
    exact fun x hx hsame => hothers x hx (beq_iff_eq.mp hsame)
  rw [List.find?_append, hnone, Option.or_none]

/-- Where each element of a list makes records with its own key, a key selects what its element
makes. -/
theorem filter_flatMap_key {α β : Type} {key : α → String} {madeKey : β → String}
    {make : α → List β} (hkey : ∀ x, ∀ y ∈ make x, madeKey y = key x) {list : List α}
    (hnodup : (list.map key).Nodup) {x : α} (hx : x ∈ list) :
    (list.flatMap make).filter (madeKey · == key x) = make x := by
  induction list with
  | nil => simp at hx
  | cons first list ih =>
      rw [List.map_cons, List.nodup_cons] at hnodup
      rw [List.flatMap_cons, List.filter_append]
      rcases List.mem_cons.mp hx with rfl | hx
      · have hall : (make x).filter (madeKey · == key x) = make x := by
          rw [List.filter_eq_self]
          exact fun y hy => beq_iff_eq.mpr (hkey x y hy)
        have hothers : (list.flatMap make).filter (madeKey · == key x) = [] := by
          rw [List.filter_eq_nil_iff]
          intro y hy hsame
          obtain ⟨z, hz, hyz⟩ := List.mem_flatMap.mp hy
          have hzx : key z = key x := (hkey z y hyz).symm.trans (beq_iff_eq.mp hsame)
          exact hnodup.1 (hzx ▸ List.mem_map_of_mem hz)
        rw [hall, hothers, List.append_nil]
      · have hnone : (make first).filter (madeKey · == key x) = [] := by
          rw [List.filter_eq_nil_iff]
          intro y hy hsame
          have hfirst : key x = key first := (beq_iff_eq.mp hsame).symm.trans (hkey first y hy)
          exact hnodup.1 (hfirst ▸ List.mem_map_of_mem hx)
        rw [hnone, List.nil_append, ih hnodup.2 hx]

theorem nodup_map_append_singleton {α : Type} {key : α → String} {list : List α}
    (hnodup : (list.map key).Nodup) {x : α} (hnew : key x ∉ list.map key) :
    ((list ++ [x]).map key).Nodup := by
  rw [List.map_append, List.nodup_append]
  refine ⟨hnodup, by simp, ?_⟩
  intro a ha b hb hab
  rw [List.map_singleton, List.mem_singleton] at hb
  exact hnew (hb ▸ hab ▸ ha)

/-- Removing the first element with a key removes all of them if keys do not repeat. -/
theorem eraseP_key_of_nodup {α : Type} {key : α → String} {list : List α}
    (hnodup : (list.map key).Nodup) (k : String) :
    list.eraseP (key · == k) = list.filter (key · != k) := by
  induction list with
  | nil => rfl
  | cons x list ih =>
      rw [List.map_cons, List.nodup_cons] at hnodup
      by_cases hx : key x = k
      · have hothers : ∀ y ∈ list, key y != k := by
          intro y hy
          rw [bne_iff_ne, ← hx]
          exact fun hsame => hnodup.1 (hsame ▸ List.mem_map_of_mem hy)
        rw [List.eraseP_cons_of_pos (by simp [hx]), List.filter_cons_of_neg (by simp [hx]),
          List.filter_eq_self.mpr hothers]
      · rw [List.eraseP_cons_of_neg (by simp [hx]), List.filter_cons_of_pos (by simp [hx]),
          ih hnodup.2]

namespace Design

variable {design : Design}

def tableIds (design : Design) : List TableId :=
  design.tables.map (·.id)

def columnIds (design : Design) : List ColumnId :=
  design.columns.map (·.id)

theorem mem_of_table? {id : TableId} {table : Table} (h : design.table? id = some table) :
    table ∈ design.tables ∧ table.id = id :=
  ⟨List.mem_of_find?_eq_some h, by simpa using List.find?_some h⟩

theorem mem_of_column? {id : ColumnId} {column : Column} (h : design.column? id = some column) :
    column ∈ design.columns ∧ column.id = id :=
  ⟨List.mem_of_find?_eq_some h, by simpa using List.find?_some h⟩

theorem hasTable_iff (design : Design) (id : TableId) :
    design.hasTable id ↔ id ∈ design.tableIds := by
  simp [hasTable, table?, tableIds]

theorem hasTable_of_subset {other : Design} (hsubset : design.tableIds ⊆ other.tableIds)
    {id : TableId} (h : design.hasTable id) : other.hasTable id :=
  (other.hasTable_iff id).mpr (hsubset ((design.hasTable_iff id).mp h))

theorem hasTable_of_mem {table : Table} (h : table ∈ design.tables) :
    design.hasTable table.id :=
  (design.hasTable_iff table.id).mpr (List.mem_map_of_mem h)

theorem exists_mem_of_hasTable {id : TableId} (h : design.hasTable id) :
    ∃ table ∈ design.tables, table.id = id :=
  List.mem_map.mp ((design.hasTable_iff id).mp h)

/-- The record that a lookup finds for an id is the one found for its own id. -/
theorem exists_table?_eq {id : TableId} (h : design.hasTable id) :
    ∃ table, table.id = id ∧ design.table? table.id = some table := by
  obtain ⟨table, htable⟩ := Option.isSome_iff_exists.mp h
  have hid := (mem_of_table? htable).2
  exact ⟨table, hid, hid ▸ htable⟩

theorem column?_isSome_iff (design : Design) (id : ColumnId) :
    (design.column? id).isSome ↔ id ∈ design.columnIds := by
  simp [column?, columnIds]

theorem column?_of_mem (hnodup : design.columnIds.Nodup) {column : Column}
    (h : column ∈ design.columns) : design.column? column.id = some column :=
  find?_key_of_nodup hnodup h

theorem primaryKeyOf?_eq_find?_columnsOf (design : Design) (id : TableId) :
    design.primaryKeyOf? id = (design.columnsOf id).find? (·.isPrimaryKey) := by
  simp only [columnsOf, primaryKeyOf?, List.find?_filter, Bool.decide_and, Bool.decide_eq_true]

theorem mem_parents_iff (design : Design) (child parent : TableId) :
    parent ∈ design.parents child ↔
      ∃ relation ∈ design.relations, relation.isInheritance ∧
        relation.source.table = child ∧ relation.target.table = parent := by
  simp only [parents, relationsFrom, List.mem_map, List.mem_filter, beq_iff_eq]
  constructor
  · rintro ⟨relation, ⟨⟨hmem, hsource⟩, hkind⟩, htarget⟩
    exact ⟨relation, hmem, hkind, hsource, htarget⟩
  · rintro ⟨relation, hmem, hkind, hsource, htarget⟩
    exact ⟨relation, ⟨⟨hmem, hsource⟩, hkind⟩, htarget⟩

/-- The parent of a table is the first of its parents. -/
theorem parentOf?_eq_head? (design : Design) (id : TableId) :
    design.parentOf? id = (design.parents id).head? := by
  rw [parents, relationsFrom, List.filter_filter, List.head?_map, List.head?_filter, parentOf?]
  congr 2
  funext relation
  exact Bool.and_comm _ _

theorem mem_parents_of_parentOf? {child parent : TableId}
    (h : design.parentOf? child = some parent) : parent ∈ design.parents child := by
  rw [parentOf?_eq_head?] at h
  exact List.mem_of_head? h

end Design

end SchemaDesign
