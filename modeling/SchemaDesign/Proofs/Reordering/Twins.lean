import SchemaDesign.Proofs.Sql.Statement
import SchemaDesign.Proofs.Mapping.Completion
import SchemaDesign.Proofs.Reordering.Basic

/-!
# Mappings of reordered designs

The mappings make new columns, and new relations that lead to them, in an order that depends on the
order of the tables.  But they make them table by table, and so the mapped designs are twins: every
table has the same columns and relations in both, except that the new ones have other ids.  A table
gets at most one new relation, so there is no doubt which new column it leads to.
-/

namespace SchemaDesign

variable {known : List ColumnId}

/-- One and the same known column, or two new ones that show the same text. -/
inductive Column.Twin (known : List ColumnId) : Column → Column → Prop where
  | known {x : Column} (hid : x.id ∈ known) : Twin known x x
  | new {x x' : Column} (halike : x.Alike x') (hid : x.id ∉ known) (hid' : x'.id ∉ known) :
      Twin known x x'

theorem Column.Twin.alike {x x' : Column} (h : Column.Twin known x x') : x.Alike x' := by
  cases h with
  | known _ => exact .refl x
  | new halike _ _ => exact halike

/-- One and the same relation between known columns, or two that lead from one known column to new
ones. -/
inductive Relation.Twin (known : List ColumnId) : Relation → Relation → Prop where
  | known {r : Relation} (hsource : ∀ id, r.source.column = some id → id ∈ known)
      (htarget : ∀ id, r.target.column = some id → id ∈ known) : Twin known r r
  | new {source : Endpoint} {table : TableId} {id id' : ColumnId}
      (hsource : ∀ key, source.column = some key → key ∈ known) (hid : id ∉ known)
      (hid' : id' ∉ known) :
      Twin known ⟨source, ⟨table, some id⟩, .oneToOne⟩ ⟨source, ⟨table, some id'⟩, .oneToOne⟩

theorem Relation.Twin.source_eq {r r' : Relation} (h : Relation.Twin known r r') :
    r.source = r'.source := by
  cases h <;> rfl

theorem Relation.Twin.source_known {r r' : Relation} (h : Relation.Twin known r r') :
    ∀ id, r.source.column = some id → id ∈ known := by
  cases h with
  | known hsource _ => exact hsource
  | new hsource _ _ => exact hsource

theorem Relation.Twin.isInheritance_eq {r r' : Relation} (h : Relation.Twin known r r') :
    r.isInheritance = r'.isInheritance := by
  cases h <;> rfl

structure KeyLink.Twin (known : List ColumnId) (link link' : KeyLink) : Prop where
  column : Column.Twin known link.column link'.column
  relation : Relation.Twin known link.relation link'.relation

namespace Design

/-- A relation that leads to a new column of a table leads to every new column there. -/
def AimsAtNew (known : List ColumnId) (design : Design) : Prop :=
  ∀ r ∈ design.relations, ∀ x ∈ design.columnsOf r.target.table, x.id ∉ known →
    ∀ id, r.target.column = some id → id ∉ known → id = x.id

structure Twins (known : List ColumnId) (design other : Design) : Prop where
  table? : ∀ id, design.table? id = other.table? id
  column? : ∀ id ∈ known, design.column? id = other.column? id
  columnsOf : ∀ id, List.Forall₂ (Column.Twin known) (design.columnsOf id) (other.columnsOf id)
  relationsTo : ∀ id,
    List.Forall₂ (Relation.Twin known) (design.relationsTo id) (other.relationsTo id)
  manyToMany : design.relations.filter (·.kind == .manyToMany) =
    other.relations.filter (·.kind == .manyToMany)
  aims : design.AimsAtNew known
  aims' : other.AimsAtNew known

variable {design other : Design} {ids ids' : IdSupply} {lineage lineage' : Lineage}

theorem twins_of_known_columns {columns : List Column} (h : ∀ x ∈ columns, x.id ∈ known) :
    List.Forall₂ (Column.Twin known) columns columns :=
  List.forall₂_same.mpr fun x hx => .known (h x hx)

theorem twins_of_known_relations {relations : List Relation}
    (h : ∀ r ∈ relations, ∀ e, (e = r.source ∨ e = r.target) →
      ∀ id, e.column = some id → id ∈ known) :
    List.Forall₂ (Relation.Twin known) relations relations :=
  List.forall₂_same.mpr fun r hr => .known (h r hr _ (.inl rfl)) (h r hr _ (.inr rfl))

theorem aimsAtNew_of_known (h : ∀ r ∈ design.relations, ∀ e, (e = r.source ∨ e = r.target) →
    ∀ id, e.column = some id → id ∈ known) : design.AimsAtNew known :=
  fun r hr _ _ _ id htarget hnew => absurd (h r hr _ (.inr rfl) id htarget) hnew

theorem known_columnsOf (design : Design) (id : TableId) :
    ∀ x ∈ design.columnsOf id, x.id ∈ design.mentionedColumns :=
  fun _ hx => mem_mentionedColumns_of_mem (List.mem_of_mem_filter hx)

theorem known_ends (design : Design) : ∀ r ∈ design.relations, ∀ e, (e = r.source ∨ e = r.target) →
    ∀ id, e.column = some id → id ∈ design.mentionedColumns :=
  fun _ hr _ he _ hid => mem_mentionedColumns_of_end hr he hid

/-- A known column is found among those that are only reordered. -/
theorem find?_known_of_perm {columns columns' made made' : List Column} {id : ColumnId}
    (hperm : columns.Perm columns') (hnodup : (columns.map (·.id)).Nodup)
    (hmade : ∀ x ∈ made, x.id ≠ id) (hmade' : ∀ x ∈ made', x.id ≠ id) :
    (columns ++ made).find? (·.id == id) = (columns' ++ made').find? (·.id == id) := by
  rw [find?_key_append hmade, find?_key_append hmade', find?_key_of_perm hperm hnodup]

theorem ne_of_drawn {id : ColumnId} (hid : id ∈ known) (hids : ∀ position, ids position ∉ known)
    {x : Column} (hx : ∃ position, ids position = x.id) : x.id ≠ id := by
  obtain ⟨position, hposition⟩ := hx
  exact fun hsame => hids position (by rwa [hposition, hsame])

/-- A table has at most one new column after linking, and its link leads there. -/
theorem aimsAtNew_linkClasses (htables : design.tableIds.Nodup)
    (hknown : ∀ id ∈ design.mentionedColumns, id ∈ known) :
    (design.linkClasses ids lineage).AimsAtNew known := by
  intro r hr x hx hxNew id htarget hidNew
  obtain ⟨hcolumn, howner⟩ := List.mem_filter.mp hx
  rcases List.mem_append.mp hr with hold | hr
  · exact absurd (hknown id (mem_mentionedColumns_of_end hold (.inr rfl) htarget)) hidNew
  rcases List.mem_append.mp hcolumn with hold | hcolumn
  · exact absurd (hknown x.id (mem_mentionedColumns_of_mem hold)) hxNew
  obtain ⟨link', hlink', rfl⟩ := List.mem_map.mp hcolumn
  obtain ⟨link, hlink, rfl⟩ := List.mem_map.mp hr
  obtain ⟨position, honly⟩ := exists_filter_keyLinks htables ids lineage link.column.table
  have hfirst : link ∈ (design.keyLinks ids lineage).filter (·.column.table == link.column.table) :=
    List.mem_filter.mpr ⟨hlink, beq_self_eq_true _⟩
  have hsecond : link' ∈
      (design.keyLinks ids lineage).filter (·.column.table == link.column.table) := by
    rw [target_of_mem_keyLinks hlink] at howner
    exact List.mem_filter.mpr ⟨hlink', howner⟩
  rw [honly, Option.mem_toList] at hfirst hsecond
  obtain rfl : link = link' := Option.some.inj (hfirst.symm.trans hsecond)
  rw [target_of_mem_keyLinks hlink] at htarget
  exact (Option.some.inj htarget).symm

theorem twins_copiesFor {columns columns' : List Column}
    (h : List.Forall₂ (Column.Twin known) columns columns')
    (hids : ∀ position, ids position ∉ known) (hids' : ∀ position, ids' position ∉ known)
    (id : TableId) (start start' : Nat) :
    List.Forall₂ (Column.Twin known) (copiesFor ids id start columns)
      (copiesFor ids' id start' columns') := by
  rw [← List.zipIdx_map_fst start columns, ← List.zipIdx_map_fst start' columns',
    List.forall₂_map_left_iff, List.forall₂_map_right_iff] at h
  refine List.rel_map (fun x x' hx => ?_) h
  have halike := hx.alike
  exact .new ⟨halike.name, halike.typeText, halike.isPrimaryKey⟩ (hids x.2) (hids' x'.2)

/-! ### The mappings -/

namespace ReordersTo

section Mappings

variable (h : design.ReordersTo other) (htables : design.tableIds.Nodup)
  (hcolumns : design.columnIds.Nodup) (hlineage : Lineage.of design = .ok lineage)
  (hids : ∀ position, ids position ∉ design.mentionedColumns)
  (hids' : ∀ position, ids' position ∉ design.mentionedColumns)

include h

theorem absorbingRoots_perm :
    (lineage.absorbingRoots design.tables).Perm (lineage.absorbingRoots other.tables) := by
  have hroots : ((design.tables.filter fun table => !lineage.isRoot table.id).map fun table =>
      lineage.root table.id).Perm
      ((other.tables.filter fun table => !lineage.isRoot table.id).map fun table =>
        lineage.root table.id) := (h.tables.filter _).map _
  refine (List.perm_ext_iff_of_nodup (nodup_eraseDups _) (nodup_eraseDups _)).mpr fun root => ?_
  rw [List.mem_eraseDups, List.mem_eraseDups, hroots.mem_iff]

include htables hids hids' in
theorem twins_discriminators (id : TableId) :
    List.Forall₂ (Column.Twin design.mentionedColumns)
      ((design.discriminators ids lineage).filter (·.table == id))
      ((other.discriminators ids' lineage).filter (·.table == id)) := by
  obtain ⟨position, hmade⟩ := design.exists_filter_discriminators ids lineage id
  obtain ⟨position', hmade'⟩ := other.exists_filter_discriminators ids' lineage id
  have hnodup : ((lineage.absorbingRoots design.tables).map fun root => root).Nodup := by
    rw [List.map_id']
    exact nodup_eraseDups _
  have hroot : (lineage.absorbingRoots design.tables).find? (· == id) =
      (lineage.absorbingRoots other.tables).find? (· == id) :=
    find?_key_of_perm h.absorbingRoots_perm hnodup id
  rw [hmade, hmade', hroot]
  apply forall₂_toList
  cases (lineage.absorbingRoots other.tables).find? (· == id) with
  | none => exact .none
  | some root =>
      rw [Option.bind_some, Option.bind_some, h.table?_eq htables]
      cases other.table? root with
      | none => exact .none
      | some table => exact .some (.new ⟨rfl, rfl, rfl⟩ (hids position) (hids' position'))

include htables hcolumns hlineage hids hids' in
theorem twins_mergeHierarchies :
    Twins design.mentionedColumns (design.mergeHierarchies ids lineage)
      (other.mergeHierarchies ids' lineage) := by
  have hrelations : (other.mergeHierarchies ids' lineage).relations =
      (design.mergeHierarchies ids lineage).relations := by
    rw [mergeHierarchies, mergeHierarchies, h.relations]
  have hends : ∀ r ∈ (design.mergeHierarchies ids lineage).relations, ∀ e,
      (e = r.source ∨ e = r.target) → ∀ id, e.column = some id → id ∈ design.mentionedColumns := by
    intro r hr e he id hid
    obtain ⟨former, hformer, rfl⟩ := List.mem_map.mp hr
    rcases he with rfl | rfl
    · exact mem_mentionedColumns_of_end hformer (.inl rfl) hid
    · exact mem_mentionedColumns_of_end hformer (.inr rfl) hid
  constructor
  case table? =>
    intro id
    exact find?_key_of_perm (h.tables.filter _) (htables.sublist (List.filter_sublist.map _)) id
  case column? =>
    intro id hid
    apply find?_known_of_perm (h.columns.map _)
    · rw [List.map_map]
      exact hcolumns
    · exact fun x hx => ne_of_drawn hid hids (mem_discriminators hx).1
    · exact fun x hx => ne_of_drawn hid hids' (mem_discriminators hx).1
  case columnsOf =>
    intro id
    have hmoved : (design.columns.map (·.atRoot lineage)).filter (·.table == id) =
        (other.columns.map (·.atRoot lineage)).filter (·.table == id) := by
      rw [List.filter_map, List.filter_map]
      exact congrArg (List.map _) (h.withinRoots lineage hlineage id)
    have hknown : ∀ x ∈ (other.columns.map (·.atRoot lineage)).filter (·.table == id),
        x.id ∈ design.mentionedColumns := by
      intro x hx
      obtain ⟨former, hformer, rfl⟩ := List.mem_map.mp (List.mem_of_mem_filter hx)
      exact mem_mentionedColumns_of_mem (x := former) (h.columns.mem_iff.mpr hformer)
    unfold Design.columnsOf mergeHierarchies
    rw [List.filter_append, List.filter_append, hmoved]
    exact List.rel_append (twins_of_known_columns hknown)
      (h.twins_discriminators htables hids hids' id)
  case relationsTo =>
    intro id
    unfold Design.relationsTo
    rw [hrelations]
    exact twins_of_known_relations fun r hr => hends r (List.mem_of_mem_filter hr)
  case manyToMany => rw [hrelations]
  case aims => exact aimsAtNew_of_known hends
  case aims' =>
    apply aimsAtNew_of_known
    rwa [hrelations]

include htables hlineage hids hids' in
theorem twins_keyLinks (id : TableId) :
    List.Forall₂ (KeyLink.Twin design.mentionedColumns)
      ((design.keyLinks ids lineage).filter (·.column.table == id))
      ((other.keyLinks ids' lineage).filter (·.column.table == id)) := by
  have htables' : other.tableIds.Nodup := (h.tables.map _).nodup_iff.mp htables
  obtain ⟨position, hmade⟩ := exists_filter_keyLinks htables ids lineage id
  obtain ⟨position', hmade'⟩ := exists_filter_keyLinks htables' ids' lineage id
  rw [hmade, hmade', h.table?_eq htables]
  apply forall₂_toList
  cases other.table? id with
  | none => exact .none
  | some table =>
      have hkey : design.rootKey? lineage table = other.rootKey? lineage table := by
        simp only [rootKey?, h.table?_eq htables, h.primaryKeyOf?_eq hlineage]
      rw [Option.bind_some, Option.bind_some]
      unfold keyLink?
      rw [← hkey]
      cases hfound : design.rootKey? lineage table with
      | none => exact .none
      | some key =>
          refine .some ⟨.new ⟨rfl, rfl, rfl⟩ (hids position) (hids' position'), .new ?_
            (hids position) (hids' position')⟩
          intro id hid
          obtain rfl : key.id = id := Option.some.inj hid
          exact mem_mentionedColumns_of_mem (rootKey?_eq_some hfound).1

include htables hcolumns hlineage hids hids' in
theorem twins_linkClasses :
    Twins design.mentionedColumns (design.linkClasses ids lineage)
      (other.linkClasses ids' lineage) := by
  have htables' : other.tableIds.Nodup := (h.tables.map _).nodup_iff.mp htables
  have hdrawn : ∀ (d : Design) (supply : IdSupply),
      ∀ x ∈ (d.keyLinks supply lineage).map (·.column), ∃ position, supply position = x.id := by
    intro d supply x hx
    obtain ⟨link, hlink, rfl⟩ := List.mem_map.mp hx
    obtain ⟨position, _, _, _, _, hid, _⟩ := mem_keyLinks hlink
    exact ⟨position, hid.symm⟩
  constructor
  case table? => exact h.table?_eq htables
  case column? =>
    intro id hid
    apply find?_known_of_perm h.columns hcolumns
    · exact fun x hx => ne_of_drawn hid hids (hdrawn design ids x hx)
    · exact fun x hx => ne_of_drawn hid hids' (hdrawn other ids' x hx)
  case columnsOf =>
    intro id
    have hlinks := h.twins_keyLinks htables hlineage hids hids' id
    have hold : design.columns.filter (·.table == id) = other.columns.filter (·.table == id) :=
      h.columnsOf_eq hlineage id
    unfold Design.columnsOf linkClasses
    rw [List.filter_append, List.filter_append, List.filter_map, List.filter_map, ← hold]
    exact List.rel_append (twins_of_known_columns (design.known_columnsOf id))
      (List.rel_map (fun _ _ hlink => hlink.column) hlinks)
  case relationsTo =>
    intro id
    have hlinks := h.twins_keyLinks htables hlineage hids hids' id
    unfold Design.relationsTo linkClasses
    rw [List.filter_append, List.filter_append, filter_keyLinks_relations,
      filter_keyLinks_relations, ← h.relations]
    refine List.rel_append ?_ (List.rel_map (fun _ _ hlink => hlink.relation) hlinks)
    exact twins_of_known_relations fun r hr => design.known_ends r (List.mem_of_mem_filter hr)
  case manyToMany =>
    rw [filter_manyToMany_linkClasses, filter_manyToMany_linkClasses, h.relations]
  case aims => exact aimsAtNew_linkClasses htables fun _ hid => hid
  case aims' =>
    exact aimsAtNew_linkClasses htables' fun id hid => (h.mem_mentionedColumns_iff id).mp hid

include hlineage hids hids' in
/-- The columns of a table are its own, and copies of columns of its base, which are twins by
induction along the lines. -/
theorem twins_completedColumns (hlineage' : Lineage.of other = .ok lineage')
    (hline : lineage'.line = lineage.line) (id : TableId) :
    List.Forall₂ (Column.Twin design.mentionedColumns)
      ((design.completedColumns ids lineage).filter (·.table == id))
      ((other.completedColumns ids' lineage').filter (·.table == id)) := by
  have hbase := Lineage.base_congr hline
  have hown := twins_of_known_columns (design.known_columnsOf id)
  induction id using lineage.line_induction hlineage with
  | root id hself =>
      have hself' : lineage.base id = id := (lineage.base_eq hlineage id).trans hself
      rw [filter_completedColumns_of_base_eq hself',
        filter_completedColumns_of_base_eq (hbase ▸ hself'), ← h.columnsOf_eq hlineage]
      exact hown
  | step id hne ih =>
      have hne' : lineage.base id ≠ id := by rwa [lineage.base_eq hlineage]
      obtain ⟨start, hcopies⟩ := exists_filter_completedColumns ids hlineage hne'
      obtain ⟨start', hcopies'⟩ :=
        exists_filter_completedColumns ids' hlineage' (hbase ▸ hne')
      rw [hcopies, hcopies', hbase, lineage.base_eq hlineage, ← h.columnsOf_eq hlineage]
      exact List.rel_append hown
        (twins_copiesFor (ih (twins_of_known_columns (design.known_columnsOf _))) hids hids' id
          start start')

include htables hcolumns hlineage hids hids' in
theorem twins_flattenHierarchies (hlineage' : Lineage.of other = .ok lineage')
    (hline : lineage'.line = lineage.line) :
    Twins design.mentionedColumns (design.flattenHierarchies ids lineage)
      (other.flattenHierarchies ids' lineage') := by
  have hdropped : ∀ id, id ∈ other.abstractIds ↔ id ∈ design.abstractIds :=
    fun id => ((h.tables.filter _).map _).symm.mem_iff
  obtain ⟨copies, hcompletes⟩ := exists_completes ids hlineage
  obtain ⟨copies', hcompletes'⟩ := exists_completes ids' hlineage'
  constructor
  case table? =>
    intro id
    exact find?_key_of_perm (h.tables.filter _) (htables.sublist (List.filter_sublist.map _)) id
  case column? =>
    intro id hid
    unfold Design.column? flattenHierarchies
    simp only [hcompletes.split, hcompletes'.split, List.filter_append, hdropped]
    apply find?_known_of_perm (h.columns.filter _)
    · exact hcolumns.sublist (List.filter_sublist.map _)
    · exact fun x hx => ne_of_drawn hid hids (hcompletes.drawn (List.mem_of_mem_filter hx))
    · exact fun x hx => ne_of_drawn hid hids' (hcompletes'.drawn (List.mem_of_mem_filter hx))
  case columnsOf =>
    intro id
    rw [columnsOf_flattenHierarchies, columnsOf_flattenHierarchies]
    simp only [hdropped]
    split
    case isTrue => exact .nil
    case isFalse => exact h.twins_completedColumns hlineage hids hids' hlineage' hline id
  case relationsTo =>
    intro id
    have hsame : (other.flattenHierarchies ids' lineage').relationsTo id =
        design.relationsTo id := by
      unfold Design.relationsTo flattenHierarchies
      rw [h.relations]
    rw [hsame]
    exact twins_of_known_relations fun r hr => design.known_ends r (List.mem_of_mem_filter hr)
  case manyToMany => exact congrArg (List.filter _) h.relations
  case aims => exact aimsAtNew_of_known design.known_ends
  case aims' =>
    apply aimsAtNew_of_known
    change ∀ r ∈ other.relations, _
    rw [← h.relations]
    exact design.known_ends

end Mappings

end ReordersTo

/-! ### All mappings -/

theorem Twins.dropInheritance (h : Twins known design other) :
    Twins known design.dropInheritance other.dropInheritance where
  table? := h.table?
  column? := h.column?
  columnsOf := h.columnsOf
  relationsTo := by
    intro id
    unfold Design.relationsTo Design.dropInheritance
    rw [List.filter_comm, List.filter_comm _ _ other.relations]
    exact forall₂_filter (h.relationsTo id) fun _ _ hr => by rw [hr.isInheritance_eq]
  manyToMany := by
    unfold Design.dropInheritance
    rw [List.filter_comm, h.manyToMany, List.filter_comm]
  aims := fun r hr => h.aims r (List.mem_of_mem_filter hr)
  aims' := fun r hr => h.aims' r (List.mem_of_mem_filter hr)

theorem ReordersTo.twins_mapInheritance (h : design.ReordersTo other)
    (htables : design.tableIds.Nodup) (hcolumns : design.columnIds.Nodup)
    (hlineage : Lineage.of design = .ok lineage) (hlineage' : Lineage.of other = .ok lineage')
    (hline : lineage'.line = lineage.line)
    (hids : ∀ position, ids position ∉ design.mentionedColumns)
    (hids' : ∀ position, ids' position ∉ design.mentionedColumns) :
    Twins design.mentionedColumns (design.mapInheritance ids lineage)
      (other.mapInheritance ids' lineage') := by
  unfold mapInheritance
  rw [← h.inheritance]
  cases design.inheritance with
  | singleTable =>
      rw [mergeHierarchies_congr hline]
      exact h.twins_mergeHierarchies htables hcolumns hlineage hids hids'
  | classTable =>
      rw [linkClasses_congr hline]
      exact h.twins_linkClasses htables hcolumns hlineage hids hids'
  | concreteTable =>
      exact h.twins_flattenHierarchies htables hcolumns hlineage hids hids' hlineage' hline

end Design

end SchemaDesign
