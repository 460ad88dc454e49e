import SchemaDesign.Proofs.Mapping.Normal

/-!
# Ends that hold keys

A one-to-many relation takes a key from its source, and so does a one-to-one relation; a
many-to-many relation takes keys from both its ends.  In a clean design such an end names a column
of its table.  A mapping moves owners and ends together, and the columns that it makes have new ids.
So all columns with the id that is named stay on the table of the end, although the table may have
lost them.
-/

namespace SchemaDesign

variable {design : Design} {ids : IdSupply} {lineage : Lineage}

def Relation.keyEnds (relation : Relation) : List Endpoint :=
  match relation.kind with
  | .oneToOne => [relation.source]
  | .oneToMany => [relation.source]
  | .manyToMany => [relation.source, relation.target]
  | .inheritsFrom => []

theorem Relation.keyEnds_atRoots (lineage : Lineage) (relation : Relation) :
    (relation.atRoots lineage).keyEnds = relation.keyEnds.map (·.atRoot lineage) := by
  cases relation with
  | mk source target kind => cases kind <;> rfl

theorem Relation.end_of_mem_keyEnds {relation : Relation} {endpoint : Endpoint}
    (hmem : endpoint ∈ relation.keyEnds) :
    ¬relation.isInheritance ∧ (endpoint = relation.source ∨ endpoint = relation.target) := by
  cases relation with
  | mk source target kind =>
      cases kind <;> simp_all [keyEnds, isInheritance]

/-- Every column with the id that the end names is on the table of the end. -/
def Endpoint.AlignedWith (endpoint : Endpoint) (columns : List Column) : Prop :=
  ∀ x ∈ columns, endpoint.column = some x.id → x.table = endpoint.table

theorem Endpoint.AlignedWith.append {endpoint : Endpoint} {columns others : List Column}
    (haligned : endpoint.AlignedWith columns)
    (hothers : ∀ x ∈ others, endpoint.column ≠ some x.id) :
    endpoint.AlignedWith (columns ++ others) := by
  intro x hx hid
  rcases List.mem_append.mp hx with hold | hnew
  · exact haligned x hold hid
  · exact absurd hid (hothers x hnew)

namespace Design

/-- The ends that hold keys name known columns, and no column of that id is on another table. -/
structure Aligned (known : List ColumnId) (design : Design) : Prop where
  known : ∀ relation ∈ design.relations, ∀ endpoint ∈ relation.keyEnds,
    ∃ id ∈ known, endpoint.column = some id
  aligned : ∀ relation ∈ design.relations, ∀ endpoint ∈ relation.keyEnds,
    endpoint.AlignedWith design.columns

theorem Clean.aligned (hclean : design.Clean) (hcolumns : design.columnIds.Nodup) :
    design.Aligned design.columnIds := by
  have hresolves : ∀ relation ∈ design.relations, ∀ endpoint ∈ relation.keyEnds,
      design.Resolves endpoint := by
    intro relation hmem endpoint hend
    obtain ⟨hdata, rfl | rfl⟩ := Relation.end_of_mem_keyEnds hend
    · exact (hclean.resolved relation hmem hdata).1
    · exact (hclean.resolved relation hmem hdata).2
  constructor
  case known =>
    intro relation hmem endpoint hend
    obtain ⟨column, hcolumn, hid, _⟩ := (hresolves relation hmem endpoint hend).exists_mem
    exact ⟨column.id, List.mem_map_of_mem hcolumn, hid⟩
  case aligned =>
    intro relation hmem endpoint hend x hx hxid
    obtain ⟨column, hcolumn, hid, htable⟩ := (hresolves relation hmem endpoint hend).exists_mem
    have hsame : x.id = column.id := Option.some.inj (hxid.symm.trans hid)
    rw [List.inj_on_of_nodup_map hcolumns hx hcolumn hsame, htable]

section Drawn

variable {known : List ColumnId} (hdrawn : ∀ position, ids position ∉ known)

include hdrawn

theorem Aligned.ne_of_drawn (haligned : design.Aligned known) {relation : Relation}
    (hmem : relation ∈ design.relations) {endpoint : Endpoint} (hend : endpoint ∈ relation.keyEnds)
    {x : Column} (hx : ∃ position, ids position = x.id) : endpoint.column ≠ some x.id := by
  obtain ⟨position, hposition⟩ := hx
  obtain ⟨id, hid, hcolumn⟩ := haligned.known relation hmem endpoint hend
  rw [hcolumn]
  rintro ⟨rfl⟩
  exact hdrawn position (hposition ▸ hid)

theorem Aligned.mergeHierarchies (haligned : design.Aligned known) :
    (design.mergeHierarchies ids lineage).Aligned known := by
  constructor
  case known =>
    intro relation hmem endpoint hend
    obtain ⟨former, hformer, rfl⟩ := List.mem_map.mp hmem
    rw [Relation.keyEnds_atRoots] at hend
    obtain ⟨formerEnd, hformerEnd, rfl⟩ := List.mem_map.mp hend
    exact haligned.known former hformer formerEnd hformerEnd
  case aligned =>
    intro relation hmem endpoint hend
    obtain ⟨former, hformer, rfl⟩ := List.mem_map.mp hmem
    rw [Relation.keyEnds_atRoots] at hend
    obtain ⟨formerEnd, hformerEnd, rfl⟩ := List.mem_map.mp hend
    apply Endpoint.AlignedWith.append
    · intro x hx hid
      obtain ⟨column, hcolumn, rfl⟩ := List.mem_map.mp hx
      exact congrArg lineage.root (haligned.aligned former hformer formerEnd hformerEnd column
        hcolumn hid)
    · intro x hx
      exact haligned.ne_of_drawn hdrawn hformer hformerEnd (mem_discriminators hx).1

end Drawn

theorem keyEnds_of_mem_keyLinks {link : KeyLink} (hmem : link ∈ design.keyLinks ids lineage) :
    ∃ key ∈ design.columns, link.relation.keyEnds = [⟨key.table, some key.id⟩] := by
  obtain ⟨_, _, _, key, hkey, _, _, hrelation⟩ := mem_keyLinks hmem
  refine ⟨key, hkey, ?_⟩
  rw [hrelation]
  rfl

theorem alignedWith_of_mem (hcolumns : design.columnIds.Nodup) {key : Column}
    (hkey : key ∈ design.columns) :
    Endpoint.AlignedWith ⟨key.table, some key.id⟩ design.columns := by
  intro x hx hid
  have hsame : x.id = key.id := (Option.some.inj hid).symm
  rw [List.inj_on_of_nodup_map hcolumns hx hkey hsame]

theorem Aligned.linkClasses (haligned : design.Aligned design.columnIds)
    (hcolumns : design.columnIds.Nodup) (hdrawn : ∀ position, ids position ∉ design.columnIds) :
    (design.linkClasses ids lineage).Aligned design.columnIds := by
  have hlinks : ∀ x ∈ (design.keyLinks ids lineage).map (·.column),
      ∃ position, ids position = x.id := by
    intro x hx
    obtain ⟨link, hlink, rfl⟩ := List.mem_map.mp hx
    obtain ⟨position, _, _, _, _, hid, _⟩ := mem_keyLinks hlink
    exact ⟨position, hid.symm⟩
  constructor
  case known =>
    intro relation hmem endpoint hend
    rcases List.mem_append.mp hmem with hold | hnew
    · exact haligned.known relation hold endpoint hend
    · obtain ⟨link, hlink, rfl⟩ := List.mem_map.mp hnew
      obtain ⟨key, hkey, hends⟩ := keyEnds_of_mem_keyLinks hlink
      rw [hends, List.mem_singleton] at hend
      exact ⟨key.id, List.mem_map_of_mem hkey, by rw [hend]⟩
  case aligned =>
    intro relation hmem endpoint hend
    rcases List.mem_append.mp hmem with hold | hnew
    · apply (haligned.aligned relation hold endpoint hend).append
      exact fun x hx => haligned.ne_of_drawn hdrawn hold hend (hlinks x hx)
    · obtain ⟨link, hlink, rfl⟩ := List.mem_map.mp hnew
      obtain ⟨key, hkey, hends⟩ := keyEnds_of_mem_keyLinks hlink
      rw [hends, List.mem_singleton] at hend
      subst hend
      apply (alignedWith_of_mem hcolumns hkey).append
      intro x hx hid
      obtain ⟨position, hposition⟩ := hlinks x hx
      apply hdrawn position
      rw [hposition, ← Option.some.inj hid]
      exact List.mem_map_of_mem hkey

theorem Aligned.flattenHierarchies {known : List ColumnId} (haligned : design.Aligned known)
    (hdrawn : ∀ position, ids position ∉ known) (hlineage : Lineage.of design = .ok lineage) :
    (design.flattenHierarchies ids lineage).Aligned known := by
  obtain ⟨copies, hcompletes⟩ := exists_completes ids hlineage
  constructor
  case known => exact fun relation hmem => haligned.known relation hmem
  case aligned =>
    intro relation hmem endpoint hend x hx
    have hcompleted : endpoint.AlignedWith (design.completedColumns ids lineage) := by
      rw [hcompletes.split]
      apply (haligned.aligned relation hmem endpoint hend).append
      exact fun y hy => haligned.ne_of_drawn hdrawn hmem hend (hcompletes.drawn hy)
    exact hcompleted x (List.mem_of_mem_filter hx)

theorem Aligned.mapInheritance (haligned : design.Aligned design.columnIds)
    (hcolumns : design.columnIds.Nodup) (hdrawn : ∀ position, ids position ∉ design.columnIds)
    (hlineage : Lineage.of design = .ok lineage) :
    (design.mapInheritance ids lineage).Aligned design.columnIds := by
  unfold Design.mapInheritance
  cases design.inheritance with
  | singleTable => exact haligned.mergeHierarchies hdrawn
  | classTable => exact haligned.linkClasses hcolumns hdrawn
  | concreteTable => exact haligned.flattenHierarchies hdrawn hlineage

theorem Aligned.dropInheritance {known : List ColumnId} (haligned : design.Aligned known) :
    design.dropInheritance.Aligned known where
  known := fun relation hmem => haligned.known relation (List.mem_of_mem_filter hmem)
  aligned := fun relation hmem => haligned.aligned relation (List.mem_of_mem_filter hmem)

/-- A side of a junction is at an end of its relation that holds a key. -/
theorem exists_keyEnd_of_mem_junctions {junction : Junction} (hmem : junction ∈ design.junctions) :
    ∃ relation ∈ design.relations,
      (⟨junction.source.id, some junction.sourceKey.id⟩ : Endpoint) ∈ relation.keyEnds ∧
        (⟨junction.target.id, some junction.targetKey.id⟩ : Endpoint) ∈ relation.keyEnds := by
  obtain ⟨relation, hrelation, hjunction⟩ := List.mem_filterMap.mp hmem
  obtain ⟨hkind, ⟨hsource, sourceId, hsourceId, hsourceKey⟩, htarget, targetId, htargetId,
    htargetKey⟩ := junction?_eq_some hjunction
  refine ⟨relation, hrelation, ?_⟩
  have hends : relation.keyEnds = [relation.source, relation.target] := by
    simp [Relation.keyEnds, hkind]
  have hside : ∀ (endpoint : Endpoint) (table : Table) (key : Column) (id : ColumnId),
      design.table? endpoint.table = some table → endpoint.column = some id →
      design.column? id = some key → endpoint = ⟨table.id, some key.id⟩ := by
    intro endpoint table key id htable hid hkey
    rw [(mem_of_table? htable).2, (mem_of_column? hkey).2, ← hid]
  rw [hends, ← hside _ _ _ _ hsource hsourceId hsourceKey,
    ← hside _ _ _ _ htarget htargetId htargetKey]
  simp

theorem keyEnds_of_mem_junctionRelations {relation : Relation}
    (hmem : relation ∈ design.junctionRelations ids) {endpoint : Endpoint}
    (hend : endpoint ∈ relation.keyEnds) :
    ∃ former ∈ design.relations, endpoint ∈ former.keyEnds := by
  obtain ⟨⟨junction, position⟩, hposition, hmade⟩ := List.mem_flatMap.mp hmem
  obtain ⟨former, hformer, hsource, htarget⟩ :=
    exists_keyEnd_of_mem_junctions (List.fst_mem_of_mem_zipIdx hposition)
  refine ⟨former, hformer, ?_⟩
  rcases List.mem_cons.mp hmade with rfl | hmade
  · rwa [List.mem_singleton.mp hend]
  · rw [List.mem_singleton.mp hmade] at hend
    rwa [List.mem_singleton.mp hend]

theorem Aligned.expandJunctions {known : List ColumnId} (haligned : design.Aligned known)
    (hdrawn : ∀ position, ids position ∉ known) : (design.expandJunctions ids).Aligned known := by
  have hformer : ∀ relation ∈ (design.expandJunctions ids).relations,
      ∀ endpoint ∈ relation.keyEnds, ∃ former ∈ design.relations, endpoint ∈ former.keyEnds := by
    intro relation hmem endpoint hend
    rw [expandJunctions_relations] at hmem
    rcases List.mem_append.mp hmem with hold | hnew
    · exact ⟨relation, List.mem_of_mem_filter hold, hend⟩
    · exact keyEnds_of_mem_junctionRelations hnew hend
  constructor
  case known =>
    intro relation hmem endpoint hend
    obtain ⟨former, hold, hend⟩ := hformer relation hmem endpoint hend
    exact haligned.known former hold endpoint hend
  case aligned =>
    intro relation hmem endpoint hend
    obtain ⟨former, hold, hend⟩ := hformer relation hmem endpoint hend
    rw [expandJunctions_columns]
    apply (haligned.aligned former hold endpoint hend).append
    exact fun x hx => haligned.ne_of_drawn hdrawn hold hend (mem_junctionColumns hx).1

/-- What normalization makes of a clean design is aligned. -/
theorem Clean.aligned_of_normalize (hclean : design.Clean) (hcolumns : design.columnIds.Nodup)
    (hdrawn : ∀ position, ids position ∉ design.columnIds) {normal : Design}
    (hnormal : design.normalize ids = .ok normal) : normal.Aligned design.columnIds := by
  obtain ⟨lineage, hlineage, rfl⟩ := exists_lineage_of_normalize hnormal
  have hmapped : (design.mapInheritance ids.left lineage).Aligned design.columnIds :=
    (hclean.aligned hcolumns).mapInheritance hcolumns (fun position => hdrawn (2 * position))
      hlineage
  exact hmapped.dropInheritance.expandJunctions fun position => hdrawn (2 * position + 1)

end Design

end SchemaDesign
