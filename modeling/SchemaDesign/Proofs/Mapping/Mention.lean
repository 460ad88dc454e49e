import SchemaDesign.Proofs.Mapping.SingleTable
import SchemaDesign.Proofs.Mapping.ClassTable
import SchemaDesign.Proofs.Mapping.ConcreteTable

/-!
# What a mapped design mentions

The mappings make no new table.  What they move goes to roots, and their new columns are on tables
and take drawn ids.  So a mapped design mentions what the design mentioned, and ids drawn for
columns, and the other half of an unused supply is still unused.
-/

namespace SchemaDesign.Design

variable {design after : Design} {ids : IdSupply} {lineage : Lineage}

/-- A clean design mentions no table that it does not have. -/
theorem Clean.mentionedTables_subset (hclean : design.Clean) :
    design.mentionedTables ⊆ design.tableIds := by
  intro id hid
  rcases (design.mem_mentionedTables_iff id).mp hid with
    htable | ⟨x, hx, rfl⟩ | ⟨relation, hmem, endpoint, hend, rfl⟩
  · exact htable
  · exact (design.hasTable_iff _).mp (hclean.owner x hx)
  · have hends := hclean.ends relation hmem
    rcases hend with rfl | rfl
    · exact (design.hasTable_iff _).mp hends.1
    · exact (design.hasTable_iff _).mp hends.2

theorem root_mem_mentionedTables (hlineage : Lineage.of design = .ok lineage) {id : TableId}
    (hid : id ∈ design.mentionedTables) : lineage.root id ∈ design.mentionedTables := by
  by_cases hbase : design.baseOf id = id
  · rwa [lineage.root_of_base_eq hlineage hbase]
  · have htable := (inherits_of_baseOf_ne hbase).child_hasTable
    exact mem_mentionedTables_of_hasTable (lineage.hasTable_root hlineage htable)

theorem mentionsOnly_mergeHierarchies (hlineage : Lineage.of design = .ok lineage) :
    design.MentionsOnly ids (design.mergeHierarchies ids lineage) where
  tables := by
    intro id hid
    have hkept : id ∈ design.tableIds := (List.filter_sublist.map _).subset hid
    exact (design.mem_mentionedTables_iff id).mpr (.inl hkept)
  owners := by
    intro x hx
    rcases List.mem_append.mp hx with hx | hx
    · obtain ⟨former, hformer, rfl⟩ := List.mem_map.mp hx
      exact root_mem_mentionedTables hlineage (mem_mentionedTables_of_owner hformer)
    · obtain ⟨_, table, htable, howner⟩ := mem_discriminators hx
      rw [howner]
      exact root_mem_mentionedTables hlineage
        (mem_mentionedTables_of_hasTable (hasTable_of_mem htable))
  columns := by
    intro x hx
    rcases List.mem_append.mp hx with hx | hx
    · obtain ⟨former, hformer, rfl⟩ := List.mem_map.mp hx
      exact .inl (mem_mentionedColumns_of_mem (x := former) hformer)
    · exact .inr (mem_discriminators hx).1
  endTables := by
    intro r hr e he
    obtain ⟨former, hformer, rfl⟩ := List.mem_map.mp hr
    rcases he with rfl | rfl
    · exact root_mem_mentionedTables hlineage (mem_mentionedTables_of_end hformer (.inl rfl))
    · exact root_mem_mentionedTables hlineage (mem_mentionedTables_of_end hformer (.inr rfl))
  endColumns := by
    intro r hr e he id hid
    obtain ⟨former, hformer, rfl⟩ := List.mem_map.mp hr
    rcases he with rfl | rfl
    · exact .inl (mem_mentionedColumns_of_end hformer (.inl rfl) hid)
    · exact .inl (mem_mentionedColumns_of_end hformer (.inr rfl) hid)

theorem mentionsOnly_linkClasses :
    design.MentionsOnly ids (design.linkClasses ids lineage) where
  tables := fun id hid => (design.mem_mentionedTables_iff id).mpr (.inl hid)
  owners := by
    intro x hx
    rcases List.mem_append.mp hx with hx | hx
    · exact mem_mentionedTables_of_owner hx
    · obtain ⟨link, hlink, rfl⟩ := List.mem_map.mp hx
      obtain ⟨_, table, htable, _, _, _, howner, _⟩ := mem_keyLinks hlink
      rw [howner]
      exact mem_mentionedTables_of_hasTable (hasTable_of_mem htable)
  columns := by
    intro x hx
    rcases List.mem_append.mp hx with hx | hx
    · exact .inl (mem_mentionedColumns_of_mem hx)
    · obtain ⟨link, hlink, rfl⟩ := List.mem_map.mp hx
      obtain ⟨position, _, _, _, _, hid, _⟩ := mem_keyLinks hlink
      exact .inr ⟨position, hid.symm⟩
  endTables := by
    intro r hr e he
    rcases List.mem_append.mp hr with hr | hr
    · exact mem_mentionedTables_of_end hr he
    · obtain ⟨link, hlink, rfl⟩ := List.mem_map.mp hr
      obtain ⟨_, table, htable, key, hkey, _, _, hrelation⟩ := mem_keyLinks hlink
      rw [hrelation] at he
      rcases he with rfl | rfl
      · exact mem_mentionedTables_of_owner hkey
      · exact mem_mentionedTables_of_hasTable (hasTable_of_mem htable)
  endColumns := by
    intro r hr e he id hid
    rcases List.mem_append.mp hr with hr | hr
    · exact .inl (mem_mentionedColumns_of_end hr he hid)
    · obtain ⟨link, hlink, rfl⟩ := List.mem_map.mp hr
      obtain ⟨position, table, _, key, hkey, _, _, hrelation⟩ := mem_keyLinks hlink
      rw [hrelation] at he
      rcases he with rfl | rfl
      · obtain rfl : key.id = id := Option.some.inj hid
        exact .inl (mem_mentionedColumns_of_mem hkey)
      · exact .inr ⟨position, Option.some.inj hid⟩

theorem mentionsOnly_flattenHierarchies (hlineage : Lineage.of design = .ok lineage) :
    design.MentionsOnly ids (design.flattenHierarchies ids lineage) := by
  obtain ⟨copies, hcompletes⟩ := exists_completes ids hlineage
  have hcolumn : ∀ x ∈ (design.flattenHierarchies ids lineage).columns,
      x ∈ design.columns ∨ x ∈ copies := by
    intro x hx
    have hmem := List.mem_of_mem_filter hx
    rw [hcompletes.split] at hmem
    exact List.mem_append.mp hmem
  constructor
  case tables =>
    intro id hid
    have hkept : id ∈ design.tableIds := (List.filter_sublist.map _).subset hid
    exact (design.mem_mentionedTables_iff id).mpr (.inl hkept)
  case owners =>
    intro x hx
    cases hcolumn x hx with
    | inl hold => exact mem_mentionedTables_of_owner hold
    | inr hcopy => exact mem_mentionedTables_of_hasTable (hcompletes.owner x hcopy)
  case columns =>
    intro x hx
    cases hcolumn x hx with
    | inl hold => exact .inl (mem_mentionedColumns_of_mem hold)
    | inr hcopy => exact .inr (hcompletes.drawn hcopy)
  case endTables => exact fun r hr e he => mem_mentionedTables_of_end hr he
  case endColumns =>
    intro r hr e he id hid
    have hold : r ∈ design.relations := hr
    exact .inl (mem_mentionedColumns_of_end hold he hid)

theorem mentionsOnly_mapInheritance (hlineage : Lineage.of design = .ok lineage) :
    design.MentionsOnly ids (design.mapInheritance ids lineage) := by
  unfold mapInheritance
  cases design.inheritance with
  | singleTable => exact mentionsOnly_mergeHierarchies hlineage
  | classTable => exact mentionsOnly_linkClasses
  | concreteTable => exact mentionsOnly_flattenHierarchies hlineage

theorem MentionsOnly.dropInheritance (h : design.MentionsOnly ids after) :
    design.MentionsOnly ids after.dropInheritance where
  tables := h.tables
  owners := h.owners
  columns := h.columns
  endTables := fun r hr => h.endTables r (List.mem_of_mem_filter hr)
  endColumns := fun r hr => h.endColumns r (List.mem_of_mem_filter hr)

/-- Junctions take their ids from a supply that is unused in the mapped design. -/
theorem unusedIn_mapInheritance (hlineage : Lineage.of design = .ok lineage)
    (hunused : ids.UnusedIn design) :
    ids.right.UnusedIn (design.mapInheritance ids.left lineage).dropInheritance :=
  hunused.right (mentionsOnly_mapInheritance hlineage).dropInheritance

end SchemaDesign.Design
