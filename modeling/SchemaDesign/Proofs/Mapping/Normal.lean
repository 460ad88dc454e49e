import SchemaDesign.Proofs.Mapping.JunctionTable
import SchemaDesign.Proofs.Mapping.Kept
import SchemaDesign.Proofs.Mapping.Normalize

/-!
# Normal designs

For a normal design nothing is left to do: it has no inheritance, none of its relations becomes a
junction, and where abstract tables disappear it has none.  Normalization leaves a normal design as
it is, and what it makes of a design is normal, so a second normalization changes nothing.

The mappings and the expansion do their work in one go, since they make no inheritance and no
many-to-many relation.  What has to be shown is that a relation that did not become a junction still
has an end that does not resolve after the records of the junctions were added.
-/

namespace SchemaDesign

variable {design normal : Design} {ids : IdSupply} {lineage : Lineage}

/-- The ids are not those of tables, and no end of a many-to-many relation names them. -/
structure IdSupply.Avoids (ids : IdSupply) (design : Design) : Prop where
  tables : ∀ position, ids position ∉ design.tableIds
  ends : ∀ relation ∈ design.relations, relation.kind = .manyToMany → Design.FreeOf ids relation

theorem IdSupply.UnusedIn.avoids (hunused : ids.UnusedIn design) : ids.Avoids design where
  tables := hunused.freshFor.tables
  ends := by
    intro relation hmem _ endpoint hend position
    have hmentions := Design.mentions_of_end hmem hend
    exact ⟨fun hsame => hunused.tables position (hsame ▸ hmentions.table),
      fun hsame => hunused.columns position (hmentions.column _ hsame)⟩

namespace Design

structure Normal (design : Design) : Prop where
  plain : design.IsPlain
  concrete : design.inheritance = .concreteTable → ∀ table ∈ design.tables, ¬table.isAbstract
  unexpanded : ∀ relation ∈ design.relations, design.junction? relation = none

/-! ### Normal designs stay as they are -/

theorem IsPlain.baseOf_eq (hplain : design.IsPlain) (id : TableId) : design.baseOf id = id := by
  simp [baseOf, parentOf?_eq_head?, hplain.parents_eq_nil]

theorem IsPlain.dropInheritance_eq (hplain : design.IsPlain) : design.dropInheritance = design := by
  have hkept : (design.relations.filter fun relation => !relation.isInheritance) =
      design.relations := by
    rw [List.filter_eq_self]
    intro relation hmem
    simpa using hplain relation hmem
  unfold dropInheritance
  rw [hkept]

section Roots

variable (hroot : ∀ id, lineage.root id = id)

include hroot

theorem mergeHierarchies_of_roots : design.mergeHierarchies ids lineage = design := by
  have hisRoot : ∀ id, lineage.isRoot id = true := fun id => by simp [Lineage.isRoot, hroot]
  have hdiscriminators : design.discriminators ids lineage = [] := by
    simp [discriminators, Lineage.absorbingRoots, hisRoot]
  have hcolumns : design.columns.map (·.atRoot lineage) = design.columns := by
    simp [Column.atRoot, hroot]
  have hrelations : design.relations.map (·.atRoots lineage) = design.relations := by
    simp [Relation.atRoots, Endpoint.atRoot, hroot]
  unfold mergeHierarchies
  rw [hdiscriminators, hcolumns, hrelations, List.append_nil]
  simp [hisRoot]

theorem linkClasses_of_roots : design.linkClasses ids lineage = design := by
  have hlinks : design.keyLinks ids lineage = [] := by
    simp [keyLinks_eq, keyLink?, rootKey?, Lineage.isRoot, hroot]
  simp [linkClasses, hlinks]

end Roots

theorem flattenHierarchies_of_roots (hbase : ∀ id, lineage.base id = id)
    (hconcrete : ∀ table ∈ design.tables, ¬table.isAbstract) :
    design.flattenHierarchies ids lineage = design := by
  have hcopies : ∀ (order : List TableId) (columns : List Column),
      order.foldl (copyDown ids lineage) columns = columns := by
    intro order columns
    induction order with
    | nil => rfl
    | cons id order ih => rw [List.foldl_cons, copyDown_of_base_eq (hbase id), ih]
  have hdropped : design.abstractIds = [] := by simpa [abstractIds] using hconcrete
  have htables : (design.tables.filter fun table => !table.isAbstract) = design.tables := by
    simpa using hconcrete
  unfold flattenHierarchies
  simp [completedColumns, hcopies, hdropped, htables]

theorem expandJunctions_of_unexpanded
    (hunexpanded : ∀ relation ∈ design.relations, design.junction? relation = none) :
    design.expandJunctions ids = design := by
  have hjunctions : design.junctions = [] := by simpa [junctions] using hunexpanded
  have hkept : (design.relations.filter fun relation => (design.junction? relation).isNone) =
      design.relations := by
    simpa using hunexpanded
  simp [expandJunctions, hjunctions, hkept]

theorem Normal.normalize_eq (hnormal : design.Normal) (ids : IdSupply) :
    design.normalize ids = .ok design := by
  obtain ⟨lineage, hlineage⟩ := Lineage.exists_of_acyclic hnormal.plain.acyclic
  have hbase : ∀ id, lineage.base id = id := fun id =>
    (lineage.base_eq hlineage id).trans (hnormal.plain.baseOf_eq id)
  have hroot : ∀ id, lineage.root id = id := fun id =>
    lineage.root_of_base_eq hlineage (hnormal.plain.baseOf_eq id)
  have hmapped : design.mapInheritance ids.left lineage = design := by
    unfold mapInheritance
    cases hkind : design.inheritance with
    | singleTable => exact mergeHierarchies_of_roots hroot
    | classTable => exact linkClasses_of_roots hroot
    | concreteTable => exact flattenHierarchies_of_roots hbase (hnormal.concrete hkind)
  rw [normalize_of_lineage hlineage, hmapped, hnormal.plain.dropInheritance_eq,
    expandJunctions_of_unexpanded hnormal.unexpanded]

/-! ### Normalization makes designs normal -/

theorem avoids_root (hlineage : Lineage.of design = .ok lineage) (havoids : ids.Avoids design)
    {id : TableId} (hid : ∀ position, id ≠ ids position) (position : Nat) :
    lineage.root id ≠ ids position := by
  by_cases hbase : design.baseOf id = id
  · rw [lineage.root_of_base_eq hlineage hbase]
    exact hid position
  · have htable := (inherits_of_baseOf_ne hbase).child_hasTable
    have hroot := (design.hasTable_iff _).mp (lineage.hasTable_root hlineage htable)
    exact fun hsame => havoids.tables position (hsame ▸ hroot)

theorem freeOf_of_manyToMany (hlineage : Lineage.of design = .ok lineage)
    (havoids : ids.Avoids design) {drawn : IdSupply} {relation : Relation}
    (hmem : relation ∈ (design.mapInheritance drawn lineage).dropInheritance.relations)
    (hkind : relation.kind = .manyToMany) : FreeOf ids relation := by
  obtain ⟨former, hformer, hformerKind, rfl⟩ := exists_former_of_manyToMany hmem hkind
  have hfree := havoids.ends former hformer hformerKind
  have hroots : ∀ endpoint, endpoint = former.source ∨ endpoint = former.target →
      ∀ position, (endpoint.atRoot lineage).table ≠ ids position ∧
        (endpoint.atRoot lineage).column ≠ some (ids position) := by
    intro endpoint hend position
    exact ⟨avoids_root hlineage havoids (fun n => (hfree endpoint hend n).1) position,
      (hfree endpoint hend position).2⟩
  unfold InheritanceKind.moves
  cases design.inheritance with
  | singleTable =>
      rintro endpoint (rfl | rfl)
      · exact hroots former.source (.inl rfl)
      · exact hroots former.target (.inr rfl)
  | classTable => exact hfree
  | concreteTable => exact hfree

theorem inheritance_mapInheritance (design : Design) (ids : IdSupply) (lineage : Lineage) :
    (design.mapInheritance ids lineage).inheritance = design.inheritance := by
  unfold mapInheritance
  split <;> rfl

theorem not_isAbstract_of_mem_mapInheritance (hkind : design.inheritance = .concreteTable)
    {table : Table} (hmem : table ∈ (design.mapInheritance ids lineage).tables) :
    ¬table.isAbstract := by
  unfold mapInheritance at hmem
  simp only [hkind] at hmem
  simpa using (List.mem_filter.mp hmem).2

theorem not_isAbstract_of_mem_junctionTables {table : Table}
    (hmem : table ∈ design.junctionTables ids) : ¬table.isAbstract := by
  obtain ⟨x, _, rfl⟩ := List.mem_map.mp hmem
  exact Bool.false_ne_true

theorem kind_of_mem_junctionRelations {relation : Relation}
    (hmem : relation ∈ design.junctionRelations ids) : relation.kind = .oneToMany := by
  obtain ⟨x, _, hmade⟩ := List.mem_flatMap.mp hmem
  rcases List.mem_cons.mp hmade with rfl | hmade
  · rfl
  · rw [List.mem_singleton.mp hmade]
    rfl

theorem unexpanded_expandJunctions
    (hfree : ∀ relation ∈ design.relations, relation.kind = .manyToMany → FreeOf ids relation) :
    ∀ relation ∈ (design.expandJunctions ids).relations,
      (design.expandJunctions ids).junction? relation = none := by
  intro relation hmem
  by_cases hkind : relation.kind = .manyToMany
  · rw [expandJunctions_relations] at hmem
    rcases List.mem_append.mp hmem with hold | hnew
    · obtain ⟨hold, hnone⟩ := List.mem_filter.mp hold
      rw [junction?_expandJunctions (hfree relation hold hkind)]
      simpa using hnone
    · simp [kind_of_mem_junctionRelations hnew] at hkind
  · simp [junction?_eq, hkind]

theorem normal_of_normalize (havoids : ids.Avoids design)
    (hnormal : design.normalize ids = .ok normal) : normal.Normal := by
  obtain ⟨lineage, hlineage, rfl⟩ := exists_lineage_of_normalize hnormal
  have hright : ids.right.Avoids design :=
    ⟨fun position => havoids.tables (2 * position + 1),
      fun relation hmem hkind endpoint hend position =>
        havoids.ends relation hmem hkind endpoint hend (2 * position + 1)⟩
  constructor
  case plain => exact (dropInheritance_isPlain _).expandJunctions _
  case concrete =>
    intro hkind table hmem
    have hconcrete : design.inheritance = .concreteTable :=
      (inheritance_mapInheritance design ids.left lineage).symm.trans hkind
    rw [expandJunctions_tables] at hmem
    rcases List.mem_append.mp hmem with hold | hnew
    · exact not_isAbstract_of_mem_mapInheritance hconcrete hold
    · exact not_isAbstract_of_mem_junctionTables hnew
  case unexpanded =>
    apply unexpanded_expandJunctions
    intro relation hmem hkind
    exact freeOf_of_manyToMany hlineage hright hmem hkind

/-- Normalizing a second time changes nothing and makes no record, whatever ids are at hand. -/
theorem normalization_of_normalized_designs (havoids : ids.Avoids design)
    (hnormal : design.normalize ids = .ok normal) (others : IdSupply) :
    normal.normalize others = .ok normal :=
  (normal_of_normalize havoids hnormal).normalize_eq others

/-- Dogs run in packs; a second relation between animals and packs is lost with the animals, and a
third one leads to a table that does not exist. -/
def packs : Design where
  tables :=
    [(Table.create "animal" "Animal").asAbstract, .create "dog" "Dog", .create "pack" "Pack"]
  columns :=
    [ (Column.create "animal.id" "animal" "id" "INT").primaryKey,
      (Column.create "dog.id" "dog" "id" "INT").primaryKey,
      (Column.create "pack.id" "pack" "id" "INT").primaryKey ]
  relations :=
    [ .inherits "dog" "animal",
      .between .manyToMany "dog" "dog.id" "pack" "pack.id",
      .between .manyToMany "animal" "animal.id" "pack" "pack.id",
      .between .manyToMany "dog" "dog.id" "herd" "herd.id" ]
  inheritance := .concreteTable

theorem hashes_avoid_packs : hashes.Avoids packs :=
  (hashes_unusedIn (by decide) (by decide)).avoids

theorem normalization_of_normalized_packs :
    ∃ normal, packs.normalize hashes = .ok normal ∧
      ∀ others, normal.normalize others = .ok normal := by
  have hacyclic : packs.Acyclic := (cycleIssues_eq_nil_iff packs).mp rfl
  obtain ⟨lineage, hlineage⟩ := Lineage.exists_of_acyclic hacyclic
  have hnormal := normalize_of_lineage hlineage hashes
  exact ⟨_, hnormal, normalization_of_normalized_designs hashes_avoid_packs hnormal⟩

end Design

end SchemaDesign
