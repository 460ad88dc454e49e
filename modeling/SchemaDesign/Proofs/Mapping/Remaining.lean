import SchemaDesign.Proofs.Mapping.Normal

/-!
# Relations that remain

Normalization leaves no inheritance relation, and a many-to-many relation only where one of its ends
is not found in the normal design itself.  In a clean design both ends of every many-to-many
relation are found, and a mapping loses them only at an abstract table that disappears.  So no
many-to-many relation remains of a clean design in which none of them touches an abstract table.
-/

namespace SchemaDesign.Design

variable {design normal : Design} {ids : IdSupply}

/-- No many-to-many relation touches an abstract table. -/
def JoinsConcrete (design : Design) : Prop :=
  ∀ relation ∈ design.relations, relation.kind = .manyToMany →
    ∀ table ∈ design.tables, table.isAbstract → ¬relation.touchesTable table.id

theorem JoinsConcrete.not_mem_abstractIds (hjoins : design.JoinsConcrete) {relation : Relation}
    (hmem : relation ∈ design.relations) (hkind : relation.kind = .manyToMany) :
    relation.source.table ∉ design.abstractIds ∧ relation.target.table ∉ design.abstractIds := by
  have hfree : ∀ id ∈ design.abstractIds, ¬relation.touchesTable id := by
    intro id hid
    obtain ⟨table, htable, habstract, rfl⟩ := (design.mem_abstractIds_iff id).mp hid
    exact hjoins relation hmem hkind table htable habstract
  constructor
  · exact fun hsource => hfree _ hsource (by simp [Relation.touchesTable])
  · exact fun htarget => hfree _ htarget (by simp [Relation.touchesTable])

/-- Where every many-to-many relation becomes a junction, none remains. -/
theorem kind_ne_manyToMany_of_expanded
    (hexpanded : ∀ relation ∈ design.relations, relation.kind = .manyToMany →
      design.junction? relation ≠ none) :
    ∀ relation ∈ (design.expandJunctions ids).relations, relation.kind ≠ .manyToMany := by
  intro relation hmem hkind
  rw [expandJunctions_relations] at hmem
  rcases List.mem_append.mp hmem with hold | hnew
  · obtain ⟨hold, hnone⟩ := List.mem_filter.mp hold
    exact hexpanded relation hold hkind (by simpa using hnone)
  · simp [kind_of_mem_junctionRelations hnew] at hkind

theorem Clean.kind_ne_manyToMany (hclean : design.Clean) (hjoins : design.JoinsConcrete)
    (hnormal : design.normalize ids = .ok normal) :
    ∀ relation ∈ normal.relations, relation.kind ≠ .manyToMany := by
  obtain ⟨lineage, hlineage, rfl⟩ := exists_lineage_of_normalize hnormal
  apply kind_ne_manyToMany_of_expanded
  intro relation hmem hkind
  rw [Ne, junction?_eq_none_iff hkind, not_not]
  obtain ⟨former, hformer, hformerKind, rfl⟩ := exists_former_of_manyToMany hmem hkind
  have hdata : ¬former.isInheritance := by simp [Relation.isInheritance, hformerKind]
  exact hclean.finds_moved hformer hdata hlineage fun _ =>
    hjoins.not_mem_abstractIds hformer hformerKind

/-- What remains of the relations: no inheritance, and many-to-many relations only with an end that
the normal design does not have; none of them if the design is clean and they stay away from
abstract tables. -/
theorem relations_of_normalized_designs (havoids : ids.Avoids design)
    (hnormal : design.normalize ids = .ok normal) :
    (∀ relation ∈ normal.relations, relation.kind ≠ .inheritsFrom) ∧
      (∀ relation ∈ normal.relations, relation.kind = .manyToMany →
        ¬(normal.Finds relation.source ∧ normal.Finds relation.target)) ∧
      (design.issues = [] → design.JoinsConcrete →
        ∀ relation ∈ normal.relations, relation.kind ≠ .manyToMany) := by
  have hform := normal_of_normalize havoids hnormal
  refine ⟨?_, ?_, ?_⟩
  · intro relation hmem hkind
    exact hform.plain relation hmem (by simp [Relation.isInheritance, hkind])
  · intro relation hmem hkind
    exact (junction?_eq_none_iff hkind).mp (hform.unexpanded relation hmem)
  · intro hissues hjoins
    exact (design.issues_eq_nil_iff.mp hissues).kind_ne_manyToMany hjoins hnormal

/-- Two many-to-many relations of the packs remain, one of them lost with the animals.  That of the
pets does not, and neither does it touch the animals. -/
theorem relations_of_normalized_packs_and_pets :
    (∃ normal, packs.normalize hashes = .ok normal ∧
      normal.countRelations .inheritsFrom = 0 ∧ normal.countRelations .manyToMany = 2 ∧
      ∀ relation ∈ normal.relations, relation.kind = .manyToMany →
        ¬(normal.Finds relation.source ∧ normal.Finds relation.target)) ∧
    pets.issues = [] ∧ pets.JoinsConcrete ∧ ∃ normal, pets.normalize hashes = .ok normal ∧
      ∀ relation ∈ normal.relations, relation.kind ≠ .manyToMany := by
  have hissues : pets.issues = [] := rfl
  have hjoins : pets.JoinsConcrete := by
    unfold JoinsConcrete
    decide
  refine ⟨?_, hissues, hjoins, ?_⟩
  · have hacyclic : packs.Acyclic := (cycleIssues_eq_nil_iff packs).mp rfl
    obtain ⟨lineage, hlineage⟩ := Lineage.exists_of_acyclic hacyclic
    have hnormal := normalize_of_lineage hlineage hashes
    obtain ⟨hplain, hunfound, _⟩ := relations_of_normalized_designs hashes_avoid_packs hnormal
    have hcount :
        (packs.normalize hashes).toOption.map (·.countRelations .manyToMany) = some 2 := by
      decide +kernel
    rw [hnormal] at hcount
    refine ⟨_, hnormal, ?_, Option.some.inj hcount, hunfound⟩
    rw [countRelations, List.countP_eq_zero]
    exact fun relation hmem hkind => hplain relation hmem (beq_iff_eq.mp hkind)
  · have hclean := pets.issues_eq_nil_iff.mp hissues
    obtain ⟨lineage, hlineage⟩ := Lineage.exists_of_acyclic hclean.acyclic
    have hnormal := normalize_of_lineage hlineage hashes
    have havoids : hashes.Avoids pets := (hashes_unusedIn (by decide) (by decide)).avoids
    exact ⟨_, hnormal, (relations_of_normalized_designs havoids hnormal).2.2 hissues hjoins⟩

end SchemaDesign.Design
