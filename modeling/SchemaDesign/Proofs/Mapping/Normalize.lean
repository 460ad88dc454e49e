import SchemaDesign.Proofs.Mapping.SingleTable
import SchemaDesign.Proofs.Mapping.ClassTable
import SchemaDesign.Proofs.Mapping.ConcreteTable
import SchemaDesign.Proofs.Mapping.Junction

/-!
# Normalization

Normalization takes a clean design to a clean one, as long as no relation leads to an abstract table
that disappears.
-/

namespace SchemaDesign.Design

variable {design : Design} {ids : IdSupply} {lineage : Lineage}

/-- The tables that disappear although relations may lead to them. -/
def lostIds (design : Design) : List TableId :=
  match design.inheritance with
  | .concreteTable => design.abstractIds
  | _ => []

theorem maps_mapInheritance (hlineage : Lineage.of design = .ok lineage)
    (hsettled : design.Settled []) (hfresh : ids.FreshFor design) :
    design.Maps ids design.lostIds (design.mapInheritance ids lineage) := by
  unfold lostIds mapInheritance
  cases design.inheritance with
  | singleTable => exact maps_mergeHierarchies hlineage hsettled hfresh
  | classTable => exact maps_linkClasses hsettled hfresh
  | concreteTable => exact maps_flattenHierarchies hlineage hsettled hfresh

theorem normalize_of_lineage (hlineage : Lineage.of design = .ok lineage) (ids : IdSupply) :
    design.normalize ids = .ok
      (((design.mapInheritance ids.left lineage).dropInheritance).expandJunctions ids.right) := by
  rw [normalize_eq, hlineage]
  rfl

theorem exists_lineage_of_normalize {normal : Design}
    (hnormal : design.normalize ids = .ok normal) :
    ∃ lineage, Lineage.of design = .ok lineage ∧
      ((design.mapInheritance ids.left lineage).dropInheritance).expandJunctions ids.right =
        normal := by
  rw [normalize_eq] at hnormal
  obtain ⟨lineage, hlineage, hsteps⟩ := exists_of_bind_eq_ok hnormal
  exact ⟨lineage, hlineage, Except.ok.inj hsteps⟩

theorem mem_lostIds_iff (design : Design) (id : TableId) :
    id ∈ design.lostIds ↔ design.inheritance = .concreteTable ∧
      ∃ table ∈ design.tables, table.isAbstract ∧ table.id = id := by
  unfold lostIds
  cases design.inheritance with
  | singleTable => simp
  | classTable => simp
  | concreteTable => simp [mem_abstractIds_iff]

theorem not_hasTable_expandJunctions {id : TableId} (hgone : ¬design.hasTable id)
    (hold : ∀ position, ids position ≠ id) : ¬(design.expandJunctions ids).hasTable id := by
  rw [hasTable_iff] at hgone ⊢
  rw [tableIds, expandJunctions_tables, List.map_append, List.mem_append, not_or]
  refine ⟨hgone, ?_⟩
  intro hmem
  rcases List.mem_map.mp hmem with ⟨table, htable, rfl⟩
  rcases List.mem_map.mp htable with ⟨⟨junction, position⟩, _, rfl⟩
  exact hold (3 * position) rfl

theorem Clean.exists_normal (hclean : design.Clean) (htables : design.tableIds.Nodup)
    (hcolumns : design.columnIds.Nodup) (hfresh : ids.FreshFor design) :
    ∃ normal, design.normalize ids = .ok normal ∧ normal.IsPlain ∧
      normal.Settled design.lostIds ∧ ∀ id ∈ design.lostIds, ¬normal.hasTable id := by
  rcases Lineage.exists_of_acyclic hclean.acyclic with ⟨lineage, hlineage⟩
  have hmapped := maps_mapInheritance hlineage (hclean.settled htables hcolumns) hfresh.left
  have hmaps := hmapped.dropInheritance
  have hright := hfresh.right hmaps.tables hmaps.columns
  refine ⟨_, normalize_of_lineage hlineage ids, ?_, ?_, ?_⟩
  · exact (dropInheritance_isPlain _).expandJunctions ids.right
  · exact hmaps.settled.expandJunctions hmaps.gone hright
  · intro id hlost
    apply not_hasTable_expandJunctions (hmaps.gone id hlost)
    intro position hsame
    rcases ((design.mem_lostIds_iff id).mp hlost).2 with ⟨table, hmem, _, rfl⟩
    have hold : ids (2 * position + 1) = table.id := hsame
    exact hfresh.tables (2 * position + 1) (hold ▸ List.mem_map_of_mem hmem)

/-- A clean design can be normalized, and the normal design keeps its ids distinct.  It has issues
only at relations that lead to abstract tables, and these are gone only where columns are copied
down. -/
theorem normalization_of_clean_designs (hissues : design.issues = [])
    (htables : design.tableIds.Nodup) (hcolumns : design.columnIds.Nodup)
    (hfresh : ids.FreshFor design) :
    ∃ normal, design.normalize ids = .ok normal ∧
      normal.tableIds.Nodup ∧ normal.columnIds.Nodup ∧
      (∀ issue ∈ normal.issues, design.inheritance = .concreteTable ∧
        ∃ relation ∈ normal.relations, ∃ missing,
          issue = .danglingRelation relation missing ∧
          ∃ table ∈ design.tables, table.isAbstract ∧ ¬normal.hasTable table.id ∧
            (relation.source.table = table.id ∨ relation.target.table = table.id)) ∧
      (design.inheritance ≠ .concreteTable → normal.issues = []) := by
  have hclean := design.issues_eq_nil_iff.mp hissues
  rcases hclean.exists_normal htables hcolumns hfresh with
    ⟨normal, hnormal, hplain, hsettled, hgone⟩
  have hlostTable : ∀ id ∈ design.lostIds, design.inheritance = .concreteTable ∧
      ∃ table ∈ design.tables, table.isAbstract ∧ ¬normal.hasTable table.id ∧ id = table.id := by
    intro id hlost
    rcases (design.mem_lostIds_iff id).mp hlost with ⟨hkind, table, hmem, habstract, rfl⟩
    exact ⟨hkind, table, hmem, habstract, hgone table.id hlost, rfl⟩
  have hdangling : ∀ issue ∈ normal.issues, design.inheritance = .concreteTable ∧
      ∃ relation ∈ normal.relations, ∃ missing,
        issue = .danglingRelation relation missing ∧
        ∃ table ∈ design.tables, table.isAbstract ∧ ¬normal.hasTable table.id ∧
          (relation.source.table = table.id ∨ relation.target.table = table.id) := by
    intro issue hissue
    rcases hsettled.mem_issues hplain hissue with ⟨relation, hmem, missing, rfl, hlost | hlost⟩
    · rcases hlostTable _ hlost with ⟨hkind, table, htable, habstract, hmissing, hid⟩
      exact ⟨hkind, relation, hmem, missing, rfl, table, htable, habstract, hmissing, .inl hid⟩
    · rcases hlostTable _ hlost with ⟨hkind, table, htable, habstract, hmissing, hid⟩
      exact ⟨hkind, relation, hmem, missing, rfl, table, htable, habstract, hmissing, .inr hid⟩
  refine ⟨normal, hnormal, hsettled.tableIds_nodup, hsettled.columnIds_nodup, hdangling, ?_⟩
  intro hkind
  rw [List.eq_nil_iff_forall_not_mem]
  intro issue hissue
  exact hkind (hdangling issue hissue).1

/-- Dogs are animals, have owners, and stand beside a relation to an abstract table. -/
def pets : Design where
  tables :=
    [(Table.create "animal" "Animal").asAbstract, .create "dog" "Dog", .create "owner" "Owner"]
  columns :=
    [ (Column.create "animal.id" "animal" "id" "INT").primaryKey,
      (Column.create "animal.vet" "animal" "vet_id" "INT").foreignKey,
      (Column.create "dog.id" "dog" "id" "INT").primaryKey,
      (Column.create "owner.id" "owner" "id" "INT").primaryKey ]
  relations :=
    [ .inherits "dog" "animal",
      .between .manyToMany "dog" "dog.id" "owner" "owner.id",
      .between .oneToMany "owner" "owner.id" "animal" "animal.vet" ]
  inheritance := .concreteTable

def hashes : IdSupply :=
  fun position => String.ofList (List.replicate (position + 1) '#')

theorem head?_hashes (position : Nat) : (hashes position).toList.head? = some '#' := by
  simp [hashes, List.replicate_succ]

theorem hashes_unusedIn (htables : ∀ id ∈ design.mentionedTables, id.toList.head? ≠ some '#')
    (hcolumns : ∀ id ∈ design.mentionedColumns, id.toList.head? ≠ some '#') :
    hashes.UnusedIn design where
  injective := by
    intro m n hsame
    have hlists := String.ofList_injective hsame
    have hlengths := congrArg List.length hlists
    simpa using hlengths
  tables := fun position hmem => htables _ hmem (head?_hashes position)
  columns := fun position hmem => hcolumns _ hmem (head?_hashes position)

theorem hashes_freshFor_pets : hashes.FreshFor pets :=
  (hashes_unusedIn (by decide) (by decide)).freshFor

theorem normalization_of_pets :
    ∃ normal, pets.normalize hashes = .ok normal ∧
      normal.tableIds.Nodup ∧ normal.columnIds.Nodup ∧
      ∀ issue ∈ normal.issues, ∃ relation ∈ normal.relations, ∃ missing,
        issue = .danglingRelation relation missing ∧
          (relation.source.table = "animal" ∨ relation.target.table = "animal") := by
  have hissues : pets.issues = [] := rfl
  rcases normalization_of_clean_designs hissues (by decide) (by decide) hashes_freshFor_pets with
    ⟨normal, hnormal, htables, hcolumns, hdangling, _⟩
  refine ⟨normal, hnormal, htables, hcolumns, ?_⟩
  intro issue hissue
  rcases (hdangling issue hissue).2 with
    ⟨relation, hmem, missing, hsame, table, htable, habstract, _, hend⟩
  have honly : ∀ table ∈ pets.tables, table.isAbstract → table.id = "animal" := by
    decide
  rw [honly table htable habstract] at hend
  exact ⟨relation, hmem, missing, hsame, hend⟩

end SchemaDesign.Design
