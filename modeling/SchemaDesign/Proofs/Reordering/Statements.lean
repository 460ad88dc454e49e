import SchemaDesign.Proofs.Compilation
import SchemaDesign.Proofs.Mapping.ExpandedRelations
import SchemaDesign.Proofs.Mapping.Kept
import SchemaDesign.Proofs.Reordering.Junctions

/-!
# Statements of reordered designs

The order of tables and columns in a design has no influence on any single statement.  The
statements follow the order of the tables that stay, and those of the junctions come last, in the
order of the relations that they stand for.  Whether a design can be compiled at all depends on its
relations only.
-/

namespace SchemaDesign

open Design

namespace Design

/-- The tables of the design that its mapping keeps. -/
def keptTables (design : Design) (lineage : Lineage) : List Table :=
  design.tables.filter (design.inheritance.keeps lineage)

/-- The many-to-many relations whose tables and columns are found when the mapping is done. -/
def joinedRelations (design : Design) (ids : IdSupply) (lineage : Lineage) : List Relation :=
  design.relations.filter fun relation =>
    (design.mapInheritance ids.left lineage).dropInheritance.JoinsFound
      (design.inheritance.moves lineage relation)

end Design

def Compiled.statement (compiled : Compiled) (table : Table) : Statement :=
  compiled.normal.tableStatement compiled.dialect table

/-- The outcome comes from the normal form of the design.  It has the tables that are kept and, made
for the joined relations one by one, the junctions; the statements are those of its tables. -/
structure Compiled.Lists (compiled : Compiled) (design : Design) (ids : IdSupply)
    (lineage : Lineage) (made : List Table) : Prop where
  lines : Lineage.of design = .ok lineage
  normal : design.normalize ids = .ok compiled.normal
  tables : compiled.normal.tables = design.keptTables lineage ++ made
  junctions : List.Forall₂ (fun relation table =>
    compiled.normal.JoinedBy (design.inheritance.moves lineage relation) table)
      (design.joinedRelations ids lineage) made
  statements : compiled.statements = preambleStatements compiled.dialect ++
    (design.keptTables lineage).map compiled.statement ++ made.map compiled.statement

theorem InheritanceKind.keeps_congr (kind : InheritanceKind) {lineage lineage' : Lineage}
    (hline : lineage'.line = lineage.line) : kind.keeps lineage' = kind.keeps lineage := by
  funext table
  cases kind with
  | singleTable => exact congrFun (Lineage.isRoot_congr hline) table.id
  | classTable => rfl
  | concreteTable => rfl

theorem InheritanceKind.moves_congr (kind : InheritanceKind) {lineage lineage' : Lineage}
    (hline : lineage'.line = lineage.line) : kind.moves lineage' = kind.moves lineage := by
  funext relation
  cases kind with
  | singleTable =>
      simp only [moves, Relation.atRoots, Endpoint.atRoot, Lineage.root_congr hline]
  | classTable => rfl
  | concreteTable => rfl

namespace Design

variable {design other : Design} {ids ids' : IdSupply} {lineage lineage' : Lineage}

/-! ### What becomes of a design -/

/-- The relations that become junctions are the joined ones of the design, moved. -/
theorem map_joinedRelations (design : Design) (ids : IdSupply) (lineage : Lineage) :
    (design.joinedRelations ids lineage).map (design.inheritance.moves lineage) =
      (design.mapInheritance ids.left lineage).dropInheritance.relations.filter fun relation =>
        ((design.mapInheritance ids.left lineage).dropInheritance.junction? relation).isSome := by
  rw [expanded_eq_filter, filter_manyToMany_mapInheritance, List.filter_map, List.filter_filter,
    joinedRelations]
  congr 1
  apply List.filter_congr
  intro relation _
  rw [Bool.eq_iff_iff, decide_eq_true_iff, ← junction?_isSome_iff, Bool.and_eq_true]
  constructor
  · intro hsome
    exact ⟨hsome, design.inheritance.moves_kind lineage relation ▸ isSome_junction?_le _ _ hsome⟩
  · exact And.left

theorem lists_compile (hlineage : Lineage.of design = .ok lineage) (hids : ids.UnusedIn design)
    (dialect : Dialect) {normal : Design} (hnormal : design.normalize ids = .ok normal) :
    Compiled.Lists ⟨dialect, normal.statements dialect, normal⟩ design ids lineage
      ((design.mapInheritance ids.left lineage).dropInheritance.junctionTables ids.right) := by
  have hsame := hnormal
  rw [normalize_of_lineage hlineage] at hsame
  obtain rfl := Except.ok.inj hsame
  have htables : ((design.mapInheritance ids.left lineage).dropInheritance.expandJunctions
      ids.right).tables = design.keptTables lineage ++
        (design.mapInheritance ids.left lineage).dropInheritance.junctionTables ids.right := by
    rw [expandJunctions_tables, tables_mapInheritance, keptTables]
  constructor
  case lines => exact hlineage
  case normal => exact hnormal
  case tables => exact htables
  case junctions =>
    have hjoined := forall₂_joinedBy (unusedIn_mapInheritance hlineage hids)
    rwa [← map_joinedRelations, List.forall₂_map_left_iff] at hjoined
  case statements =>
    rw [Design.statements, htables, List.map_append, ← List.append_assoc]
    rfl

/-! ### Statements of twins -/

theorem Twins.tableStatement_eq {known : List ColumnId} (h : Twins known design other)
    (hids : ids.UnusedIn design) (hids' : ids'.UnusedIn other) (dialect : Dialect) {table : Table}
    (hmem : table ∈ other.tables) :
    (other.expandJunctions ids').tableStatement dialect table =
      (design.expandJunctions ids).tableStatement dialect table := by
  have htable' : other.hasTable table.id := hasTable_of_mem hmem
  have htable : design.hasTable table.id := by rwa [hasTable, h.table?]
  have halike := h.definedAlike hids hids' (mem_mentionedTables_of_hasTable htable)
    (mem_mentionedTables_of_hasTable htable')
  exact (halike.tableStatement_eq dialect).symm

theorem Twins.junctionStatements_eq {known : List ColumnId} (h : Twins known design other)
    (hids : ids.UnusedIn design) (hids' : ids'.UnusedIn other) (dialect : Dialect) :
    (other.junctionTables ids').map ((other.expandJunctions ids').tableStatement dialect) =
      (design.junctionTables ids).map ((design.expandJunctions ids).tableStatement dialect) := by
  rw [junctionTables, junctionTables, List.map_map, List.map_map, ← h.junctions_eq]
  apply List.map_congr_left
  intro x hx
  exact ((h.definedAlike_junctions hids hids' hx).tableStatement_eq dialect).symm

/-! ### Compilation -/

theorem compile_of_no_lineage {options : CompileOptions} {cycle : InheritanceCycle}
    (hlineage : Lineage.of (design.withInheritance options.inheritance) = .error cycle)
    (ids : IdSupply) : design.compile ids options = .error cycle := by
  rw [compile_eq, normalize_eq, hlineage]
  rfl

theorem ReordersTo.withInheritance (h : design.ReordersTo other) (kind : Option InheritanceKind) :
    (design.withInheritance kind).ReordersTo (other.withInheritance kind) where
  tables := h.tables
  columns := h.columns
  relations := h.relations
  inheritance := congrArg kind.getD h.inheritance
  withinRoots := h.withinRoots

theorem unusedIn_withInheritance (hunused : ids.UnusedIn design) (kind : Option InheritanceKind) :
    ids.UnusedIn (design.withInheritance kind) :=
  ⟨hunused.injective, hunused.tables, hunused.columns⟩

/-- What two outcomes have in common: the tables that are kept are the same, each with the same
statement in both, and so are the joined relations, each with the same statement of its junction. -/
structure SameStatements (design other : Design) (ids ids' : IdSupply) (lineage lineage' : Lineage)
    (made made' : List Table) (compiled compiled' : Compiled) : Prop where
  kept : (design.keptTables lineage).Perm (other.keptTables lineage')
  tables : ∀ table ∈ design.keptTables lineage,
    compiled'.statement table = compiled.statement table
  joined : other.joinedRelations ids' lineage' = design.joinedRelations ids lineage
  junctions : made'.map compiled'.statement = made.map compiled.statement

section Lineages

variable (h : design.ReordersTo other) (htables : design.tableIds.Nodup)
  (hcolumns : design.columnIds.Nodup) (hlineage : Lineage.of design = .ok lineage)
  (hlineage' : Lineage.of other = .ok lineage') (hline : lineage'.line = lineage.line)
  (hids : ids.UnusedIn design) (hids' : ids'.UnusedIn other)

include h htables hcolumns hlineage hlineage' hline hids hids'

theorem ReordersTo.twins_normalize :
    Twins design.mentionedColumns (design.mapInheritance ids.left lineage).dropInheritance
      (other.mapInheritance ids'.left lineage').dropInheritance := by
  have hnew' : ∀ position, ids'.left position ∉ design.mentionedColumns := by
    intro position hmem
    exact hids'.columns (2 * position) ((h.mem_mentionedColumns_iff _).mpr hmem)
  exact (h.twins_mapInheritance htables hcolumns hlineage hlineage' hline
    (fun position => hids.columns (2 * position)) hnew').dropInheritance

theorem ReordersTo.joinedRelations_eq :
    other.joinedRelations ids' lineage' = design.joinedRelations ids lineage := by
  have htwins := h.twins_normalize htables hcolumns hlineage hlineage' hline hids hids'
  unfold joinedRelations
  rw [← h.relations, ← h.inheritance, InheritanceKind.moves_congr _ hline]
  apply List.filter_congr
  intro relation hmem
  rw [Bool.eq_iff_iff, decide_eq_true_iff, decide_eq_true_iff]
  by_cases hkind : relation.kind = .manyToMany
  · have hmoved : design.inheritance.moves lineage relation ∈
        (design.mapInheritance ids.left lineage).dropInheritance.relations.filter
          (·.kind == .manyToMany) := by
      rw [filter_manyToMany_mapInheritance]
      exact List.mem_map_of_mem (List.mem_filter.mpr ⟨hmem, beq_iff_eq.mpr hkind⟩)
    rw [← junction?_isSome_iff, ← junction?_isSome_iff,
      htwins.junction?_eq (htwins.twin_of_manyToMany hmoved)]
  · have hother : ∀ mapped : Design,
        ¬mapped.JoinsFound (design.inheritance.moves lineage relation) := by
      intro mapped hjoins
      exact hkind (InheritanceKind.moves_kind _ _ _ ▸ hjoins.1)
    exact iff_of_false (hother _) (hother _)

theorem ReordersTo.sameStatements (dialect : Dialect) {normal normal' : Design}
    (hnormal : design.normalize ids = .ok normal) (hnormal' : other.normalize ids' = .ok normal') :
    SameStatements design other ids ids' lineage lineage'
      ((design.mapInheritance ids.left lineage).dropInheritance.junctionTables ids.right)
      ((other.mapInheritance ids'.left lineage').dropInheritance.junctionTables ids'.right)
      ⟨dialect, normal.statements dialect, normal⟩
      ⟨dialect, normal'.statements dialect, normal'⟩ := by
  rw [normalize_of_lineage hlineage] at hnormal
  rw [normalize_of_lineage hlineage'] at hnormal'
  obtain rfl := Except.ok.inj hnormal
  obtain rfl := Except.ok.inj hnormal'
  have htwins := h.twins_normalize htables hcolumns hlineage hlineage' hline hids hids'
  have hright := unusedIn_mapInheritance hlineage hids
  have hright' := unusedIn_mapInheritance hlineage' hids'
  have hkept : (design.keptTables lineage).Perm (other.keptTables lineage') := by
    rw [keptTables, keptTables, ← h.inheritance, InheritanceKind.keeps_congr _ hline]
    exact h.tables.filter _
  constructor
  case kept => exact hkept
  case tables =>
    intro table hmem
    apply htwins.tableStatement_eq hright hright' dialect
    rw [tables_mapInheritance]
    exact hkept.mem_iff.mp hmem
  case joined => exact h.joinedRelations_eq htables hcolumns hlineage hlineage' hline hids hids'
  case junctions => exact htwins.junctionStatements_eq hright hright' dialect

end Lineages

/-- Whatever the order of its tables and columns is, a design compiles or does not, and the outcome
has the same statement for each table that is kept and for each junction, as long as columns of one
hierarchy keep their order. -/
theorem statements_of_reordered_designs (options : CompileOptions) (h : design.ReordersTo other)
    (htables : design.tableIds.Nodup) (hcolumns : design.columnIds.Nodup)
    (hids : ids.UnusedIn design) (hids' : ids'.UnusedIn other) :
    (∃ cycle cycle', design.compile ids options = .error cycle ∧
      other.compile ids' options = .error cycle') ∨
    ∃ compiled compiled' lineage lineage' made made',
      design.compile ids options = .ok compiled ∧ other.compile ids' options = .ok compiled' ∧
      compiled.dialect = options.dialect ∧ compiled'.dialect = options.dialect ∧
      compiled.Lists (design.withInheritance options.inheritance) ids lineage made ∧
      compiled'.Lists (other.withInheritance options.inheritance) ids' lineage' made' ∧
      SameStatements (design.withInheritance options.inheritance)
        (other.withInheritance options.inheritance) ids ids' lineage lineage' made made'
        compiled compiled' := by
  have hkind := h.withInheritance options.inheritance
  have hbase := hkind.baseOf_eq htables
  cases hlineage : Lineage.of (design.withInheritance options.inheritance) with
  | error cycle =>
      left
      cases hlineage' : Lineage.of (other.withInheritance options.inheritance) with
      | error cycle' =>
          exact ⟨cycle, cycle', compile_of_no_lineage hlineage ids,
            compile_of_no_lineage hlineage' ids'⟩
      | ok lineage' =>
          obtain ⟨lineage, hfound, _⟩ :=
            Lineage.exists_of_same_bases (fun id => (hbase id).symm) hlineage'
          rw [hlineage] at hfound
          cases hfound
  | ok lineage =>
      right
      obtain ⟨lineage', hlineage', hline⟩ := Lineage.exists_of_same_bases hbase hlineage
      have hunused := unusedIn_withInheritance hids options.inheritance
      have hunused' := unusedIn_withInheritance hids' options.inheritance
      have hnormal := normalize_of_lineage hlineage ids
      have hnormal' := normalize_of_lineage hlineage' ids'
      exact ⟨_, _, lineage, lineage', _, _, compile_of_normal options hnormal,
        compile_of_normal options hnormal', rfl, rfl,
        lists_compile hlineage hunused options.dialect hnormal,
        lists_compile hlineage' hunused' options.dialect hnormal',
        hkind.sameStatements htables hcolumns hlineage hlineage' hline hunused hunused'
          options.dialect hnormal hnormal'⟩

/-- The same records as in `pets`, with the owner and its column first. -/
def regroupedPets : Design :=
  { pets with
    tables := pets.tables.reverse
    columns := pets.columns.drop 3 ++ pets.columns.take 3 }

theorem pets_reordersTo_regroupedPets : pets.ReordersTo regroupedPets where
  tables := (List.reverse_perm _).symm
  columns := by decide
  relations := rfl
  inheritance := rfl
  withinRoots := by
    intro lineage hlineage root
    have hanimal : lineage.root "animal" = "animal" :=
      lineage.root_of_base_eq hlineage (by decide)
    have howner : lineage.root "owner" = "owner" := lineage.root_of_base_eq hlineage (by decide)
    have hdog : lineage.root "dog" = "animal" :=
      (lineage.root_of_base_ne hlineage (by decide)).trans hanimal
    have htake : ∀ column ∈ pets.columns.take 3, lineage.root column.table = "animal" := by
      simp [pets, Column.create, Column.primaryKey, Column.foreignKey, hanimal, hdog]
    have hdrop : ∀ column ∈ pets.columns.drop 3, lineage.root column.table = "owner" := by
      simp [pets, Column.create, Column.primaryKey, howner]
    rw [← List.take_append_drop 3 pets.columns]
    unfold regroupedPets
    rw [List.filter_append, List.filter_append]
    have hnone : ∀ (columns : List Column) (owner : TableId), owner ≠ root →
        (∀ column ∈ columns, lineage.root column.table = owner) →
        columns.filter (fun column => lineage.root column.table == root) = [] := by
      intro columns owner hne howner
      rw [List.filter_eq_nil_iff]
      intro column hmem
      rw [howner column hmem, beq_iff_eq]
      exact hne
    by_cases hroot : "owner" = root
    · have hne : "animal" ≠ root := fun hsame => absurd (hsame.trans hroot.symm) (by decide)
      rw [hnone _ _ hne htake, List.nil_append, List.append_nil]
    · rw [hnone _ _ hroot hdrop, List.nil_append, List.append_nil]

/-- The table of the owner comes first in one order and last in the other, and the junction stays
behind all of them. -/
theorem statements_of_regrouped_pets :
    pets.ReordersTo regroupedPets ∧ pets.tableIds.Nodup ∧ pets.columnIds.Nodup ∧
      hashes.UnusedIn pets ∧ hashes.UnusedIn regroupedPets ∧
      ∃ compiled compiled' lineage lineage' made made',
        pets.compile hashes ⟨.postgres, none⟩ = .ok compiled ∧
        regroupedPets.compile hashes ⟨.postgres, none⟩ = .ok compiled' ∧
        compiled.Lists pets hashes lineage made ∧
        compiled'.Lists regroupedPets hashes lineage' made' ∧
        SameStatements pets regroupedPets hashes hashes lineage lineage' made made'
          compiled compiled' := by
  have hids : hashes.UnusedIn pets := hashes_unusedIn (by decide) (by decide)
  have hids' : hashes.UnusedIn regroupedPets := hashes_unusedIn (by decide) (by decide)
  refine ⟨pets_reordersTo_regroupedPets, by decide, by decide, hids, hids', ?_⟩
  have hclean := pets.issues_eq_nil_iff.mp rfl
  obtain ⟨lineage, hlineage⟩ : ∃ lineage, Lineage.of (pets.withInheritance none) = .ok lineage :=
    Lineage.exists_of_acyclic hclean.acyclic
  have hcompile := compile_of_normal ⟨.postgres, none⟩ (normalize_of_lineage hlineage hashes)
  rcases statements_of_reordered_designs ⟨.postgres, none⟩ pets_reordersTo_regroupedPets
    (by decide) (by decide) hids hids' with
    ⟨cycle, _, hfail, _⟩ |
      ⟨compiled, compiled', lineage, lineage', made, made', hok, hok', _, _, hlists, hlists', hsame⟩
  · rw [hcompile] at hfail
    cases hfail
  · exact ⟨compiled, compiled', lineage, lineage', made, made', hok, hok', hlists, hlists', hsame⟩

end Design

end SchemaDesign
