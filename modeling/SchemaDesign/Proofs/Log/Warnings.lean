import SchemaDesign.Log.Report
import SchemaDesign.Proofs.Mapping.LinkedClasses
import SchemaDesign.Proofs.Mapping.Normal

/-!
# Warnings of a normalization

Normalization goes on where a design has a gap: a parent that is no table, a root that has no key
for the tables below it, a many-to-many relation with an end that is not found.  None of these gaps
is silent.  Each of them can be seen in the design and in what has become of it, and the warnings of
the report are these gaps, one by one and in the order of the steps.
-/

namespace SchemaDesign

/-! ### Events for the elements of a list -/

/-- The events follow the order of the list, one for each element that is a cause and none for the
others. -/
inductive OneForEach {α : Type} (cause : α → Prop) (tells : α → Event → Prop) :
    List α → List Event → Prop
  | nil : OneForEach cause tells [] []
  | told {x : α} {event : Event} {list : List α} {events : List Event} : cause x → tells x event →
      OneForEach cause tells list events → OneForEach cause tells (x :: list) (event :: events)
  | passed {x : α} {list : List α} {events : List Event} : ¬cause x →
      OneForEach cause tells list events → OneForEach cause tells (x :: list) events

/-- The warnings of a report, in their order. -/
def warnings (report : List Event) : List Event :=
  report.filter (·.level = .warning)

theorem warnings_append (report others : List Event) :
    warnings (report ++ others) = warnings report ++ warnings others :=
  List.filter_append ..

section Lists

variable {α : Type} {cause : α → Prop} {tells : α → Event → Prop} {event? : α → Option Event}
  {list : List α} {events : List Event}

theorem warnings_filterMap
    (hlevel : ∀ x ∈ list, ∀ event, event? x = some event → event.level = .warning) :
    warnings (list.filterMap event?) = list.filterMap event? := by
  refine List.filter_eq_self.mpr fun event hevent => ?_
  obtain ⟨x, hx, hevent⟩ := List.mem_filterMap.mp hevent
  exact decide_eq_true (hlevel x hx event hevent)

theorem oneForEach_filterMap (hcause : ∀ x ∈ list, cause x ↔ (event? x).isSome)
    (htells : ∀ x ∈ list, ∀ event, event? x = some event → tells x event) :
    OneForEach cause tells list (list.filterMap event?) := by
  induction list with
  | nil => exact .nil
  | cons x list ih =>
      rw [List.forall_mem_cons] at hcause htells
      have hrest := ih hcause.2 htells.2
      cases hevent : event? x with
      | none =>
          rw [List.filterMap_cons_none hevent]
          exact .passed (by simp [hcause.1, hevent]) hrest
      | some event =>
          rw [List.filterMap_cons_some hevent]
          exact .told (by simp [hcause.1, hevent]) (htells.1 event hevent) hrest

theorem oneForEach_warnings (hlevel : ∀ x event, tells x event → event.level = .warning)
    (hcause : ∀ x ∈ list, cause x ↔ (event? x).isSome)
    (htells : ∀ x ∈ list, ∀ event, event? x = some event → tells x event) :
    OneForEach cause tells list (warnings (list.filterMap event?)) := by
  rw [warnings_filterMap fun x hx event hevent => hlevel x event (htells x hx event hevent)]
  exact oneForEach_filterMap hcause htells

theorem oneForEach_nil (hnone : ∀ x ∈ list, ¬cause x) : OneForEach cause tells list [] := by
  induction list with
  | nil => exact .nil
  | cons x list ih =>
      rw [List.forall_mem_cons] at hnone
      exact .passed hnone.1 (ih hnone.2)

namespace OneForEach

theorem congr {other : α → Prop} (h : OneForEach cause tells list events)
    (hsame : ∀ x ∈ list, other x ↔ cause x) : OneForEach other tells list events := by
  induction h with
  | nil => exact .nil
  | told hcause htells _ ih =>
      rw [List.forall_mem_cons] at hsame
      exact .told (hsame.1.mpr hcause) htells (ih hsame.2)
  | passed hnone _ ih =>
      rw [List.forall_mem_cons] at hsame
      exact .passed (fun hcause => hnone (hsame.1.mp hcause)) (ih hsame.2)

theorem exists_cause (h : OneForEach cause tells list events) {event : Event}
    (hevent : event ∈ events) : ∃ x ∈ list, cause x ∧ tells x event := by
  induction h with
  | nil => simp at hevent
  | @told x first list events hcause htells _ ih =>
      rcases List.mem_cons.mp hevent with rfl | hevent
      · exact ⟨x, List.mem_cons_self, hcause, htells⟩
      · obtain ⟨y, hy, htold⟩ := ih hevent
        exact ⟨y, List.mem_cons_of_mem x hy, htold⟩
  | @passed x list events _ _ ih =>
      obtain ⟨y, hy, htold⟩ := ih hevent
      exact ⟨y, List.mem_cons_of_mem x hy, htold⟩

theorem exists_event (h : OneForEach cause tells list events) {x : α} (hx : x ∈ list)
    (hcause : cause x) : ∃ event ∈ events, tells x event := by
  induction h with
  | nil => simp at hx
  | @told y first list events _ htells _ ih =>
      rcases List.mem_cons.mp hx with rfl | hx
      · exact ⟨first, List.mem_cons_self, htells⟩
      · obtain ⟨event, hevent, htells⟩ := ih hx
        exact ⟨event, List.mem_cons_of_mem first hevent, htells⟩
  | passed hnone _ ih =>
      rcases List.mem_cons.mp hx with rfl | hx
      · exact absurd hcause hnone
      · exact ih hx

end OneForEach

end Lists

namespace Design

variable {design normal : Design} {ids : IdSupply} {lineage : Lineage}

/-! ### Parents that are no tables -/

/-- The first inheritance relation from the table leads to an id that is no table. -/
def NamesUnknownParent (design : Design) (table : Table) : Prop :=
  ∃ parent, design.parentOf? table.id = some parent ∧ ¬design.hasTable parent

def TellsOfParent (design : Design) (table : Table) (event : Event) : Prop :=
  ∃ parent, design.parentOf? table.id = some parent ∧ event = .unknownParent table.name parent

theorem warning?_handleParent_eq_some_iff (design : Design) (table : Table) (event : Event) :
    (design.handleParent table).warning? = some event ↔
      ∃ parent, design.parentOf? table.id = some parent ∧ ¬design.hasTable parent ∧
        .unknownParent table.name parent = event := by
  unfold handleParent
  cases design.parentOf? table.id with
  | none => simp [Handling.warning?]
  | some parent =>
      by_cases hparent : design.hasTable parent
      · simp [Handling.warning?, hparent]
      · simp [Handling.warning?, hparent]

theorem oneForEach_unknownParentReport (design : Design) :
    OneForEach design.NamesUnknownParent design.TellsOfParent design.tables
      (warnings design.unknownParentReport) := by
  apply oneForEach_warnings
  case hlevel =>
    rintro table event ⟨parent, _, rfl⟩
    rfl
  case hcause =>
    intro table _
    simp only [Option.isSome_iff_exists, warning?_handleParent_eq_some_iff]
    constructor
    · rintro ⟨parent, hparent, hunknown⟩
      exact ⟨_, parent, hparent, hunknown, rfl⟩
    · rintro ⟨_, parent, hparent, hunknown, rfl⟩
      exact ⟨parent, hparent, hunknown⟩
  case htells =>
    intro table _ event hevent
    obtain ⟨parent, hparent, _, rfl⟩ :=
      (design.warning?_handleParent_eq_some_iff table event).mp hevent
    exact ⟨parent, hparent, rfl⟩

/-! ### Roots without a key -/

/-- Among the columns of the table is a unique key, named and typed like the first key of the root,
and a one-to-one relation leads from that key to it. -/
def HasLinkTo (design : Design) (id root : TableId) : Prop :=
  ∃ key column, design.primaryKeyOf? root = some key ∧ column ∈ design.columnsOf id ∧
    column.name = key.name ∧ column.typeText = key.typeText ∧
    column.isPrimaryKey ∧ column.isForeignKey ∧ column.isUnique ∧
    .between .oneToOne root key.id id column.id ∈ design.relations

/-- Each class has its table, but in the normal design the table is left without a link to the root
that it is below. -/
def LeavesUnlinked (design normal : Design) (table : Table) : Prop :=
  design.inheritance = .classTable ∧
    ∃ root, design.Below table.id root ∧ ¬normal.HasLinkTo table.id root

def TellsOfRoot (design : Design) (table : Table) (event : Event) : Prop :=
  ∃ root ∈ design.tables, design.Below table.id root.id ∧
    event = .rootWithoutKey root.name table.name

theorem warning?_handleDescendant_eq_some_iff (table : Table) (position : Nat) (event : Event) :
    (design.handleDescendant ids lineage table position).warning? = some event ↔
      ¬lineage.isRoot table.id ∧ ∃ root, design.table? (lineage.root table.id) = some root ∧
        design.primaryKeyOf? root.id = none ∧ .rootWithoutKey root.name table.name = event := by
  unfold handleDescendant
  by_cases hroot : lineage.isRoot table.id
  · simp [hroot, Handling.warning?]
  · rw [if_neg hroot, and_iff_right hroot]
    cases design.table? (lineage.root table.id) with
    | none => simp [Handling.warning?]
    | some root =>
        cases hkey : design.primaryKeyOf? root.id with
        | none => simp [hkey, Handling.warning?]
        | some key => simp [hkey, Handling.warning?]

/-- No position matters to the warnings. -/
theorem filterMap_warning?_handleDescendants (design : Design) (ids : IdSupply)
    (lineage : Lineage) :
    (design.handleDescendants ids lineage).filterMap Handling.warning? =
      design.tables.filterMap fun table =>
        (design.handleDescendant ids lineage table 0).warning? := by
  rw [handleDescendants, List.filterMap_map]
  conv_rhs => rw [← List.zipIdx_map_fst 0 design.tables, List.filterMap_map]
  refine List.filterMap_congr fun x _ => Option.ext fun event => ?_
  simp only [Function.comp_apply, warning?_handleDescendant_eq_some_iff]

theorem oneForEach_linkReport (hlineage : Lineage.of design = .ok lineage) (drawn : IdSupply) :
    OneForEach
      (fun table => ∃ root, design.Below table.id root ∧ design.primaryKeyOf? root = none)
      design.TellsOfRoot design.tables (warnings (design.linkReport drawn lineage)) := by
  have hcount : ∀ links, warnings [.classesLinked links] = [] := fun _ => rfl
  rw [linkReport, warnings_append, hcount, List.append_nil, filterMap_warning?_handleDescendants]
  apply oneForEach_warnings
  case hlevel =>
    rintro table event ⟨root, _, _, rfl⟩
    rfl
  case hcause =>
    intro table htable
    simp only [lineage.below_iff hlineage, Option.isSome_iff_exists,
      warning?_handleDescendant_eq_some_iff]
    constructor
    · rintro ⟨_, ⟨rfl, hbelow⟩, hkey⟩
      obtain ⟨root, hid, hfound⟩ :=
        exists_table?_eq (lineage.hasTable_root hlineage (hasTable_of_mem htable))
      rw [← hid] at hkey ⊢
      exact ⟨_, hbelow, root, hfound, hkey, rfl⟩
    · rintro ⟨_, hbelow, root, hfound, hkey, rfl⟩
      exact ⟨_, ⟨rfl, hbelow⟩, (mem_of_table? hfound).2 ▸ hkey⟩
  case htells =>
    intro table htable event hevent
    obtain ⟨hbelow, root, hfound, _, rfl⟩ :=
      (warning?_handleDescendant_eq_some_iff table 0 event).mp hevent
    obtain ⟨hmem, hid⟩ := mem_of_table? hfound
    exact ⟨root, hmem, (lineage.below_iff hlineage _ _).mpr ⟨hid.symm, hbelow⟩, rfl⟩

theorem not_isRoot_of_mem_keyLinks {link : KeyLink} (hmem : link ∈ design.keyLinks ids lineage) :
    ¬lineage.isRoot link.column.table := by
  rw [keyLinks_eq] at hmem
  obtain ⟨⟨table, position⟩, _, hlink⟩ := List.mem_filterMap.mp hmem
  obtain ⟨key, hkey, rfl⟩ := Option.map_eq_some_iff.mp hlink
  intro hroot
  have hnone : design.rootKey? lineage table = none := if_pos hroot
  simp [hnone] at hkey

/-- A root gets no column, neither from a link nor from a junction. -/
theorem columnsOf_root_of_links (drawn : IdSupply) {root : TableId} (hroot : lineage.isRoot root)
    (hnew : ∀ position, ids position ≠ root) :
    ((design.linkClasses drawn lineage).dropInheritance.expandJunctions ids).columnsOf root =
      design.columnsOf root := by
  have hnone : (design.keyLinks drawn lineage).filter (·.column.table == root) = [] := by
    rw [List.filter_eq_nil_iff]
    intro link hmem howner
    exact not_isRoot_of_mem_keyLinks hmem (beq_iff_eq.mp howner ▸ hroot)
  rw [columnsOf_expandJunctions_of_not_drawn hnew, columnsOf_dropInheritance_linkClasses, hnone,
    List.map_nil, List.append_nil]

theorem primaryKeyOf?_root_of_links (drawn : IdSupply) {root : TableId}
    (hroot : lineage.isRoot root) (hnew : ∀ position, ids position ≠ root) :
    ((design.linkClasses drawn lineage).dropInheritance.expandJunctions ids).primaryKeyOf? root =
      design.primaryKeyOf? root := by
  rw [primaryKeyOf?_eq_find?_columnsOf, primaryKeyOf?_eq_find?_columnsOf,
    columnsOf_root_of_links drawn hroot hnew]

/-- A link is not touched by what comes after it. -/
theorem mem_expandJunctions_of_mem_keyLinks {drawn : IdSupply} {link : KeyLink}
    (hlink : link ∈ design.keyLinks drawn lineage) (ids : IdSupply) :
    link.column ∈
        ((design.linkClasses drawn lineage).dropInheritance.expandJunctions ids).columns ∧
      link.relation ∈
        ((design.linkClasses drawn lineage).dropInheritance.expandJunctions ids).relations := by
  constructor
  · exact List.mem_append_left _ (List.mem_append_right _ (List.mem_map_of_mem hlink))
  · rw [expandJunctions_relations, relations_dropInheritance_linkClasses]
    refine List.mem_append_left _ (List.mem_filter.mpr ⟨?_, ?_⟩)
    · exact List.mem_append_right _ (List.mem_map_of_mem hlink)
    · simp [junction?_eq, kind_of_mem_keyLinks hlink]

section Mapped

variable (hlineage : Lineage.of design = .ok lineage)
  (hnew : ∀ position, ids position ∉ design.tableIds)

include hlineage hnew

/-- A table below a root ends up with a link exactly when the root has a key from the start. -/
theorem hasLinkTo_iff {table : Table} (htable : table ∈ design.tables) {root : TableId}
    (hbelow : design.Below table.id root) (drawn : IdSupply) :
    ((design.linkClasses drawn lineage).dropInheritance.expandJunctions ids).HasLinkTo
      table.id root ↔ ∃ key, design.primaryKeyOf? root = some key := by
  have hroot : lineage.root table.id = root := (lineage.hasRoot_iff hlineage _ _).mp hbelow.1
  have hself : lineage.isRoot root :=
    (lineage.isRoot_iff_hasRoot hlineage root).mpr ((design.hasRoot_self_iff root).mpr hbelow.1.1)
  have hrootTable : root ∈ design.tableIds := by
    rw [← hasTable_iff, ← hroot]
    exact lineage.hasTable_root hlineage (hasTable_of_mem htable)
  have hother : ∀ position, ids position ≠ root := fun position hsame =>
    hnew position (hsame ▸ hrootTable)
  unfold HasLinkTo
  rw [primaryKeyOf?_root_of_links drawn hself hother]
  constructor
  · rintro ⟨key, _, hkey, _⟩
    exact ⟨key, hkey⟩
  · rintro ⟨key, hkey⟩
    obtain ⟨link, hlink, other, otherKey, position, habove, hcolumn, hrelation⟩ :=
      exists_of_forall₂ (forall₂_keyLinks hlineage drawn)
        ((mem_filter_rootKey?_iff hlineage htable).mpr ⟨root, key, hbelow, hkey⟩)
    obtain rfl : root = other := hbelow.1.unique habove.1.1
    obtain rfl : key = otherKey := Option.some.inj (hkey.symm.trans habove.2)
    obtain ⟨hcolumnMem, hrelationMem⟩ := mem_expandJunctions_of_mem_keyLinks hlink ids
    have howner : link.column.table = table.id := by rw [hcolumn]
    refine ⟨key, link.column, hkey, List.mem_filter.mpr ⟨hcolumnMem, beq_iff_eq.mpr howner⟩,
      by rw [hcolumn], by rw [hcolumn], by rw [hcolumn], by rw [hcolumn], by rw [hcolumn],
      hrelation ▸ hrelationMem⟩

theorem oneForEach_mappingReport (drawn : IdSupply) :
    OneForEach
      (design.LeavesUnlinked
        ((design.mapInheritance drawn lineage).dropInheritance.expandJunctions ids))
      design.TellsOfRoot design.tables (warnings (design.mappingReport drawn lineage)) := by
  unfold mappingReport mapInheritance
  cases hkind : design.inheritance with
  | singleTable =>
      have hnone : warnings (design.mergeReport lineage) = [] := by
        simp only [mergeReport]
        split <;> rfl
      rw [hnone]
      exact oneForEach_nil fun table _ hunlinked => by simp [LeavesUnlinked, hkind] at hunlinked
  | classTable =>
      refine (oneForEach_linkReport hlineage drawn).congr fun table htable => ?_
      unfold LeavesUnlinked
      rw [and_iff_right hkind]
      refine exists_congr fun root => and_congr_right fun hbelow => ?_
      rw [hasLinkTo_iff hlineage hnew htable hbelow, Option.eq_none_iff_forall_ne_some, not_exists]
  | concreteTable =>
      exact oneForEach_nil fun table _ hunlinked => by simp [LeavesUnlinked, hkind] at hunlinked

end Mapped

/-! ### Many-to-many relations that stay -/

def TellsOfEnds (relation : Relation) (event : Event) : Prop :=
  event = .unresolvedEnds relation.source.table relation.target.table

/-- The warning of a relation that stays. -/
def endsWarning? (relation : Relation) : Option Event :=
  if relation.kind = .manyToMany then
    some (.unresolvedEnds relation.source.table relation.target.table)
  else none

theorem warning?_handleRelation (design : Design) (relation : Relation) :
    (design.handleRelation relation).warning? =
      if (design.junction? relation).isNone then endsWarning? relation else none := by
  rw [junction?_eq]
  unfold handleRelation endsWarning?
  by_cases hkind : relation.kind = .manyToMany
  · rw [if_pos hkind, if_pos hkind, if_pos hkind]
    cases design.resolveEnds? relation with
    | none => rfl
    | some junction => rfl
  · simp [hkind, Handling.warning?]

/-- Expansion makes no many-to-many relation, so all that are left were warned of. -/
theorem warnings_junctionReport (design : Design) (ids : IdSupply) :
    warnings design.junctionReport =
      (design.expandJunctions ids).relations.filterMap endsWarning? := by
  have hcount : ∀ junctions, warnings [.junctionsMade junctions] = [] := fun _ => rfl
  have hmade : (design.junctionRelations ids).filterMap endsWarning? = [] := by
    rw [List.filterMap_eq_nil_iff]
    intro relation hmem
    simp [endsWarning?, kind_of_mem_junctionRelations hmem]
  rw [junctionReport, warnings_append, hcount, List.append_nil, expandJunctions_relations,
    List.filterMap_append, hmade, List.append_nil, List.filterMap_filter]
  simp only [warning?_handleRelation]
  refine warnings_filterMap fun relation _ event hevent => ?_
  obtain ⟨_, hevent⟩ := Option.ite_none_right_eq_some.mp hevent
  obtain ⟨_, hevent⟩ := Option.ite_none_right_eq_some.mp hevent
  rw [← Option.some.inj hevent]
  rfl

theorem oneForEach_junctionReport (design : Design) (ids : IdSupply) :
    OneForEach (·.kind = .manyToMany) TellsOfEnds (design.expandJunctions ids).relations
      (warnings design.junctionReport) := by
  rw [warnings_junctionReport design ids]
  apply oneForEach_filterMap
  case hcause =>
    intro relation _
    simp [endsWarning?]
  case htells =>
    intro relation _ event hevent
    obtain ⟨_, hevent⟩ := Option.ite_none_right_eq_some.mp hevent
    exact (Option.some.inj hevent).symm

/-! ### Reports -/

theorem normalizationReport_of_lineage (hlineage : Lineage.of design = .ok lineage)
    (ids : IdSupply) :
    design.normalizationReport ids =
      design.unknownParentReport ++ design.mappingReport ids.left lineage ++
        [.inheritanceDropped ((design.mapInheritance ids.left lineage).relations.length -
          (design.mapInheritance ids.left lineage).dropInheritance.relations.length)] ++
        (design.mapInheritance ids.left lineage).dropInheritance.junctionReport := by
  unfold normalizationReport normalizing
  rw [hlineage]
  rfl

/-- No gap is silent.  The warnings of a normalization are one for each table whose first parent is
no table, then, where each class has its table, one for each table below a root that is left without
a link to it, then one for each many-to-many relation that remains, and no others.  Ids of tables
may repeat. -/
theorem warnings_of_normalizations (hnew : ∀ position, ids position ∉ design.tableIds)
    (hnormal : design.normalize ids = .ok normal) :
    ∃ ofParents ofRoots ofRelations,
      warnings (design.normalizationReport ids) = ofParents ++ ofRoots ++ ofRelations ∧
      OneForEach design.NamesUnknownParent design.TellsOfParent design.tables ofParents ∧
      OneForEach (design.LeavesUnlinked normal) design.TellsOfRoot design.tables ofRoots ∧
      OneForEach (·.kind = .manyToMany) TellsOfEnds normal.relations ofRelations := by
  obtain ⟨lineage, hlineage, rfl⟩ := exists_lineage_of_normalize hnormal
  refine ⟨_, _, _, ?_, design.oneForEach_unknownParentReport,
    oneForEach_mappingReport hlineage (fun position => hnew (2 * position + 1)) ids.left,
    oneForEach_junctionReport _ ids.right⟩
  have hcount : ∀ dropped, warnings [.inheritanceDropped dropped] = [] := fun _ => rfl
  rw [normalizationReport_of_lineage hlineage, warnings_append, warnings_append, warnings_append,
    hcount, List.append_nil]

/-- Ferns are said to be plants, of which nothing is known.  Oaks are trees, and these have no key,
although a relation joins their heights.  Roses are flowers, which have one, and grow on the bark of
oaks, which is not recorded. -/
def grove : Design where
  tables := ["fern", "oak", "tree", "rose", "flower"].map fun name => Table.create name name
  columns :=
    [ Column.create "tree.height" "tree" "height" "INT",
      (Column.create "oak.height" "oak" "height" "INT").primaryKey.foreignKey.unique,
      Column.create "rose.scent" "rose" "scent" "TEXT",
      (Column.create "flower.number" "flower" "number" "INT").primaryKey ]
  relations :=
    [ .inherits "rose" "flower", .inherits "oak" "tree", .inherits "fern" "plant",
      .between .oneToOne "tree" "tree.height" "oak" "oak.height",
      .between .manyToMany "rose" "rose.scent" "oak" "oak.bark" ]
  inheritance := .classTable

theorem warnings_of_grove :
    (∀ position, hashes position ∉ grove.tableIds) ∧
    ∃ normal, grove.normalize hashes = .ok normal ∧
      warnings (grove.normalizationReport hashes) =
        [ .unknownParent "fern" "plant", .rootWithoutKey "tree" "oak",
          .unresolvedEnds "rose" "oak" ] ∧
      ¬normal.HasLinkTo "oak" "tree" ∧ normal.HasLinkTo "rose" "flower" := by
  have hnew : ∀ position, hashes position ∉ grove.tableIds :=
    (hashes_unusedIn (by decide) (by decide)).freshFor.tables
  have hreport : warnings (grove.normalizationReport hashes) =
      [ .unknownParent "fern" "plant", .rootWithoutKey "tree" "oak",
        .unresolvedEnds "rose" "oak" ] := by
    decide +kernel
  have hacyclic : grove.Acyclic := (cycleIssues_eq_nil_iff grove).mp rfl
  obtain ⟨lineage, hlineage⟩ := Lineage.exists_of_acyclic hacyclic
  have hnormal := normalize_of_lineage hlineage hashes
  obtain ⟨ofParents, ofRoots, ofRelations, hwarnings, hparents, hroots, hrelations⟩ :=
    warnings_of_normalizations hnew hnormal
  rw [hreport] at hwarnings
  refine ⟨hnew, _, hnormal, hreport, ?_, ?_⟩
  · have hroot : Event.rootWithoutKey "tree" "oak" ∈ ofRoots := by
      have hmem : Event.rootWithoutKey "tree" "oak" ∈ ofParents ++ ofRoots ++ ofRelations := by
        rw [← hwarnings]
        decide
      rcases List.mem_append.mp hmem with hmem | hmem
      · rcases List.mem_append.mp hmem with hmem | hmem
        · obtain ⟨_, _, _, _, _, hevent⟩ := hparents.exists_cause hmem
          simp at hevent
        · exact hmem
      · obtain ⟨_, _, _, hevent⟩ := hrelations.exists_cause hmem
        simp [TellsOfEnds] at hevent
    obtain ⟨table, htable, ⟨_, root, hbelow, hunlinked⟩, _, _, _, htold⟩ :=
      hroots.exists_cause hroot
    have hids : ∀ table ∈ grove.tables, table.id = table.name := by decide
    obtain ⟨_, hname⟩ := Event.rootWithoutKey.inj htold
    rw [hids table htable, ← hname] at hbelow hunlinked
    have htree : grove.HasRoot "oak" "tree" := ⟨rfl, 1, rfl⟩
    rwa [hbelow.1.unique htree] at hunlinked
  · by_contra hunlinked
    obtain ⟨event, hevent, root, _, hbelow, htold⟩ := hroots.exists_event
      (x := Table.create "rose" "rose") (by simp [grove])
      ⟨rfl, "flower", ⟨⟨rfl, 1, rfl⟩, by decide⟩, hunlinked⟩
    have hmem : event ∈ ofParents ++ ofRoots ++ ofRelations := by simp [hevent]
    rw [← hwarnings, htold] at hmem
    simp [Table.create] at hmem

end Design

end SchemaDesign
