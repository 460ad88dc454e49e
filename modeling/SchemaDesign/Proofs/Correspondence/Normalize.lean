import SchemaDesign.Proofs.Correspondence.Lineage
import SchemaDesign.Proofs.Mapping.ClassTable
import SchemaDesign.Proofs.Mapping.Junction

/-!
# Normal forms of corresponding designs

Every step of normalization takes corresponding designs to corresponding ones.  The records that a
step makes draw their ids at the same positions of the two supplies, so it is enough that the ids at
each position correspond.
-/

namespace SchemaDesign.Correspondence

variable {c : Correspondence} {d d' : Design} {ids ids' : IdSupply} {lineage lineage' : Lineage}

variable (c) in
/-- The ids at the same position correspond, as ids of tables and as ids of columns. -/
structure Supplies (ids ids' : IdSupply) : Prop where
  table : ∀ position, c.table (ids position) (ids' position)
  column : ∀ position, c.column (ids position) (ids' position)

theorem Supplies.left (h : c.Supplies ids ids') : c.Supplies ids.left ids'.left :=
  ⟨fun _ => h.table _, fun _ => h.column _⟩

theorem Supplies.right (h : c.Supplies ids ids') : c.Supplies ids.right ids'.right :=
  ⟨fun _ => h.table _, fun _ => h.column _⟩

/-! ### One table for each hierarchy -/

theorem Lineages.absorbingRoots (hl : c.Lineages lineage lineage') {tables tables' : List Table}
    (h : List.Forall₂ c.Tables tables tables') :
    List.Forall₂ c.table (lineage.absorbingRoots tables) (lineage'.absorbingRoots tables') := by
  apply forall₂_eraseDups c.table_biUnique
  refine List.rel_map ?_ (forall₂_filter h fun t t' ht => by rw [hl.isRoot_eq ht.id])
  exact fun t t' ht => hl.root ht.id

theorem Designs.discriminators (h : c.Designs d d') (hl : c.Lineages lineage lineage')
    (hids : c.Supplies ids ids') :
    List.Forall₂ c.Columns (d.discriminators ids lineage) (d'.discriminators ids' lineage') := by
  refine List.rel_filterMap ?_ (forall₂_zipIdx (hl.absorbingRoots h.tables) 0)
  rintro ⟨root, position⟩ ⟨root', position'⟩ ⟨hroot, hposition⟩
  obtain rfl : position = position' := hposition
  refine rel_option_map (h.table? hroot) fun t t' ht => ?_
  refine ⟨hids.column position, hroot, ?_⟩
  rw [Table.discriminator, ← ht.name]
  rfl

theorem Endpoints.atRoot (hl : c.Lineages lineage lineage') {e e' : Endpoint}
    (h : c.Endpoints e e') : c.Endpoints (e.atRoot lineage) (e'.atRoot lineage') :=
  ⟨hl.root h.table, h.column⟩

theorem Designs.mergeHierarchies (h : c.Designs d d') (hl : c.Lineages lineage lineage')
    (hids : c.Supplies ids ids') :
    c.Designs (d.mergeHierarchies ids lineage) (d'.mergeHierarchies ids' lineage') where
  tables := forall₂_filter h.tables fun _ _ ht => hl.isRoot_eq ht.id
  columns := by
    refine List.rel_append (List.rel_map ?_ h.columns) (h.discriminators hl hids)
    exact fun x x' hx => ⟨hx.id, hl.root hx.table, congrArg (Column.atRoot lineage') hx.rest⟩
  relations := by
    refine List.rel_map ?_ h.relations
    exact fun r r' hr => ⟨hr.source.atRoot hl, hr.target.atRoot hl, hr.kind⟩
  inheritance := h.inheritance

/-! ### One table for each class -/

variable (c) in
structure KeyLinks (link link' : KeyLink) : Prop where
  column : c.Columns link.column link'.column
  relation : c.Relations link.relation link'.relation

theorem relations_between {kind : RelationKind} {a a' b b' : TableId} {x x' y y' : ColumnId}
    (ha : c.table a a') (hx : c.column x x') (hb : c.table b b') (hy : c.column y y') :
    c.Relations (.between kind a x b y) (.between kind a' x' b' y') :=
  ⟨⟨ha, .some hx⟩, ⟨hb, .some hy⟩, rfl⟩

theorem Designs.rootKey? (h : c.Designs d d') (hl : c.Lineages lineage lineage') {t t' : Table}
    (ht : c.Tables t t') :
    Option.Rel c.Columns (d.rootKey? lineage t) (d'.rootKey? lineage' t') := by
  unfold Design.rootKey?
  rw [hl.isRoot_eq ht.id]
  split
  case isTrue => exact .none
  case isFalse =>
    exact rel_option_bind (h.table? (hl.root ht.id)) fun root root' hroot =>
      h.primaryKeyOf? hroot.id

theorem Designs.keyLinks (h : c.Designs d d') (hl : c.Lineages lineage lineage')
    (hids : c.Supplies ids ids') :
    List.Forall₂ c.KeyLinks (d.keyLinks ids lineage) (d'.keyLinks ids' lineage') := by
  rw [Design.keyLinks_eq, Design.keyLinks_eq]
  refine List.rel_filterMap ?_ (forall₂_zipIdx h.tables 0)
  rintro ⟨t, position⟩ ⟨t', position'⟩ ⟨ht, hposition⟩
  obtain rfl : position = position' := hposition
  refine rel_option_map (h.rootKey? hl ht) fun key key' hkey => ?_
  constructor
  · refine ⟨hids.column position, ht.id, ?_⟩
    rw [KeyLink.create, KeyLink.create, hkey.name, hkey.typeText]
    rfl
  · exact relations_between (hl.root ht.id) hkey.id ht.id (hids.column position)

theorem Designs.linkClasses (h : c.Designs d d') (hl : c.Lineages lineage lineage')
    (hids : c.Supplies ids ids') :
    c.Designs (d.linkClasses ids lineage) (d'.linkClasses ids' lineage') where
  tables := h.tables
  columns := List.rel_append h.columns
    (List.rel_map (fun _ _ hlink => hlink.column) (h.keyLinks hl hids))
  relations := List.rel_append h.relations
    (List.rel_map (fun _ _ hlink => hlink.relation) (h.keyLinks hl hids))
  inheritance := h.inheritance

/-! ### Only concrete tables -/

theorem decide_mem_eq {a a' : TableId} {list list' : List TableId} (ha : c.table a a')
    (h : List.Forall₂ c.table list list') : decide (a ∉ list) = decide (a' ∉ list') := by
  simp only [List.rel_mem c.table_biUnique ha h]

theorem Lineages.basesFirst (hl : c.Lineages lineage lineage') {tables tables' : List Table}
    (h : List.Forall₂ c.Tables tables tables') :
    List.Forall₂ c.table (lineage.basesFirst tables) (lineage'.basesFirst tables') := by
  refine List.rel_foldl (P := List.Forall₂ c.table) ?_ .nil h
  intro done done' hdone t t' ht
  apply List.rel_append hdone
  apply List.rel_reverse
  exact forall₂_takeWhile (hl _ _ ht.id) fun a a' ha => decide_mem_eq ha hdone

theorem Lineages.copyDown (hl : c.Lineages lineage lineage') (hids : c.Supplies ids ids')
    {columns columns' : List Column} (h : List.Forall₂ c.Columns columns columns')
    {a a' : TableId} (ha : c.table a a') :
    List.Forall₂ c.Columns (copyDown ids lineage columns a)
      (copyDown ids' lineage' columns' a') := by
  have hbase := hl.base ha
  have hsame : lineage.base a = a ↔ lineage'.base a' = a' :=
    Relator.rel_eq c.table_biUnique hbase ha
  unfold SchemaDesign.copyDown
  dsimp only
  by_cases hroot : lineage.base a = a
  · rwa [if_pos hroot, if_pos (hsame.mp hroot)]
  · rw [if_neg hroot, if_neg fun hroot' => hroot (hsame.mpr hroot')]
    have hinherited := forall₂_filter h fun x x' hx => table_beq_eq hx.table hbase
    rw [h.length_eq]
    refine List.rel_append h (List.rel_map ?_ (forall₂_zipIdx hinherited columns'.length))
    rintro ⟨x, position⟩ ⟨x', position'⟩ ⟨hx, hposition⟩
    obtain rfl : position = position' := hposition
    exact ⟨hids.column position, ha, congrArg (·.copyTo (ids' position) a') hx.rest⟩

theorem Designs.completedColumns (h : c.Designs d d') (hl : c.Lineages lineage lineage')
    (hids : c.Supplies ids ids') :
    List.Forall₂ c.Columns (d.completedColumns ids lineage)
      (d'.completedColumns ids' lineage') := by
  refine List.rel_foldl (P := List.Forall₂ c.Columns) ?_ h.columns (hl.basesFirst h.tables)
  intro columns columns' hcolumns a a' ha
  exact hl.copyDown hids hcolumns ha

theorem Designs.abstractIds (h : c.Designs d d') :
    List.Forall₂ c.table d.abstractIds d'.abstractIds :=
  List.rel_map (fun _ _ ht => ht.id) (forall₂_filter h.tables fun _ _ ht => ht.isAbstract)

theorem Designs.flattenHierarchies (h : c.Designs d d') (hl : c.Lineages lineage lineage')
    (hids : c.Supplies ids ids') :
    c.Designs (d.flattenHierarchies ids lineage) (d'.flattenHierarchies ids' lineage') where
  tables := forall₂_filter h.tables fun _ _ ht => by rw [ht.isAbstract]
  columns := forall₂_filter (h.completedColumns hl hids) fun _ _ hx =>
    decide_mem_eq hx.table h.abstractIds
  relations := h.relations
  inheritance := h.inheritance

/-! ### Junction tables -/

variable (c) in
structure Junctions (j j' : Junction) : Prop where
  source : c.Tables j.source j'.source
  sourceKey : c.Columns j.sourceKey j'.sourceKey
  target : c.Tables j.target j'.target
  targetKey : c.Columns j.targetKey j'.targetKey

theorem Designs.junction? (h : c.Designs d d') {r r' : Relation} (hr : c.Relations r r') :
    Option.Rel c.Junctions (d.junction? r) (d'.junction? r') := by
  rw [Design.junction?_eq, Design.junction?_eq, hr.kind]
  split
  case isFalse => exact .none
  case isTrue =>
    refine rel_option_bind (h.table? hr.source.table) fun s s' hs => ?_
    refine rel_option_bind hr.source.column fun a a' ha => ?_
    refine rel_option_bind (h.column? ha) fun x x' hx => ?_
    refine rel_option_bind (h.table? hr.target.table) fun t t' ht => ?_
    refine rel_option_bind hr.target.column fun b b' hb => ?_
    refine rel_option_bind (h.column? hb) fun y y' hy => ?_
    exact .some ⟨hs, hx, ht, hy⟩

theorem Designs.junctions (h : c.Designs d d') :
    List.Forall₂ (fun x y => c.Junctions x.1 y.1 ∧ x.2 = y.2) d.junctions.zipIdx
      d'.junctions.zipIdx :=
  forall₂_zipIdx (List.rel_filterMap (fun _ _ hr => h.junction? hr) h.relations) 0

theorem columns_keyColumn {x x' : ColumnId} (hx : c.column x x') {a a' : TableId}
    (ha : c.table a a') {t t' : Table} (ht : c.Tables t t') {key key' : Column}
    (hkey : c.Columns key key') :
    c.Columns (Junction.keyColumn x a t key) (Junction.keyColumn x' a' t' key') := by
  refine ⟨hx, ha, ?_⟩
  rw [Junction.keyColumn, Junction.keyColumn, ht.name, hkey.typeText]
  rfl

theorem Junctions.table {j j' : Junction} (h : c.Junctions j j') {a a' : TableId}
    (ha : c.table a a') : c.Tables (j.table a) (j'.table a') := by
  refine ⟨ha, ?_⟩
  rw [Junction.table, Junction.table, h.source.name, h.source.position, h.target.name,
    h.target.position]
  rfl

theorem Designs.expandJunctions (h : c.Designs d d') (hids : c.Supplies ids ids') :
    c.Designs (d.expandJunctions ids) (d'.expandJunctions ids') := by
  have hjunctions := h.junctions
  constructor
  case tables =>
    refine List.rel_append h.tables (List.rel_map ?_ hjunctions)
    rintro ⟨j, position⟩ ⟨j', position'⟩ ⟨hj, hposition⟩
    obtain rfl : position = position' := hposition
    exact hj.table (hids.table _)
  case columns =>
    refine List.rel_append h.columns (List.rel_flatMap hjunctions ?_)
    rintro ⟨j, position⟩ ⟨j', position'⟩ ⟨hj, hposition⟩
    obtain rfl : position = position' := hposition
    exact .cons (columns_keyColumn (hids.column _) (hids.table _) hj.source hj.sourceKey)
      (.cons (columns_keyColumn (hids.column _) (hids.table _) hj.target hj.targetKey) .nil)
  case relations =>
    refine List.rel_append (forall₂_filter h.relations fun r r' hr => ?_)
      (List.rel_flatMap hjunctions ?_)
    · rw [← Option.not_isSome, ← Option.not_isSome, isSome_eq_of_rel (h.junction? hr)]
    · rintro ⟨j, position⟩ ⟨j', position'⟩ ⟨hj, hposition⟩
      obtain rfl : position = position' := hposition
      exact .cons (relations_between hj.source.id hj.sourceKey.id (hids.table _) (hids.column _))
        (.cons (relations_between hj.target.id hj.targetKey.id (hids.table _) (hids.column _))
          .nil)
  case inheritance => exact h.inheritance

/-! ### All steps -/

theorem Designs.mapInheritance (h : c.Designs d d') (hl : c.Lineages lineage lineage')
    (hids : c.Supplies ids ids') :
    c.Designs (d.mapInheritance ids lineage) (d'.mapInheritance ids' lineage') := by
  unfold Design.mapInheritance
  rw [h.inheritance]
  cases d'.inheritance with
  | singleTable => exact h.mergeHierarchies hl hids
  | classTable => exact h.linkClasses hl hids
  | concreteTable => exact h.flattenHierarchies hl hids

theorem Designs.dropInheritance (h : c.Designs d d') :
    c.Designs d.dropInheritance d'.dropInheritance where
  tables := h.tables
  columns := h.columns
  relations := forall₂_filter h.relations fun _ _ hr => by rw [hr.isInheritance_eq]
  inheritance := h.inheritance

/-- Corresponding designs have corresponding normal forms, or neither has one and the same tables
are to blame. -/
theorem Designs.normalize (h : c.Designs d d') (hids : c.Supplies ids ids') :
    SameOutcome c.Designs (d.normalize ids) (d'.normalize ids') := by
  have hlineages := h.lineages
  rw [Design.normalize_eq, Design.normalize_eq]
  generalize Lineage.of d = outcome, Lineage.of d' = outcome' at hlineages
  cases hlineages with
  | error e => exact .error e
  | ok hl =>
      have hmapped := (h.mapInheritance hl hids.left).dropInheritance
      exact .ok (hmapped.expandJunctions hids.right)

end SchemaDesign.Correspondence
