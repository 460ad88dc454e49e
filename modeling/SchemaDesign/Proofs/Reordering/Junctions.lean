import SchemaDesign.Proofs.Mapping.JunctionTable
import SchemaDesign.Proofs.Reordering.Twins

/-!
# Tables of twins

The junctions of twins come from the same relations.  After the expansion, a table that is in both
has the same definition in both: its new columns stand at the same places, and a relation leads to
the same place and from the same key.  The same holds for the tables of a junction, which have two
columns each and a relation to each of them.
-/

namespace SchemaDesign

namespace Design

variable {known : List ColumnId} {design other : Design} {ids ids' : IdSupply}

/-! ### Junctions of twins -/

theorem isSome_junction?_le (design : Design) (r : Relation) :
    (design.junction? r).isSome → r.kind == .manyToMany := by
  intro hsome
  obtain ⟨junction, hjunction⟩ := Option.isSome_iff_exists.mp hsome
  exact beq_iff_eq.mpr (junction?_eq_some hjunction).1

theorem expanded_eq_filter (design : Design) :
    design.relations.filter (fun r => (design.junction? r).isSome) =
      (design.relations.filter (·.kind == .manyToMany)).filter fun r =>
        (design.junction? r).isSome := by
  rw [List.filter_filter]
  apply List.filter_congr
  intro r _
  have hkind := design.isSome_junction?_le r
  generalize (design.junction? r).isSome = expanded at hkind ⊢
  cases expanded with
  | false => rfl
  | true => simp [hkind rfl]

theorem junctions_eq_filterMap (design : Design) :
    design.junctions = (design.relations.filter (·.kind == .manyToMany)).filterMap
      design.junction? := by
  rw [junctions, List.filterMap_filter]
  apply List.filterMap_congr
  intro r _
  split
  case isTrue => rfl
  case isFalse hkind =>
    rw [← Option.not_isSome_iff_eq_none]
    exact fun hsome => hkind (design.isSome_junction?_le r hsome)

theorem aimsAt_keyColumn (kind : RelationKind) (source target owner : TableId)
    (key column id : ColumnId) (referenced : Table) (referencedKey : Column) :
    aimsAt (.between kind source key target column)
      (Junction.keyColumn id owner referenced referencedKey) = (column == id) := rfl

/-- A relation of a junction leads to the column at the same place. -/
theorem aimsAt_junction_eq (junction : Junction) {id id' : TableId} {a b a' b' : ColumnId}
    (hne : a ≠ b) (hne' : a' ≠ b') {x x' : Column}
    (hx : (x, x') ∈ (junction.columns id a b).zip (junction.columns id' a' b')) {r r' : Relation}
    (hr : (r, r') ∈ (junction.relations id a b).zip (junction.relations id' a' b')) :
    aimsAt r x = aimsAt r' x' := by
  simp only [Junction.columns, Junction.relations, List.zip_cons_cons, List.zip_nil_left,
    List.mem_cons, List.not_mem_nil, or_false, Prod.mk.injEq] at hx hr
  rcases hx with ⟨rfl, rfl⟩ | ⟨rfl, rfl⟩
  · rcases hr with ⟨rfl, rfl⟩ | ⟨rfl, rfl⟩
    · simp [aimsAt_keyColumn]
    · simp [aimsAt_keyColumn, hne.symm, hne'.symm]
  · rcases hr with ⟨rfl, rfl⟩ | ⟨rfl, rfl⟩
    · simp [aimsAt_keyColumn, hne, hne']
    · simp [aimsAt_keyColumn]

namespace Twins

variable (h : Twins known design other)

include h

theorem referencedKey?_eq {r r' : Relation} (hsource : r.source = r'.source)
    (hknown : ∀ id, r.source.column = some id → id ∈ known) :
    design.referencedKey? r = other.referencedKey? r' :=
  referencedKey?_congr hsource (h.table? _) fun id hid => h.column? id (hknown id hid)

theorem junction?_eq_of_known {r : Relation}
    (hsource : ∀ id, r.source.column = some id → id ∈ known)
    (htarget : ∀ id, r.target.column = some id → id ∈ known) :
    design.junction? r = other.junction? r := by
  apply junction?_congr
  rintro e (rfl | rfl)
  · exact ⟨h.table? _, fun id hid => h.column? id (hsource id hid)⟩
  · exact ⟨h.table? _, fun id hid => h.column? id (htarget id hid)⟩

theorem junction?_eq {r r' : Relation} (hr : Relation.Twin known r r') :
    design.junction? r = other.junction? r' := by
  cases hr with
  | known hsource htarget => exact h.junction?_eq_of_known hsource htarget
  | new => rfl

/-- New relations are not many-to-many. -/
theorem twin_of_manyToMany {r : Relation}
    (hr : r ∈ design.relations.filter (·.kind == .manyToMany)) : Relation.Twin known r r := by
  obtain ⟨hmem, hkind⟩ := List.mem_filter.mp hr
  have hto : r ∈ design.relationsTo r.target.table :=
    List.mem_filter.mpr ⟨hmem, beq_self_eq_true _⟩
  obtain ⟨r', _, htwin⟩ := exists_of_forall₂ (h.relationsTo _) hto
  cases htwin with
  | known hsource htarget => exact .known hsource htarget
  | new => exact absurd hkind Bool.false_ne_true

theorem junctions_eq : design.junctions = other.junctions := by
  rw [junctions_eq_filterMap, junctions_eq_filterMap, ← h.manyToMany]
  apply List.filterMap_congr
  intro r hr
  exact h.junction?_eq (h.twin_of_manyToMany hr)

theorem known_keys_of_mem_junctions {junction : Junction} (hmem : junction ∈ design.junctions) :
    junction.sourceKey.id ∈ known ∧ junction.targetKey.id ∈ known := by
  rw [junctions_eq_filterMap] at hmem
  obtain ⟨r, hr, hjunction⟩ := List.mem_filterMap.mp hmem
  obtain ⟨_, ⟨_, sourceId, hsource, hsourceKey⟩, _, targetId, htarget, htargetKey⟩ :=
    junction?_eq_some hjunction
  rw [(mem_of_column? hsourceKey).2, (mem_of_column? htargetKey).2]
  cases h.twin_of_manyToMany hr with
  | known hsourceKnown htargetKnown =>
      exact ⟨hsourceKnown sourceId hsource, htargetKnown targetId htarget⟩
  | new => exact absurd (List.mem_filter.mp hr).2 Bool.false_ne_true

/-! ### Definitions of tables -/

theorem aimsAt_eq {id : TableId} {x x' : Column} {r r' : Relation} (hx : x ∈ design.columnsOf id)
    (hx' : x' ∈ other.columnsOf id) (hcolumn : Column.Twin known x x')
    (hr : r ∈ design.relationsTo id) (hr' : r' ∈ other.relationsTo id)
    (hrelation : Relation.Twin known r r') : aimsAt r x = aimsAt r' x' := by
  obtain ⟨hmem, htarget⟩ := List.mem_filter.mp hr
  obtain ⟨hmem', htarget'⟩ := List.mem_filter.mp hr'
  obtain rfl := beq_iff_eq.mp htarget
  cases hcolumn with
  | known hxKnown =>
      cases hrelation with
      | known => rfl
      | @new _ _ new new' _ hnew hnew' =>
          have hne : new ≠ x.id := fun hsame => hnew (hsame ▸ hxKnown)
          have hne' : new' ≠ x.id := fun hsame => hnew' (hsame ▸ hxKnown)
          simp [aimsAt, hne, hne']
  | new _ hxNew hxNew' =>
      cases hrelation with
      | known _ hknown =>
          have hne : ∀ y : Column, y.id ∉ known → aimsAt r y = false := by
            intro y hy
            simp only [aimsAt, beq_eq_false_iff_ne]
            exact fun hsame => hy (hknown y.id hsame)
          rw [hne x hxNew, hne x' hxNew']
      | @new _ _ new new' _ hnew hnew' =>
          have haims := h.aims _ hmem x hx hxNew new rfl hnew
          have haims' := h.aims' _ hmem' x' hx' hxNew' new' rfl hnew'
          simp [aimsAt, haims, haims']

variable (hids : ids.UnusedIn design) (hids' : ids'.UnusedIn other)

include hids hids'

theorem referencedKey?_expandJunctions_eq {r r' : Relation} (hsame : r.source = r'.source)
    (hknown : ∀ id, r.source.column = some id → id ∈ known) (hsource : design.Mentions r.source)
    (hsource' : other.Mentions r'.source) :
    (design.expandJunctions ids).referencedKey? r =
      (other.expandJunctions ids').referencedKey? r' := by
  rw [referencedKey?_expandJunctions hids hsource, referencedKey?_expandJunctions hids' hsource',
    h.referencedKey?_eq hsame hknown]

theorem definedAlike {table : Table} (htable : table.id ∈ design.mentionedTables)
    (htable' : table.id ∈ other.mentionedTables) :
    (design.expandJunctions ids).DefinedAlike table (other.expandJunctions ids') table := by
  have hrelations : List.Forall₂
      (fun r r' => Relation.Twin known r r' ∧ r ∈ design.relationsTo table.id ∧
        r' ∈ other.relationsTo table.id)
      ((design.expandJunctions ids).relationsTo table.id)
      ((other.expandJunctions ids').relationsTo table.id) := by
    rw [relationsTo_expandJunctions hids htable, relationsTo_expandJunctions hids' htable']
    refine forall₂_filter ?_ fun r r' hr => by rw [h.junction?_eq hr.1]
    exact (forall₂_and_mem_zip (h.relationsTo table.id)).imp
      fun r r' hr => ⟨hr.1, List.of_mem_zip hr.2⟩
  constructor
  case name => rfl
  case columns =>
    rw [columnsOf_expandJunctions hids htable, columnsOf_expandJunctions hids' htable']
    exact (h.columnsOf table.id).imp fun _ _ hx => hx.alike
  case references =>
    refine hrelations.imp fun r r' hr => ?_
    exact h.referencedKey?_expandJunctions_eq hids hids' hr.1.source_eq hr.1.source_known
      (mentions_of_end (List.mem_of_mem_filter hr.2.1) (.inl rfl))
      (mentions_of_end (List.mem_of_mem_filter hr.2.2) (.inl rfl))
  case aims =>
    intro x x' hx r r' hr
    rw [columnsOf_expandJunctions hids htable, columnsOf_expandJunctions hids' htable'] at hx
    obtain ⟨htwin, hmem, hmem'⟩ := List.forall₂_zip hrelations hr
    exact h.aimsAt_eq (List.of_mem_zip hx).1 (List.of_mem_zip hx).2
      (List.forall₂_zip (h.columnsOf table.id) hx) hmem hmem' htwin

theorem definedAlike_junctions {x : Junction × Nat} (hx : x ∈ design.junctions.zipIdx) :
    (design.expandJunctions ids).DefinedAlike (x.1.table (ids (3 * x.2)))
      (other.expandJunctions ids') (x.1.table (ids' (3 * x.2))) := by
  have hx' : x ∈ other.junctions.zipIdx := h.junctions_eq ▸ hx
  have hjunction := List.fst_mem_of_mem_zipIdx hx
  obtain ⟨hsource, htarget⟩ := mentions_sides_of_mem_junctions hjunction
  obtain ⟨hsource', htarget'⟩ := mentions_sides_of_mem_junctions (List.fst_mem_of_mem_zipIdx hx')
  obtain ⟨hsourceKnown, htargetKnown⟩ := h.known_keys_of_mem_junctions hjunction
  have hcolumns := columnsOf_junctionTable hids hx
  have hcolumns' := columnsOf_junctionTable hids' hx'
  have hrelations := relationsTo_junctionTable hids hx
  have hrelations' := relationsTo_junctionTable hids' hx'
  constructor
  case name => rfl
  case columns =>
    change List.Forall₂ _ ((design.expandJunctions ids).columnsOf (ids (3 * x.2)))
      ((other.expandJunctions ids').columnsOf (ids' (3 * x.2)))
    rw [hcolumns, hcolumns']
    exact .cons ⟨rfl, rfl, rfl⟩ (.cons ⟨rfl, rfl, rfl⟩ .nil)
  case references =>
    change List.Forall₂ _ ((design.expandJunctions ids).relationsTo (ids (3 * x.2)))
      ((other.expandJunctions ids').relationsTo (ids' (3 * x.2)))
    rw [hrelations, hrelations']
    refine .cons ?_ (.cons ?_ .nil)
    · apply h.referencedKey?_expandJunctions_eq hids hids' rfl _ hsource hsource'
      exact fun id hid => Option.some.inj hid ▸ hsourceKnown
    · apply h.referencedKey?_expandJunctions_eq hids hids' rfl _ htarget htarget'
      exact fun id hid => Option.some.inj hid ▸ htargetKnown
  case aims =>
    intro y y' hy r r' hr
    change (y, y') ∈ ((design.expandJunctions ids).columnsOf (ids (3 * x.2))).zip
      ((other.expandJunctions ids').columnsOf (ids' (3 * x.2))) at hy
    change (r, r') ∈ ((design.expandJunctions ids).relationsTo (ids (3 * x.2))).zip
      ((other.expandJunctions ids').relationsTo (ids' (3 * x.2))) at hr
    rw [hcolumns, hcolumns'] at hy
    rw [hrelations, hrelations'] at hr
    have hne := keyIds_ne hids.injective x.2
    have hne' := keyIds_ne hids'.injective x.2
    exact aimsAt_junction_eq x.1 hne hne' hy hr

end Twins

end Design

end SchemaDesign
