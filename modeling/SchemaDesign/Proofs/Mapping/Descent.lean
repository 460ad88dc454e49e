import SchemaDesign.Proofs.Mapping.Completion

/-!
# Lines of clean designs

In a clean design a table inherits from its base and from no other table.  So its line lists the
table and all its ancestors, each once; its root is the ancestor that inherits from nothing, and two
tables have the same root when they have an ancestor in common.
-/

open Relation

namespace SchemaDesign

variable {design : Design} {lineage : Lineage}

namespace Design

/-- No inheritance leads away from the id, be it a table or not. -/
def IsTop (design : Design) (id : TableId) : Prop :=
  ∀ parent, ¬design.Inherits id parent

/-- Both ids are those of one table, or of tables below it. -/
def Related (design : Design) (a b : TableId) : Prop :=
  ∃ top, ReflTransGen design.Inherits a top ∧ ReflTransGen design.Inherits b top

theorem hasTable_of_reaches {id ancestor : TableId}
    (hreach : ReflTransGen design.Inherits id ancestor) (htable : design.hasTable ancestor) :
    design.hasTable id := by
  rcases ReflTransGen.cases_head hreach with rfl | ⟨_, hstep, _⟩
  · exact htable
  · exact hstep.child_hasTable

theorem Clean.inherits_iff (hclean : design.Clean) (child parent : TableId) :
    design.Inherits child parent ↔ design.baseOf child = parent ∧ design.baseOf child ≠ child := by
  constructor
  · intro hinherits
    have hbase := baseOf_eq_of_inherits hclean.parents_le_one hinherits
    refine ⟨hbase, ?_⟩
    rw [hbase]
    rintro rfl
    exact hclean.acyclic _ (.single hinherits)
  · rintro ⟨rfl, hne⟩
    exact inherits_of_baseOf_ne hne

theorem Clean.isTop_iff (hclean : design.Clean) (id : TableId) :
    design.IsTop id ↔ design.baseOf id = id := by
  constructor
  · intro htop
    by_contra hne
    exact htop _ (inherits_of_baseOf_ne hne)
  · intro hself parent hinherits
    exact ((hclean.inherits_iff id parent).mp hinherits).2 hself

end Design

namespace Lineage

theorem nodup_line (hlineage : Lineage.of design = .ok lineage) (id : TableId) :
    (lineage.line id).Nodup := by
  induction id using lineage.line_induction hlineage with
  | root id hbase =>
      rw [lineage.line_of_base_eq hlineage hbase]
      exact List.nodup_singleton id
  | step id hbase ih =>
      rw [lineage.line_of_base_ne hlineage hbase, List.nodup_cons]
      exact ⟨lineage.not_mem_line_base hlineage hbase, ih⟩

theorem reaches_root (hlineage : Lineage.of design = .ok lineage) (id : TableId) :
    ReflTransGen design.Inherits id (lineage.root id) := by
  induction id using lineage.line_induction hlineage with
  | root id hbase => rw [lineage.root_of_base_eq hlineage hbase]
  | step id hbase ih =>
      rw [lineage.root_of_base_ne hlineage hbase]
      exact ih.head (Design.inherits_of_baseOf_ne hbase)

section Clean

variable (hclean : design.Clean) (hlineage : Lineage.of design = .ok lineage)

include hclean hlineage

theorem mem_line_iff (id member : TableId) :
    member ∈ lineage.line id ↔ ReflTransGen design.Inherits id member := by
  induction id using lineage.line_induction hlineage with
  | root id hbase =>
      rw [lineage.line_of_base_eq hlineage hbase, List.mem_singleton]
      constructor
      · rintro rfl
        exact .refl
      · intro hreach
        rcases ReflTransGen.cases_head hreach with hsame | ⟨_, hstep, _⟩
        · exact hsame.symm
        · exact absurd hstep ((hclean.isTop_iff id).mpr hbase _)
  | step id hbase ih =>
      rw [lineage.line_of_base_ne hlineage hbase, List.mem_cons, ih]
      constructor
      · rintro (rfl | hreach)
        · exact .refl
        · exact hreach.head (Design.inherits_of_baseOf_ne hbase)
      · intro hreach
        rcases ReflTransGen.cases_head hreach with hsame | ⟨parent, hstep, hrest⟩
        · exact .inl hsame.symm
        · rw [((hclean.inherits_iff id parent).mp hstep).1]
          exact .inr hrest

theorem root_eq_of_reaches {id ancestor : TableId}
    (hreach : ReflTransGen design.Inherits id ancestor) :
    lineage.root id = lineage.root ancestor := by
  induction hreach using ReflTransGen.head_induction_on with
  | refl => rfl
  | head hstep _ ih =>
      obtain ⟨hbase, hne⟩ := (hclean.inherits_iff _ _).mp hstep
      rw [lineage.root_of_base_ne hlineage hne, hbase, ih]

theorem isTop_root (id : TableId) : design.IsTop (lineage.root id) :=
  (hclean.isTop_iff _).mpr (lineage.baseOf_root hlineage id)

theorem isRoot_iff (id : TableId) : lineage.isRoot id ↔ design.IsTop id := by
  rw [isRoot, beq_iff_eq]
  constructor
  · intro hself
    rw [← hself]
    exact isTop_root hclean hlineage id
  · intro htop
    exact lineage.root_of_base_eq hlineage ((hclean.isTop_iff id).mp htop)

theorem root_eq_iff (id root : TableId) :
    lineage.root id = root ↔ ReflTransGen design.Inherits id root ∧ design.IsTop root := by
  constructor
  · rintro rfl
    exact ⟨lineage.reaches_root hlineage id, isTop_root hclean hlineage id⟩
  · rintro ⟨hreach, htop⟩
    rw [root_eq_of_reaches hclean hlineage hreach]
    exact lineage.root_of_base_eq hlineage ((hclean.isTop_iff root).mp htop)

theorem root_eq_root_iff (a b : TableId) :
    lineage.root a = lineage.root b ↔ design.Related a b := by
  constructor
  · intro hsame
    exact ⟨lineage.root a, lineage.reaches_root hlineage a,
      hsame ▸ lineage.reaches_root hlineage b⟩
  · rintro ⟨top, ha, hb⟩
    rw [root_eq_of_reaches hclean hlineage ha, root_eq_of_reaches hclean hlineage hb]

/-- A table that is not a root descends from its root. -/
theorem descends_iff {root : TableId} (htop : design.IsTop root) (id : TableId) :
    design.Descends id root ↔ lineage.root id = root ∧ ¬lineage.isRoot id := by
  rw [root_eq_iff hclean hlineage, isRoot_iff hclean hlineage]
  constructor
  · intro hdescends
    obtain ⟨parent, hstep, _⟩ := TransGen.head'_iff.mp hdescends
    exact ⟨⟨hdescends.to_reflTransGen, htop⟩, fun hself => hself parent hstep⟩
  · rintro ⟨⟨hreach, _⟩, hbelow⟩
    rcases reflTransGen_iff_eq_or_transGen.mp hreach with hsame | hdescends
    · exact absurd (hsame ▸ htop) hbelow
    · exact hdescends

end Clean

end Lineage

end SchemaDesign
