import SchemaDesign.Proofs.Correspondence.Basic
import SchemaDesign.Proofs.Mapping.Cycle

/-!
# Lineages of corresponding designs

A walk compares elements and follows steps, and so walks along corresponding steps from
corresponding elements take corresponding ways.  For the steps to the bases this says that two
corresponding designs have corresponding lineages, or that both have none and name the same tables.
-/

namespace SchemaDesign

/-! ### Walks -/

section Walks

variable {α β : Type} [DecidableEq α] [DecidableEq β] {r : α → β → Prop}

/-- Two walks end alike after corresponding elements. -/
inductive Walk.Corresponds (r : α → β → Prop) : Walk α → Walk β → Prop where
  | ends {path : List α} {path' : List β} {last : α} {last' : β}
      (hpath : List.Forall₂ r path path') (hlast : r last last') :
      Corresponds r (.ends path last) (.ends path' last')
  | repeats {path : List α} {path' : List β} {again : α} {again' : β}
      (hpath : List.Forall₂ r path path') (hagain : r again again') :
      Corresponds r (.repeats path again) (.repeats path' again')

theorem Steps.walk_corresponds {steps : Steps α} {steps' : Steps β} (hr : Relator.BiUnique r)
    (hnext : ∀ x y, r x y → Option.Rel r (steps.next x) (steps'.next y)) {path : List α}
    {current : α} {path' : List β} {current' : β} (hpath : List.Forall₂ r path path')
    (hcurrent : r current current') :
    Walk.Corresponds r (steps.walk path current) (steps'.walk path' current') := by
  have hstep := hnext current current' hcurrent
  have hpassed := List.rel_mem hr hcurrent hpath
  induction path, current using walk_induction steps generalizing path' current' with
  | mem path current hmem =>
      rw [walk_of_mem hmem, walk_of_mem (hpassed.mp hmem)]
      exact .repeats hpath hcurrent
  | none path current hnew hnone =>
      have hnone' : steps'.next current' = none := by
        rw [hnone] at hstep
        cases hstep' : steps'.next current' with
        | none => rfl
        | some y => rw [hstep'] at hstep; cases hstep
      rw [walk_of_none hnew hnone, walk_of_none (fun hmem => hnew (hpassed.mpr hmem)) hnone']
      exact .ends hpath hcurrent
  | leads path current following hnew hleads ih =>
      rw [hleads] at hstep
      cases hstep' : steps'.next current' with
      | none => rw [hstep'] at hstep; cases hstep
      | some following' =>
          rw [hstep'] at hstep
          cases hstep with
          | some hfollowing =>
              rw [walk_of_leads hnew hleads,
                walk_of_leads (fun hmem => hnew (hpassed.mpr hmem)) hstep']
              have hlonger := List.Forall₂.cons hcurrent hpath
              exact ih hlonger hfollowing (hnext _ _ hfollowing)
                (List.rel_mem hr hfollowing hlonger)

end Walks

/-! ### Lineages -/

namespace Correspondence

variable {c : Correspondence} {d d' : Design}

variable (c) in
/-- Corresponding ids have corresponding lines. -/
def Lineages (lineage lineage' : Lineage) : Prop :=
  ∀ a a', c.table a a' → List.Forall₂ c.table (lineage.line a) (lineage'.line a')

theorem Designs.baseOf (h : c.Designs d d') {a a' : TableId} (ha : c.table a a') :
    c.table (d.baseOf a) (d'.baseOf a') := by
  have hparent := h.parentOf? ha
  unfold Design.baseOf
  generalize d.parentOf? a = parent, d'.parentOf? a' = parent' at hparent
  cases hparent with
  | none => exact ha
  | some hb =>
      simp only [h.hasTable_eq ha, h.hasTable_eq hb]
      split
      case isTrue => exact hb
      case isFalse => exact ha

theorem Designs.next_baseSteps (h : c.Designs d d') {a a' : TableId} (ha : c.table a a') :
    Option.Rel c.table (d.baseSteps.next a) (d'.baseSteps.next a') := by
  have hbase := h.baseOf ha
  have hsame : d.baseOf a = a ↔ d'.baseOf a' = a' := Relator.rel_eq c.table_biUnique hbase ha
  rw [d.next_baseSteps, d'.next_baseSteps]
  by_cases hroot : d.baseOf a = a
  · rw [if_pos hroot, if_pos (hsame.mp hroot)]
    exact .none
  · rw [if_neg hroot, if_neg fun hroot' => hroot (hsame.mpr hroot')]
    exact .some hbase

theorem Designs.displayName_eq (h : c.Designs d d') {a a' : TableId} (ha : c.table a a')
    (htable : d.hasTable a) : d.displayName a = d'.displayName a' := by
  have hfound := h.table? ha
  unfold Design.hasTable at htable
  unfold Design.displayName
  generalize d.table? a = found, d'.table? a' = found' at hfound htable
  cases hfound with
  | none => simp at htable
  | some ht => exact ht.name

theorem Designs.lineAlong (h : c.Designs d d') {a a' : TableId} (ha : c.table a a') :
    SameOutcome (List.Forall₂ c.table) (d.lineAlong d.baseSteps a)
      (d'.lineAlong d'.baseSteps a') := by
  have hwalk := Steps.walk_corresponds c.table_biUnique
    (fun _ _ hb => h.next_baseSteps hb) .nil ha
  have hknown : ∀ path again, d.baseSteps.walk [] a = .repeats path again →
      ∀ other ∈ Design.cyclePart path again, d.hasTable other :=
    fun path again => Design.hasTable_of_mem_cyclePart
  unfold Design.lineAlong
  generalize d.baseSteps.walk [] a = walk, d'.baseSteps.walk [] a' = walk' at hwalk hknown
  cases hwalk with
  | ends hpath hlast =>
      exact .ok (List.rel_append (List.rel_reverse hpath) (.cons hlast .nil))
  | @repeats path path' again again' hpath hagain =>
      have hpart : List.Forall₂ c.table (Design.cyclePart path again)
          (Design.cyclePart path' again') := by
        apply List.rel_append _ (.cons hagain .nil)
        apply forall₂_dropWhile (List.rel_reverse hpath)
        intro b b' hb
        simp only [ne_eq, Relator.rel_eq c.table_biUnique hb hagain]
      have hnames := (List.forall₂_and_left _ _).mpr ⟨hknown path again rfl, hpart⟩
      have hsame : (Design.cyclePart path again).map d.displayName =
          (Design.cyclePart path' again').map d'.displayName :=
        map_eq_of_forall₂ hnames fun b b' hb => h.displayName_eq hb.2 hb.1
      simp only [hsame]
      exact .error _

theorem Designs.lineages (h : c.Designs d d') :
    SameOutcome c.Lineages (Lineage.of d) (Lineage.of d') := by
  have hlines := SameOutcome.mapM (s := fun pair pair' : TableId × List TableId => True) h.tables
    (f := fun table => (d.lineAlong d.baseSteps table.id).map fun line => (table.id, line))
    (g := fun table => (d'.lineAlong d'.baseSteps table.id).map fun line => (table.id, line))
    fun t t' ht => (h.lineAlong ht.id).map fun _ _ _ => trivial
  have hboth : SameOutcome (fun _ _ => True) (Lineage.of d) (Lineage.of d') := by
    rw [Lineage.of_eq_map, Lineage.of_eq_map]
    exact hlines.map fun _ _ _ => trivial
  cases hlineage : Lineage.of d with
  | error e =>
      rw [hlineage] at hboth
      generalize Lineage.of d' = outcome at hboth
      cases hboth
      exact .error e
  | ok lineage =>
      cases hlineage' : Lineage.of d' with
      | error e =>
          rw [hlineage, hlineage'] at hboth
          cases hboth
      | ok lineage' =>
          refine .ok ?_
          intro a a' ha
          have hline := h.lineAlong ha
          rw [lineage.lineAlong_line hlineage, lineage'.lineAlong_line hlineage'] at hline
          cases hline with
          | ok hline => exact hline

namespace Lineages

variable {lineage lineage' : Lineage}

theorem base (h : c.Lineages lineage lineage') {a a' : TableId} (ha : c.table a a') :
    c.table (lineage.base a) (lineage'.base a') := by
  have hline := h a a' ha
  unfold Lineage.base
  generalize lineage.line a = line, lineage'.line a' = line' at hline
  cases hline with
  | nil => exact ha
  | cons _ hrest =>
      cases hrest with
      | nil => exact ha
      | cons hb _ => exact hb

theorem root (h : c.Lineages lineage lineage') {a a' : TableId} (ha : c.table a a') :
    c.table (lineage.root a) (lineage'.root a') :=
  forall₂_getLastD (h a a' ha) ha

theorem isRoot_eq (h : c.Lineages lineage lineage') {a a' : TableId} (ha : c.table a a') :
    lineage.isRoot a = lineage'.isRoot a' :=
  table_beq_eq (h.root ha) ha

end Lineages

end Correspondence

end SchemaDesign
