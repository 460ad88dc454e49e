import SchemaDesign.Proofs.Mapping.Root
import SchemaDesign.Proofs.Reordering.Basic

/-!
# Roots that are known already

The lines of two tables share their end as soon as they meet.  So roots can be found for one table
after the other, where each walk stops at an id whose root is known and then notes that root for all
ids on its way.  What is noted is sound at every moment: the walk of a table can only meet a known
id if it comes to rest, and so a cycle is found at the same table and told in the same way as
without the notes.

Lineages do not depend on the order of the tables, because the bases do not.
-/

open Relation

namespace SchemaDesign

namespace Steps

variable {α : Type} [DecidableEq α] {steps : Steps α} {known path way : List α} {x y : α}

/-- The same steps, but none from an element that is known. -/
def stoppingAt (steps : Steps α) (known : List α) : Steps α where
  next x := if x ∈ known then none else steps.next x
  support := steps.support
  mem_support := by
    intro x y h
    split at h
    case isTrue => simp at h
    case isFalse => exact steps.mem_support h

theorem leads_stoppingAt_iff :
    (steps.stoppingAt known).Leads x y ↔ x ∉ known ∧ steps.Leads x y := by
  unfold Leads stoppingAt
  by_cases hx : x ∈ known <;> simp [hx]

theorem known_or_none_of_next_stoppingAt (h : (steps.stoppingAt known).next x = none) :
    x ∈ known ∨ steps.next x = none := by
  unfold stoppingAt at h
  by_cases hx : x ∈ known
  · exact .inl hx
  · exact .inr (by simpa [hx] using h)

/-- A walk that stops at known elements and still repeats has met none of them. -/
theorem walk_eq_of_stoppingAt_repeats {again : α}
    (h : (steps.stoppingAt known).walk path x = .repeats way again) :
    steps.walk path x = .repeats way again := by
  induction path, x using walk_induction (steps.stoppingAt known) with
  | mem path x hmem => rwa [walk_of_mem hmem] at h ⊢
  | none path x hnew hnone =>
      rw [walk_of_none hnew hnone] at h
      exact absurd h (by simp)
  | leads path x following hnew hleads ih =>
      rw [walk_of_leads hnew hleads] at h
      rw [walk_of_leads hnew (leads_stoppingAt_iff.mp hleads).2]
      exact ih h

/-- Where a walk that stops at known elements ends, and that all it has passed leads there. -/
theorem walk_stoppingAt_ends {last : α}
    (h : (steps.stoppingAt known).walk path x = .ends way last) :
    (last ∈ known ∨ steps.next last = none) ∧ path ⊆ way ∧ x ∈ last :: way ∧
      ReflTransGen steps.Leads x last ∧
      ∀ z ∈ last :: way, z ∉ path → ReflTransGen steps.Leads z last := by
  induction path, x using walk_induction (steps.stoppingAt known) with
  | mem path x hmem =>
      rw [walk_of_mem hmem] at h
      exact absurd h (by simp)
  | none path x hnew hnone =>
      rw [walk_of_none hnew hnone] at h
      obtain ⟨rfl, rfl⟩ := Walk.ends.inj h
      refine ⟨known_or_none_of_next_stoppingAt hnone, List.Subset.refl _, List.mem_cons_self, .refl,
        ?_⟩
      intro z hz hout
      rw [(List.mem_cons.mp hz).resolve_right hout]
  | leads path x following hnew hleads ih =>
      rw [walk_of_leads hnew hleads] at h
      obtain ⟨hlast, hpath, _, hreach, hpassed⟩ := ih h
      have hx : ReflTransGen steps.Leads x last := hreach.head (leads_stoppingAt_iff.mp hleads).2
      refine ⟨hlast, List.subset_of_cons_subset hpath,
        List.mem_cons_of_mem _ (hpath List.mem_cons_self), hx, ?_⟩
      intro z hz hout
      by_cases hsame : z = x
      · rwa [hsame]
      · exact hpassed z hz fun hmem => hout ((List.mem_cons.mp hmem).resolve_left hsame)

end Steps

variable {design other : Design} {lineage : Lineage} {known : List (TableId × TableId)}
  {id last : TableId}

theorem not_mem_keys_of_lookup (h : known.lookup id = none) : id ∉ known.map Prod.fst := by
  intro hmem
  obtain ⟨entry, hentry, rfl⟩ := List.mem_map.mp hmem
  have hne := List.lookup_eq_none_iff.mp h entry hentry
  simp at hne

namespace Design

/-! ### Noting roots -/

/-- Goes from base to base until an id whose root is known or that is its own base, and notes the
root for all ids on the way. -/
def noteRoot (design : Design) (known : List (TableId × TableId)) (id : TableId) :
    Except InheritanceCycle (List (TableId × TableId)) :=
  match (design.baseSteps.stoppingAt (known.map Prod.fst)).walk [] id with
  | .ends path last =>
      .ok ((last :: path).map (fun passed => (passed, (known.lookup last).getD last)) ++ known)
  | .repeats path again => .error ⟨(cyclePart path again).map design.displayName⟩

/-- The roots of all tables, found for one table after the other. -/
def noteRoots (design : Design) : Except InheritanceCycle (List (TableId × TableId)) :=
  design.tables.foldlM (fun known table => design.noteRoot known table.id) []

/-- What is noted are roots. -/
def Knows (design : Design) (known : List (TableId × TableId)) : Prop :=
  ∀ entry ∈ known, design.HasRoot entry.1 entry.2

theorem Knows.hasRoot_of_lookup (hknows : design.Knows known) {root : TableId}
    (h : known.lookup id = some root) : design.HasRoot id root := by
  obtain ⟨before, after, hsplit, _⟩ := List.lookup_eq_some_iff.mp h
  exact hknows (id, root) (by simp [hsplit])

theorem Knows.hasRoot_last (hknows : design.Knows known)
    (hlast : last ∈ known.map Prod.fst ∨ design.baseSteps.next last = none) :
    design.HasRoot last ((known.lookup last).getD last) := by
  cases hlookup : known.lookup last with
  | some root => exact hknows.hasRoot_of_lookup hlookup
  | none =>
      have hnone := hlast.resolve_left (not_mem_keys_of_lookup hlookup)
      exact (design.hasRoot_self_iff last).mpr ((design.next_baseSteps_eq_none_iff last).mp hnone)

theorem HasRoot.exists_line {root : TableId} (h : design.HasRoot id root) :
    ∃ line, design.lineAlong design.baseSteps id = .ok line := by
  have hfinite : (design.baseSteps.walk [] id).isFinite := by
    rw [Steps.walk_isFinite_iff]
    intro x hreach
    exact ⟨List.not_mem_nil, ((HasRoot.of_reaches hreach).mpr h).not_transGen⟩
  unfold lineAlong
  cases hwalk : design.baseSteps.walk [] id with
  | ends path last => exact ⟨_, rfl⟩
  | repeats path again => simp [hwalk, Walk.isFinite] at hfinite

/-- Noting the root of an id fails as the search for its line does.  Otherwise its root is known
afterwards, and nothing is forgotten. -/
theorem sameOutcome_noteRoot (hknows : design.Knows known) (id : TableId) :
    SameOutcome (fun later _ => design.Knows later ∧ known ⊆ later ∧ id ∈ later.map Prod.fst)
      (design.noteRoot known id) (design.lineAlong design.baseSteps id) := by
  unfold noteRoot
  cases hwalk : (design.baseSteps.stoppingAt (known.map Prod.fst)).walk [] id with
  | repeats path again =>
      rw [lineAlong, Steps.walk_eq_of_stoppingAt_repeats hwalk]
      exact .error _
  | ends path last =>
      obtain ⟨hlast, _, hid, hreach, hpassed⟩ := Steps.walk_stoppingAt_ends hwalk
      have hroot := hknows.hasRoot_last hlast
      obtain ⟨line, hline⟩ := ((HasRoot.of_reaches hreach).mp hroot).exists_line
      rw [hline]
      refine .ok ⟨?_, List.subset_append_right _ _, ?_⟩
      · intro entry hentry
        rcases List.mem_append.mp hentry with hentry | hentry
        · obtain ⟨passed, hmem, rfl⟩ := List.mem_map.mp hentry
          exact (HasRoot.of_reaches (hpassed passed hmem List.not_mem_nil)).mp hroot
        · exact hknows entry hentry
      · exact List.mem_map.mpr ⟨(id, _), List.mem_append_left _ (List.mem_map_of_mem hid), rfl⟩

/-- Roots that are noted for one table after the other are those of the lineage, and a cycle is told
in the same way. -/
theorem sameOutcome_noteRoots (design : Design) :
    SameOutcome (fun known lineage => ∀ table ∈ design.tables,
      known.lookup table.id = some (lineage.root table.id)) design.noteRoots
      (Lineage.of design) := by
  have hstep : ∀ known (table : Table), design.Knows known →
      SameOutcome (fun later _ => design.Knows later ∧
          (∀ other : Table, other.id ∈ known.map Prod.fst → other.id ∈ later.map Prod.fst) ∧
          table.id ∈ later.map Prod.fst)
        (design.noteRoot known table.id)
        ((design.lineAlong design.baseSteps table.id).map fun line => (table.id, line)) := by
    intro known table hknows
    refine (design.sameOutcome_noteRoot hknows table.id).map_right ?_
    rintro later _ ⟨hlater, hkept, hid⟩
    exact ⟨hlater, fun other hother => List.map_subset _ hkept hother, hid⟩
  have hnoted : SameOutcome (fun known _ => design.Knows known ∧
      ∀ table ∈ design.tables, table.id ∈ known.map Prod.fst)
      design.noteRoots (Lineage.of design) := by
    rw [Lineage.of_eq_map]
    have hnothing : design.Knows [] := by simp [Knows]
    exact (SameOutcome.foldlM_mapM hstep design.tables hnothing).map_right fun _ _ h =>
      ⟨h.1, h.2.2⟩
  generalize design.noteRoots = noted, hlineage : Lineage.of design = outcome at hnoted
  cases hnoted with
  | error cycle => exact .error cycle
  | @ok known lineage h =>
      obtain ⟨hknows, hids⟩ := h
      refine .ok fun table hmem => ?_
      cases hlookup : known.lookup table.id with
      | none => exact absurd (hids table hmem) (not_mem_keys_of_lookup hlookup)
      | some root =>
          rw [(lineage.hasRoot_iff hlineage table.id root).mp (hknows.hasRoot_of_lookup hlookup)]

/-! ### Lineages -/

theorem baseOf_of_perm (htables : other.tables.Perm design.tables)
    (hrelations : other.relations = design.relations) (id : TableId) :
    other.baseOf id = design.baseOf id := by
  have hfound : other.hasTable = design.hasTable := by
    funext id
    rw [Bool.eq_iff_iff, hasTable_iff, hasTable_iff, tableIds, tableIds, (htables.map _).mem_iff]
  unfold baseOf parentOf?
  rw [hrelations, hfound]

/-- A lineage exists exactly when going from base to base comes to rest from every table, and its
roots are where it does.  A root is its own base, a table has the root of its base, and it is a root
itself exactly when it is its own base.  All this does not depend on the order of the tables, nor on
whether the roots that were found for some tables are used for those that come later. -/
theorem lineages_of_designs (design : Design) :
    ((∃ lineage, Lineage.of design = .ok lineage) ↔
      ∀ table ∈ design.tables, ∃ root, design.HasRoot table.id root) ∧
    (∀ lineage, Lineage.of design = .ok lineage → ∀ table ∈ design.tables,
      lineage.base table.id = design.baseOf table.id ∧
      design.HasRoot table.id (lineage.root table.id) ∧
      lineage.base (lineage.root table.id) = lineage.root table.id ∧
      lineage.root table.id = lineage.root (lineage.base table.id) ∧
      (lineage.isRoot table.id ↔ lineage.base table.id = table.id)) ∧
    (∀ other lineage, other.tables.Perm design.tables → other.relations = design.relations →
      Lineage.of design = .ok lineage → ∃ lineage', Lineage.of other = .ok lineage' ∧
        lineage'.base = lineage.base ∧ lineage'.root = lineage.root ∧
        lineage'.isRoot = lineage.isRoot) ∧
    SameOutcome (fun known lineage => ∀ table ∈ design.tables,
      known.lookup table.id = some (lineage.root table.id)) design.noteRoots
      (Lineage.of design) := by
  refine ⟨Lineage.exists_iff_hasRoot design, ?_, ?_, design.sameOutcome_noteRoots⟩
  · intro lineage hlineage table _
    have hroot := lineage.hasRoot_root hlineage table.id
    refine ⟨lineage.base_eq hlineage table.id, hroot, ?_, ?_, ?_⟩
    · rw [lineage.base_eq hlineage]
      exact hroot.1
    · rw [eq_comm, ← lineage.hasRoot_iff hlineage, lineage.base_eq hlineage]
      exact (design.hasRoot_baseOf_iff _ _).mpr hroot
    · rw [lineage.isRoot_iff_hasRoot hlineage, hasRoot_self_iff, lineage.base_eq hlineage]
  · intro other lineage htables hrelations hlineage
    obtain ⟨lineage', hlineage', hline⟩ :=
      Lineage.exists_of_same_bases (baseOf_of_perm htables hrelations) hlineage
    exact ⟨lineage', hlineage', Lineage.base_congr hline, Lineage.root_congr hline,
      Lineage.isRoot_congr hline⟩

/-- A line of three tables and a second branch, listed from below; one table names itself, and one
names a parent that is no table. -/
def branches : Design where
  tables := ["d", "c", "b", "a", "e"].map fun name => Table.create name name
  columns := []
  relations :=
    [("c", "b"), ("d", "b"), ("b", "a"), ("a", "a"), ("e", "x")].map
      fun (child, parent) => .inherits child parent
  inheritance := .singleTable

theorem lineages_of_branches :
    ∃ lineage lineage' known, Lineage.of branches = .ok lineage ∧
      Lineage.of { branches with tables := branches.tables.reverse } = .ok lineage' ∧
      branches.noteRoots = .ok known ∧
      lineage.root "d" = "a" ∧ lineage'.root "d" = "a" ∧ known.lookup "d" = some "a" ∧
      lineage.isRoot "e" := by
  obtain ⟨hexists, hroots, horder, hnoted⟩ := lineages_of_designs branches
  have hrests : ∀ table ∈ branches.tables, ∃ root, branches.HasRoot table.id root := by
    simp only [branches, List.map_cons, List.map_nil, List.forall_mem_cons]
    exact ⟨⟨"a", rfl, 2, rfl⟩, ⟨"a", rfl, 2, rfl⟩, ⟨"a", rfl, 1, rfl⟩, ⟨"a", rfl, 0, rfl⟩,
      ⟨"e", rfl, 0, rfl⟩, by simp⟩
  obtain ⟨lineage, hlineage⟩ := hexists.mpr hrests
  obtain ⟨lineage', hlineage', _, hroot', _⟩ :=
    horder { branches with tables := branches.tables.reverse } lineage
      (List.reverse_perm _) rfl hlineage
  have hd : Table.create "d" "d" ∈ branches.tables := List.mem_cons_self
  have he : Table.create "e" "e" ∈ branches.tables := by simp [branches]
  have hroot : lineage.root "d" = "a" :=
    (hroots lineage hlineage _ hd).2.1.unique ⟨rfl, 2, rfl⟩
  have hself : lineage.isRoot "e" := by
    obtain ⟨hbase, _, _, _, hisRoot⟩ := hroots lineage hlineage _ he
    exact hisRoot.mpr (hbase.trans rfl)
  rw [hlineage] at hnoted
  generalize hknown : branches.noteRoots = noted at hnoted
  cases hnoted with
  | @ok known _ h =>
      exact ⟨lineage, lineage', known, hlineage, hlineage', rfl, hroot, hroot' ▸ hroot,
        (h _ hd).trans (congrArg some hroot), hself⟩

end Design

end SchemaDesign
