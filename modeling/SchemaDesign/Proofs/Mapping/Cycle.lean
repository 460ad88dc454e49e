import SchemaDesign.Proofs.Mapping.Lineage
import Mathlib.Data.List.TakeWhile

/-!
# Cycles that stop normalization

Normalization fails exactly when the steps to the bases run in a cycle.  The error names the tables
of such a cycle, and as every step is an inheritance between tables, they all stand in one reported
cycle.

The converse needs single parents.  Then every inheritance relation between two different tables is
the step to a base, so a reported cycle of two tables or more is one of the bases too.  A table that
only names itself is reported, but it is its own base and stops nothing.
-/

open Relation

namespace SchemaDesign

/-- Every element of a path is reached from the first one and reaches the last one. -/
theorem transGen_of_mem_isChain {α : Type} {r : α → α → Prop} {first last : α} {between : List α}
    (hchain : (first :: between ++ [last]).IsChain r) :
    ∀ x ∈ first :: between, ReflTransGen r first x ∧ TransGen r x last := by
  induction between generalizing first with
  | nil =>
      intro x hx
      rw [List.mem_singleton.mp hx]
      exact ⟨.refl, .single (List.isChain_cons_cons.mp hchain).1⟩
  | cons second between ih =>
      obtain ⟨hstep, hrest⟩ := List.isChain_cons_cons.mp hchain
      have hsecond := ih hrest second List.mem_cons_self
      intro x hx
      rcases List.mem_cons.mp hx with rfl | hx
      · exact ⟨.refl, .head hstep hsecond.2⟩
      · obtain ⟨hfirst, hlast⟩ := ih hrest x hx
        exact ⟨.head hstep hfirst, hlast⟩

theorem two_le_length_of_mem {α : Type} {list : List α} {x y : α} (hx : x ∈ list) (hy : y ∈ list)
    (hne : x ≠ y) : 2 ≤ list.length := by
  match list with
  | [] => exact absurd hx List.not_mem_nil
  | [z] =>
      rw [List.mem_singleton] at hx hy
      exact absurd (hx.trans hy.symm) hne
  | _ :: _ :: _ => simp

namespace Design

variable {design : Design}

/-! ### Cycles of bases -/

theorem cyclePart_of_walk {steps : Steps TableId} {id again : TableId} {path : List TableId}
    (h : steps.walk [] id = .repeats path again) :
    ∃ between, cyclePart path again = again :: between ++ [again] ∧
      (again :: between).Nodup ∧ (again :: between ++ [again]).IsChain steps.Leads := by
  obtain ⟨hnodup, hmem, hchain⟩ := steps.walk_repeats List.nodup_nil (List.isChain_singleton _) h
  have hforward : (path.reverse ++ [again]).IsChain steps.Leads := by
    rw [← List.reverse_cons, List.isChain_reverse]
    exact hchain
  have hsuffix := List.dropWhile_suffix (l := path.reverse) (· ≠ again)
  obtain ⟨before, hbefore⟩ := hsuffix
  cases hrest : path.reverse.dropWhile (· ≠ again) with
  | nil =>
      have hnone := List.dropWhile_eq_nil_iff.mp hrest again (List.mem_reverse.mpr hmem)
      simp at hnone
  | cons first between =>
      have hfirst : first = again := by
        have hhead := List.head?_dropWhile_not (· ≠ again) path.reverse
        rw [hrest] at hhead
        simpa using hhead
      subst hfirst
      refine ⟨between, by rw [cyclePart, hrest], ?_, ?_⟩
      · rw [← hrest]
        exact (List.nodup_reverse.mpr hnodup).sublist (List.dropWhile_sublist _)
      · rw [← hbefore, hrest, List.append_assoc] at hforward
        exact hforward.right_of_append

theorem hasTable_of_mem_cyclePart {id again : TableId} {path : List TableId}
    (h : design.baseSteps.walk [] id = .repeats path again) :
    ∀ other ∈ cyclePart path again, design.hasTable other := by
  obtain ⟨between, hpart, _, hchain⟩ := cyclePart_of_walk h
  have hearlier : ∀ other ∈ again :: between, design.hasTable other := by
    intro other hother
    have hlast := (transGen_of_mem_isChain hchain other hother).2
    obtain ⟨_, hleads, _⟩ := TransGen.head'_iff.mp hlast
    exact (inherits_of_leads hleads).child_hasTable
  intro other hother
  rw [hpart] at hother
  rcases List.mem_append.mp hother with hother | hother
  · exact hearlier other hother
  · rw [List.mem_singleton.mp hother]
    exact hearlier again List.mem_cons_self

/-- An error tells the cycle of the first walk that repeats. -/
theorem exists_walk_of_error {cycle : InheritanceCycle} (h : Lineage.of design = .error cycle) :
    ∃ before table after path again, design.tables = before ++ table :: after ∧
      (∀ earlier ∈ before, ∃ line, design.lineAlong design.baseSteps earlier.id = .ok line) ∧
      design.baseSteps.walk [] table.id = .repeats path again ∧
      cycle.tables = (cyclePart path again).map design.displayName := by
  rw [Lineage.of_eq_map] at h
  cases hlines : design.tables.mapM (fun table =>
      (design.lineAlong design.baseSteps table.id).map fun line => (table.id, line)) with
  | ok lines =>
      rw [hlines] at h
      exact absurd h (by simp [Except.map])
  | error found =>
      rw [hlines] at h
      obtain rfl : found = cycle := Except.error.inj h
      obtain ⟨before, table, after, htables, hbefore, hfail⟩ := mapM_eq_error_iff.mp hlines
      have hearlier : ∀ earlier ∈ before,
          ∃ line, design.lineAlong design.baseSteps earlier.id = .ok line := by
        intro earlier hmem
        obtain ⟨_, hpair⟩ := hbefore earlier hmem
        obtain ⟨line, hline, _⟩ := exists_of_map_eq_ok hpair
        exact ⟨line, hline⟩
      unfold lineAlong at hfail
      cases hwalk : design.baseSteps.walk [] table.id with
      | ends path root => simp [hwalk, Except.map] at hfail
      | repeats path again =>
          have hsame : ⟨(cyclePart path again).map design.displayName⟩ = found := by
            simpa [hwalk, Except.map] using hfail
          exact ⟨before, table, after, path, again, htables, hearlier, hwalk, by rw [← hsame]⟩

/-- The names in an error are those of different tables, each the base of the one before it, from a
table back to itself. -/
theorem exists_base_cycle_of_error {cycle : InheritanceCycle}
    (h : Lineage.of design = .error cycle) :
    ∃ id between, cycle.tables = (id :: between ++ [id]).map design.displayName ∧
      (id :: between).Nodup ∧ (id :: between ++ [id]).IsChain design.baseSteps.Leads := by
  obtain ⟨_, _, _, path, again, _, _, hwalk, hnames⟩ := exists_walk_of_error h
  obtain ⟨between, hpart, hnodup, hchain⟩ := cyclePart_of_walk hwalk
  exact ⟨again, between, by rw [hnames, hpart], hnodup, hchain⟩

theorem not_transGen_leads_of_lineage {lineage : Lineage}
    (hlineage : Lineage.of design = .ok lineage) (id : TableId) :
    ¬TransGen design.baseSteps.Leads id id := by
  obtain ⟨path, root, hwalk, _⟩ :=
    (design.lineAlong_eq_ok_iff id _).mp (lineage.lineAlong_line hlineage id)
  have hfinite : (design.baseSteps.walk [] id).isFinite := by
    rw [hwalk]
    rfl
  exact ((design.baseSteps.walk_isFinite_iff [] id).mp hfinite id .refl).2

theorem normalize_eq_error_iff (design : Design) (ids : IdSupply) (cycle : InheritanceCycle) :
    design.normalize ids = .error cycle ↔ Lineage.of design = .error cycle := by
  rw [normalize_eq]
  cases Lineage.of design with
  | error found => simp [bind, Except.bind]
  | ok lineage => simp [bind, Except.bind, pure, Except.pure]

/-! ### Reported cycles -/

theorem inheritanceCycle_mem_issues_iff (design : Design) (tables : List Table) :
    .inheritanceCycle tables ∈ design.issues ↔
      ∃ positions ∈ design.cycles,
        positions.filterMap (fun position => design.tables[position]?) = tables := by
  rw [← List.mem_map, ← filterMap_cycle?_issues, List.mem_filterMap]
  constructor
  · exact fun hmem => ⟨_, hmem, rfl⟩
  · rintro ⟨issue, hmem, hcycle⟩
    cases issue with
    | inheritanceCycle found =>
        obtain rfl : found = tables := by simpa [Issue.cycle?] using hcycle
        exact hmem
    | _ => simp [Issue.cycle?] at hcycle

theorem IsPositionOf.getElem?_eq {position : Nat} {id : TableId}
    (h : design.IsPositionOf position id) : design.tables[position]? = design.table? id := by
  rw [table?, List.find?_eq_bind_findIdx?_getElem?, h]
  rfl

/-- A table that descends from itself stands in a reported cycle, together with all tables that
descend from it and from which it descends. -/
theorem exists_reported_cycle {id : TableId} (hself : design.Descends id id) :
    ∃ tables, .inheritanceCycle tables ∈ design.issues ∧
      ∀ other, design.Descends id other → design.Descends other id →
        ∃ table ∈ tables, design.table? other = some table := by
  obtain ⟨position, hposition⟩ := exists_isPositionOf (Descends.hasTable hself).1
  obtain ⟨positions, hmem, hfound⟩ :=
    design.cycles_spec.2.2 position ((transGen_iff hposition hposition).mpr hself)
  have hcomponent := (design.cycles_spec.2.1 positions hmem).1
  refine ⟨_, (design.inheritanceCycle_mem_issues_iff _).mpr ⟨positions, hmem, rfl⟩, ?_⟩
  intro other hdown hup
  obtain ⟨place, hplace⟩ := exists_isPositionOf (Descends.hasTable hup).1
  have hsame : place ∈ positions := by
    rw [hcomponent.mem_iff position hfound place]
    exact ⟨((transGen_iff hposition hplace).mpr hdown).to_reflTransGen,
      ((transGen_iff hplace hposition).mpr hup).to_reflTransGen⟩
  obtain ⟨table, htable, _⟩ := hplace.idAt
  exact ⟨table, List.mem_filterMap.mpr ⟨place, hsame, htable⟩, by
    rw [← hplace.getElem?_eq, htable]⟩

/-- Two tables of a reported cycle are different and descend from each other. -/
theorem exists_descends_of_reported_cycle {tables : List Table}
    (hmem : .inheritanceCycle tables ∈ design.issues) (hlength : 2 ≤ tables.length) :
    ∃ id other, id ≠ other ∧ design.Descends id other ∧ design.Descends other id := by
  obtain ⟨positions, hpositions, rfl⟩ := (design.inheritanceCycle_mem_issues_iff tables).mp hmem
  obtain ⟨hcomponent, hself⟩ := design.cycles_spec.2.1 positions hpositions
  have hnodup : positions.Nodup :=
    (List.nodup_flatten.mp design.cycles_spec.1).1 positions hpositions
  match positions with
  | [] => simp at hlength
  | [_] => exact absurd (hlength.trans (List.length_filterMap_le _ _)) (by simp)
  | a :: b :: others =>
      have hne : a ≠ b := by
        rintro rfl
        exact (List.nodup_cons.mp hnodup).1 List.mem_cons_self
      have hfirst : ∀ c ∈ a :: b :: others, ∃ id, design.IsPositionOf c id := by
        intro c hc
        obtain ⟨_, _, hlast⟩ := TransGen.tail'_iff.mp (hself c hc)
        obtain ⟨_, id, _, _, hid⟩ := (design.edge_parentPositions_iff _ c).mp hlast
        exact ⟨id, hid⟩
      have hb : b ∈ a :: b :: others := List.mem_cons_of_mem _ List.mem_cons_self
      obtain ⟨id, hid⟩ := hfirst a List.mem_cons_self
      obtain ⟨other, hother⟩ := hfirst b hb
      obtain ⟨hab, hba⟩ := (hcomponent.mem_iff a List.mem_cons_self b).mp hb
      refine ⟨id, other, ?_, ?_, ?_⟩
      · rintro rfl
        exact hne (Option.some.inj (hid.symm.trans hother))
      · exact (transGen_iff hid hother).mp ((hself a List.mem_cons_self).trans_left hab)
      · exact (transGen_iff hother hid).mp ((hself b hb).trans_left hba)

theorem parents_le_one_of_not_reported
    (h : ∀ table parents, .multipleInheritance table parents ∉ design.issues) :
    ∀ table ∈ design.tables, (design.parents table.id).length ≤ 1 := by
  apply (multipleInheritanceIssues_eq_nil_iff design).mp
  rw [List.eq_nil_iff_forall_not_mem]
  intro issue hissue
  obtain ⟨table, _, hmade⟩ := List.mem_filterMap.mp hissue
  dsimp only at hmade
  split at hmade
  case isTrue =>
    obtain rfl := Option.some.inj hmade
    apply h table
    simp only [issues, List.append_assoc]
    exact List.mem_append_left _ hissue
  case isFalse => simp at hmade

/-! ### Both together -/

theorem displayName_of_table? {id : TableId} {table : Table} (h : design.table? id = some table) :
    design.displayName id = table.name := by
  rw [displayName, h]

/-- The tables of an error stand in one reported cycle, and there are two of them at least. -/
theorem exists_reported_of_error {cycle : InheritanceCycle}
    (h : Lineage.of design = .error cycle) :
    ∃ tables, .inheritanceCycle tables ∈ design.issues ∧
      (∀ name ∈ cycle.tables, name ∈ tables.map (·.name)) ∧ 2 ≤ tables.length := by
  obtain ⟨id, between, hnames, hnodup, hchain⟩ := exists_base_cycle_of_error h
  have hleads : ∀ a b, design.baseSteps.Leads a b → design.Inherits a b :=
    fun _ _ => inherits_of_leads
  have hround : ∀ other ∈ id :: between,
      design.Descends id other ∧ design.Descends other id := by
    intro other hother
    obtain ⟨hdown, hup⟩ := transGen_of_mem_isChain hchain other hother
    have hself := (transGen_of_mem_isChain hchain id List.mem_cons_self).2
    exact ⟨TransGen.mono hleads _ _ (hself.trans_left hdown), TransGen.mono hleads _ _ hup⟩
  have hself := (hround id List.mem_cons_self).1
  obtain ⟨tables, hmem, hfound⟩ := exists_reported_cycle hself
  refine ⟨tables, hmem, ?_, ?_⟩
  · intro name hname
    rw [hnames] at hname
    obtain ⟨other, hother, rfl⟩ := List.mem_map.mp hname
    have hother : other ∈ id :: between := by
      rcases List.mem_append.mp hother with hother | hother
      · exact hother
      · rw [List.mem_singleton.mp hother]
        exact List.mem_cons_self
    obtain ⟨hdown, hup⟩ := hround other hother
    obtain ⟨table, htable, hlookup⟩ := hfound other hdown hup
    rw [displayName_of_table? hlookup]
    exact List.mem_map_of_mem htable
  · have hstep : ∃ second, second ≠ id ∧ design.Inherits id second ∧ design.Descends second id := by
      cases between with
      | nil =>
          have hsame := (List.isChain_cons_cons.mp hchain).1
          exact absurd rfl ((design.leads_baseSteps_iff id id).mp hsame).2
      | cons second between =>
          have hfirst := (List.isChain_cons_cons.mp hchain).1
          have hsecond := hround second (List.mem_cons_of_mem _ List.mem_cons_self)
          exact ⟨second, ((design.leads_baseSteps_iff id second).mp hfirst).2,
            inherits_of_leads hfirst, hsecond.2⟩
    obtain ⟨second, hne, hinherits, hup⟩ := hstep
    obtain ⟨first, hfirst, hid⟩ := hfound id hself hself
    obtain ⟨other, hother, hsecond⟩ := hfound second (.single hinherits) hup
    apply two_le_length_of_mem hother hfirst
    rintro rfl
    exact hne ((mem_of_table? hsecond).2.symm.trans (mem_of_table? hid).2)

/-- Where tables have single parents, a descent takes the steps to the bases, apart from tables that
name themselves. -/
theorem reflTransGen_leads_of_inherits
    (hparents : ∀ table ∈ design.tables, (design.parents table.id).length ≤ 1)
    {child ancestor : TableId} (h : ReflTransGen design.Inherits child ancestor) :
    ReflTransGen design.baseSteps.Leads child ancestor := by
  induction h with
  | refl => exact .refl
  | @tail a b _ hstep ih =>
      by_cases hsame : b = a
      · rwa [hsame]
      · have hbase := baseOf_eq_of_inherits hparents hstep
        exact ih.tail ((design.leads_baseSteps_iff _ b).mpr ⟨hbase.symm, hsame⟩)

/-- A normalization that fails names tables that all stand in one reported cycle.  Where no table
is reported for several parents, it fails exactly when a cycle of two tables or more is reported. -/
theorem normalization_fails_at_reported_cycles (design : Design) (ids : IdSupply) :
    (∀ cycle, design.normalize ids = .error cycle →
      ∃ tables, .inheritanceCycle tables ∈ design.issues ∧
        ∀ name ∈ cycle.tables, name ∈ tables.map (·.name)) ∧
    ((∀ table parents, .multipleInheritance table parents ∉ design.issues) →
      ((∃ cycle, design.normalize ids = .error cycle) ↔
        ∃ tables, .inheritanceCycle tables ∈ design.issues ∧ 2 ≤ tables.length)) := by
  refine ⟨?_, ?_⟩
  · intro cycle hfail
    obtain ⟨tables, hmem, hsame⟩ :=
      exists_reported_of_error ((design.normalize_eq_error_iff ids cycle).mp hfail)
    exact ⟨tables, hmem, hsame.1⟩
  · intro hsingle
    have hparents := parents_le_one_of_not_reported hsingle
    constructor
    · rintro ⟨cycle, hfail⟩
      obtain ⟨tables, hmem, hsame⟩ :=
        exists_reported_of_error ((design.normalize_eq_error_iff ids cycle).mp hfail)
      exact ⟨tables, hmem, hsame.2⟩
    · rintro ⟨tables, hmem, hlength⟩
      obtain ⟨id, other, hne, hdown, hup⟩ := exists_descends_of_reported_cycle hmem hlength
      have hleads := reflTransGen_leads_of_inherits hparents hdown.to_reflTransGen
      have hback := reflTransGen_leads_of_inherits hparents hup.to_reflTransGen
      have hcycle : TransGen design.baseSteps.Leads id id := by
        rcases reflTransGen_iff_eq_or_transGen.mp hleads with hsame | hleads
        · exact absurd hsame.symm hne
        · exact hleads.trans_left hback
      cases hlineage : Lineage.of design with
      | ok lineage => exact absurd hcycle (not_transGen_leads_of_lineage hlineage id)
      | error cycle => exact ⟨cycle, (design.normalize_eq_error_iff ids cycle).mpr hlineage⟩

/-- Three tables in a ring, one that leads into it, and one that names itself. -/
def ring : Design where
  tables := ["a", "b", "c", "d", "e"].map fun name => Table.create name name
  columns := []
  relations :=
    [("d", "a"), ("a", "b"), ("b", "c"), ("c", "a"), ("e", "e")].map
      fun (child, parent) => .inherits child parent
  inheritance := .concreteTable

theorem normalization_of_ring_fails :
    (∀ table parents, .multipleInheritance table parents ∉ ring.issues) ∧
      (∃ tables, .inheritanceCycle tables ∈ ring.issues ∧ 2 ≤ tables.length) ∧
      ∃ cycle, ring.normalize (fun _ => nilId) = .error cycle ∧
        ∃ tables, .inheritanceCycle tables ∈ ring.issues ∧
          ∀ name ∈ cycle.tables, name ∈ tables.map (·.name) := by
  have hissues : ring.issues =
      [ .inheritanceCycle (["c", "b", "a"].map fun name => Table.create name name),
        .inheritanceCycle [Table.create "e" "e"] ] := rfl
  have hsingle : ∀ table parents, .multipleInheritance table parents ∉ ring.issues := by
    intro table parents
    simp [hissues]
  have hreported : ∃ tables, .inheritanceCycle tables ∈ ring.issues ∧ 2 ≤ tables.length :=
    ⟨["c", "b", "a"].map fun name => Table.create name name, by simp [hissues], by decide⟩
  obtain ⟨hnames, hfails⟩ := normalization_fails_at_reported_cycles ring (fun _ => nilId)
  obtain ⟨cycle, hcycle⟩ := (hfails hsingle).mpr hreported
  exact ⟨hsingle, hreported, cycle, hcycle, hnames cycle hcycle⟩

end Design

end SchemaDesign
