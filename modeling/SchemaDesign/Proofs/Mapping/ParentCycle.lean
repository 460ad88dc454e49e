import SchemaDesign.Proofs.Mapping.Acceptance
import SchemaDesign.Proofs.Mapping.KnownRoots

/-!
# The cycle that is told

Where normalization fails, it names the tables of one cycle of first parents.  The cycle is the one
that the first table without a root runs into, and its tables are told from the one where the way
enters it until that table comes back.  What lies on the way before it is left out, and the roots of
earlier tables, whether they were noted or not, have no influence.
-/

open Relation

namespace SchemaDesign

namespace Steps

variable {α : Type} [DecidableEq α] {steps : Steps α} {path way : List α} {x again : α}

theorem stoppingAt_nil (steps : Steps α) : steps.stoppingAt [] = steps := by
  simp [stoppingAt]

theorem suffix_of_walk_repeats (h : steps.walk path x = .repeats way again) : path <:+ way := by
  induction path, x using walk_induction steps with
  | mem path x hmem =>
      rw [walk_of_mem hmem] at h
      obtain ⟨rfl, _⟩ := Walk.repeats.inj h
      exact List.suffix_rfl
  | none path x hnew hnone =>
      rw [walk_of_none hnew hnone] at h
      exact absurd h (by simp)
  | leads path x following hnew hleads ih =>
      rw [walk_of_leads hnew hleads] at h
      exact (List.suffix_cons x path).trans (ih h)

/-- A walk that repeats passes its start first. -/
theorem head?_of_walk_repeats (h : steps.walk [] x = .repeats way again) :
    way.reverse.head? = some x := by
  cases hnext : steps.next x with
  | none =>
      rw [walk_of_none List.not_mem_nil hnext] at h
      exact absurd h (by simp)
  | some following =>
      rw [walk_of_leads List.not_mem_nil hnext] at h
      obtain ⟨rest, rfl⟩ := suffix_of_walk_repeats h
      simp

end Steps

namespace Design

variable {design : Design} {id first : TableId} {others way : List TableId}

/-- The second table is the first parent of the first one. -/
def HasParent (design : Design) (child parent : TableId) : Prop :=
  design.parentOf? child = some parent

/-- Two or more different tables, each the first parent of the one before it, from the first table
back to itself. -/
structure ParentCycle (design : Design) (first : TableId) (others : List TableId) : Prop where
  several : others ≠ []
  distinct : (first :: others).Nodup
  tables : ∀ id ∈ first :: others, design.hasTable id
  parents : (first :: others ++ [first]).IsChain design.HasParent

/-- The way along first parents from a table to the first one of a cycle; none of the other tables
on it lies on the cycle. -/
structure Enters (design : Design) (id : TableId) (way : List TableId) (first : TableId)
    (others : List TableId) : Prop where
  start : (way ++ [first]).head? = some id
  distinct : (way ++ first :: others).Nodup
  parents : (way ++ [first]).IsChain design.HasParent

/-! ### From a failure to its cycle -/

theorem hasParent_of_leads {id base : TableId} (h : design.baseSteps.Leads id base) :
    design.HasParent id base :=
  leads_parentSteps_of_leads h

/-- A walk that repeats enters a cycle, and the cycle is what is told of it. -/
theorem parentCycle_of_walk {path : List TableId} {again : TableId}
    (h : design.baseSteps.walk [] id = .repeats path again) :
    ∃ way others, cyclePart path again = again :: others ++ [again] ∧
      design.ParentCycle again others ∧ design.Enters id way again others := by
  obtain ⟨others, hpart, hnodup, hchain⟩ := cyclePart_of_walk h
  have htables := hasTable_of_mem_cyclePart h
  obtain ⟨way, hsplit⟩ : ∃ way, way ++ again :: others = path.reverse := by
    refine ⟨path.reverse.takeWhile (· ≠ again), ?_⟩
    rw [← List.append_cancel_right hpart, List.takeWhile_append_dropWhile]
  obtain ⟨hdistinct, _, hsteps⟩ :=
    Steps.walk_repeats List.nodup_nil (List.isChain_singleton _) h
  refine ⟨way, others, hpart, ⟨?_, hnodup, ?_, ?_⟩, ?_, ?_, ?_⟩
  · rintro rfl
    have hsame := (List.isChain_cons_cons.mp hchain).1
    exact ((design.leads_baseSteps_iff again again).mp hsame).2 rfl
  · intro other hother
    exact htables other (hpart ▸ List.mem_append_left _ hother)
  · exact hchain.imp fun _ _ => hasParent_of_leads
  · have hhead := Steps.head?_of_walk_repeats h
    rw [← hsplit] at hhead
    simpa using hhead
  · rw [hsplit]
    exact List.nodup_reverse.mpr hdistinct
  · have hforward : (path.reverse ++ [again]).IsChain design.baseSteps.Leads := by
      rw [← List.reverse_cons, List.isChain_reverse]
      exact hsteps
    have hcut : path.reverse ++ [again] = way ++ [again] ++ (others ++ [again]) := by
      simp [← hsplit]
    rw [hcut] at hforward
    exact hforward.left_of_append.imp fun _ _ => hasParent_of_leads

/-- The line of an id ends exactly when the id has a root. -/
theorem exists_line_iff (design : Design) (id : TableId) :
    (∃ line, design.lineAlong design.baseSteps id = .ok line) ↔ ∃ root, design.HasRoot id root := by
  constructor
  · rintro ⟨line, hline⟩
    obtain ⟨path, last, hwalk, _⟩ := (design.lineAlong_eq_ok_iff id line).mp hline
    rw [← Steps.stoppingAt_nil design.baseSteps] at hwalk
    obtain ⟨hlast, _, _, hreach, _⟩ := Steps.walk_stoppingAt_ends hwalk
    have hrests := (design.next_baseSteps_eq_none_iff last).mp (hlast.resolve_left (by simp))
    exact ⟨last, (HasRoot.of_reaches hreach).mp ((design.hasRoot_self_iff last).mpr hrests)⟩
  · rintro ⟨root, hroot⟩
    exact hroot.exists_line

/-! ### From a cycle to the failure -/

theorem reflTransGen_leads_of_hasParent {child parent : TableId}
    (h : design.HasParent child parent) (hchild : design.hasTable child)
    (hparent : design.hasTable parent) : ReflTransGen design.baseSteps.Leads child parent := by
  by_cases hsame : parent = child
  · rw [hsame]
  · have hbase : design.baseOf child = parent := by
      have hfound : design.parentOf? child = some parent := h
      simp [baseOf, hfound, hchild, hparent]
    exact .single ((design.leads_baseSteps_iff child parent).mpr ⟨hbase.symm, hsame⟩)

/-- A cycle of first parents is one of the bases. -/
theorem ParentCycle.transGen (hcycle : design.ParentCycle first others) :
    TransGen design.baseSteps.Leads first first := by
  obtain ⟨second, rest, rfl⟩ := List.exists_cons_of_ne_nil hcycle.several
  have hmem : ∀ id ∈ first :: (second :: rest) ++ [first], design.hasTable id := by
    intro id hid
    rcases List.mem_append.mp hid with hid | hid
    · exact hcycle.tables id hid
    · rw [List.mem_singleton.mp hid]
      exact hcycle.tables first List.mem_cons_self
  have hsteps : (first :: (second :: rest) ++ [first]).IsChain
      (ReflTransGen design.baseSteps.Leads) :=
    hcycle.parents.imp_of_mem_imp fun child parent hchild hparent h =>
      reflTransGen_leads_of_hasParent h (hmem child hchild) (hmem parent hparent)
  obtain ⟨hdown, hup⟩ :=
    transGen_of_mem_isChain hsteps second (List.mem_cons_of_mem _ List.mem_cons_self)
  have hne : first ≠ second := by
    rintro rfl
    exact (List.nodup_cons.mp hcycle.distinct).1 List.mem_cons_self
  have hback := hup.to_reflTransGen
  rw [reflTransGen_eq_self] at hdown hback
  rcases reflTransGen_iff_eq_or_transGen.mp hdown with hsame | hdown
  · exact absurd hsame.symm hne
  · exact hdown.trans_left hback

theorem exists_error_of_parentCycle (hcycle : design.ParentCycle first others) (ids : IdSupply) :
    ∃ cycle, design.normalize ids = .error cycle := by
  cases hlineage : Lineage.of design with
  | ok lineage => exact absurd hcycle.transGen (not_transGen_leads_of_lineage hlineage first)
  | error cycle => exact ⟨cycle, (design.normalize_eq_error_iff ids cycle).mpr hlineage⟩

/-! ### What is told -/

/-- A failure tells the cycle that the first table without a root runs into. -/
theorem exists_parentCycle_of_error {cycle : InheritanceCycle}
    (h : Lineage.of design = .error cycle) :
    ∃ first others, design.ParentCycle first others ∧
      cycle.tables = (first :: others ++ [first]).map design.displayName ∧
      ∃ before table after way, design.tables = before ++ table :: after ∧
        (∀ earlier ∈ before, ∃ root, design.HasRoot earlier.id root) ∧
        design.Enters table.id way first others := by
  obtain ⟨before, table, after, path, again, htables, hbefore, hwalk, hnames⟩ :=
    exists_walk_of_error h
  obtain ⟨way, others, hpart, hcycle, henters⟩ := parentCycle_of_walk hwalk
  refine ⟨again, others, hcycle, by rw [hnames, hpart], before, table, after, way, htables, ?_,
    henters⟩
  intro earlier hearlier
  exact (design.exists_line_iff earlier.id).mp (hbefore earlier hearlier)

theorem noteRoots_eq_error_iff (design : Design) (cycle : InheritanceCycle) :
    design.noteRoots = .error cycle ↔ Lineage.of design = .error cycle := by
  have hsame := design.sameOutcome_noteRoots
  generalize design.noteRoots = noted, Lineage.of design = outcome at hsame
  cases hsame with
  | ok _ => simp
  | error _ => simp

/-- A normalization that fails names the tables of a cycle of first parents, with the first one
again at the end.  It is the cycle that the first table without a root runs into, entered at the
table that is named first.  It fails exactly when there is such a cycle, and tells the same one
whether the roots of earlier tables are noted or not. -/
theorem cycles_told_by_failed_normalizations (design : Design) (ids : IdSupply) :
    (∀ cycle, design.normalize ids = .error cycle →
      ∃ first others, design.ParentCycle first others ∧
        cycle.tables = (first :: others ++ [first]).map design.displayName ∧
        cycle.message = "Inheritance cycle detected: " ++
          " -> ".intercalate ((first :: others ++ [first]).map design.displayName) ∧
        ∃ before table after way, design.tables = before ++ table :: after ∧
          (∀ earlier ∈ before, ∃ root, design.HasRoot earlier.id root) ∧
          design.Enters table.id way first others) ∧
    ((∃ cycle, design.normalize ids = .error cycle) ↔
      ∃ first others, design.ParentCycle first others) ∧
    (∀ cycle, design.noteRoots = .error cycle ↔ design.normalize ids = .error cycle) := by
  refine ⟨?_, ⟨?_, ?_⟩, ?_⟩
  · intro cycle hfail
    obtain ⟨first, others, hcycle, hnames, hentered⟩ :=
      exists_parentCycle_of_error ((design.normalize_eq_error_iff ids cycle).mp hfail)
    have hmessage : cycle.message = "Inheritance cycle detected: " ++
        " -> ".intercalate ((first :: others ++ [first]).map design.displayName) := by
      rw [← hnames]
      rfl
    exact ⟨first, others, hcycle, hnames, hmessage, hentered⟩
  · rintro ⟨cycle, hfail⟩
    obtain ⟨first, others, hcycle, _⟩ :=
      exists_parentCycle_of_error ((design.normalize_eq_error_iff ids cycle).mp hfail)
    exact ⟨first, others, hcycle⟩
  · rintro ⟨first, others, hcycle⟩
    exact exists_error_of_parentCycle hcycle ids
  · intro cycle
    rw [noteRoots_eq_error_iff, normalize_eq_error_iff]

/-- A hierarchy with roots comes first; then a table that leads into a cycle of three, which is
listed in another order.  One table of the cycle has a second parent. -/
def eddy : Design where
  tables :=
    [("u", "Unit"), ("v", "Van"), ("d", "Depot"), ("a", "Axle"), ("b", "Bus"), ("c", "Cab")].map
      fun (id, name) => Table.create id name
  columns := []
  relations :=
    [("v", "u"), ("d", "b"), ("a", "b"), ("b", "c"), ("c", "a"), ("b", "u")].map
      fun (child, parent) => .inherits child parent
  inheritance := .singleTable

theorem cycle_told_of_eddy :
    ∃ cycle, eddy.normalize (fun _ => nilId) = .error cycle ∧
      cycle.tables = ["Bus", "Cab", "Axle", "Bus"] ∧
      (∃ first others, eddy.ParentCycle first others ∧
        cycle.tables = (first :: others ++ [first]).map eddy.displayName) ∧
      eddy.noteRoots = .error cycle := by
  obtain ⟨htold, hfails, hnoted⟩ := cycles_told_by_failed_normalizations eddy (fun _ => nilId)
  have hparents : eddy.ParentCycle "b" ["c", "a"] :=
    ⟨by decide, by decide, by decide, by
      simp only [List.cons_append, List.nil_append, List.isChain_cons_cons]
      exact ⟨rfl, rfl, rfl, .singleton _⟩⟩
  obtain ⟨cycle, hcycle⟩ := hfails.mpr ⟨"b", ["c", "a"], hparents⟩
  have hnames : (match eddy.normalize (fun _ => nilId) with
      | .error cycle => cycle.tables
      | .ok _ => []) = ["Bus", "Cab", "Axle", "Bus"] := by decide +kernel
  rw [hcycle] at hnames
  obtain ⟨first, others, hfirst, htables, _⟩ := htold cycle hcycle
  exact ⟨cycle, hcycle, hnames, ⟨first, others, hfirst, htables⟩, (hnoted cycle).mpr hcycle⟩

end Design

end SchemaDesign
