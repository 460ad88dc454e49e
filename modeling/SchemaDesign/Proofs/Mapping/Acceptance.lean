import SchemaDesign.Proofs.Design.Gate
import SchemaDesign.Proofs.Mapping.Cycle
import SchemaDesign.Proofs.Mapping.Normalize

/-!
# Normalization after an accepted inheritance

The gate for inheritance is asked about any design, also about one with several parents, unknown
ends and cycles.  Its walk follows first parents over all ids that are named, and normalization
follows only those to other tables.  So what the walk never meets, the lines of normalization do not
meet either: a relation that the gate accepts closes no cycle, and it does not open one that is
there.
-/

open Relation

namespace SchemaDesign.Design

variable {design : Design} {child parent : TableId}

/-! ### The walk of the gate -/

theorem mem_sources_of_leads {id next : TableId} (h : design.parentSteps.Leads id next) :
    id ∈ (design.relations.filter (·.isInheritance)).map (·.source.table) := by
  obtain ⟨relation, hmem, hkind, hsource, _⟩ :=
    (design.mem_parents_iff id next).mp (mem_parents_of_parentOf? h)
  exact List.mem_map.mpr ⟨relation, List.mem_filter.mpr ⟨hmem, hkind⟩, hsource⟩

/-- On any design the walk of the gate takes at most one step for each inheritance relation. -/
theorem gate_walk_stops (design : Design) (child parent : TableId) :
    ∃ n ≤ design.countRelations .inheritsFrom + 1,
      design.parentSteps.StopsAt [child] parent n ∧
        (∀ m < n, ¬design.parentSteps.StopsAt [child] parent m) ∧
        ((design.parentSteps.walk [child] parent).isFinite ↔
          design.parentSteps.after n parent = none) := by
  obtain ⟨n, hn, hwalk⟩ :=
    design.parentSteps.walk_stops (fun _ _ h => mem_sources_of_leads h) [child] parent
  refine ⟨n, hn.trans (Nat.add_le_add_right ?_ 1), hwalk⟩
  refine (List.length_filter_le _ _).trans ?_
  rw [List.length_map, ← List.countP_eq_length_filter]
  exact Nat.le_refl _

/-! ### Lines after the relation is added -/

theorem exists_normal_iff (design : Design) (ids : IdSupply) :
    (∃ normal, design.normalize ids = .ok normal) ↔
      ∀ id, ¬TransGen design.baseSteps.Leads id id := by
  constructor
  · rintro ⟨normal, hnormal⟩
    obtain ⟨lineage, hlineage, _⟩ := exists_lineage_of_normalize hnormal
    exact not_transGen_leads_of_lineage hlineage
  · intro hacyclic
    obtain ⟨lineage, hlineage⟩ := Lineage.exists_of_no_cycle hacyclic
    exact ⟨_, normalize_of_lineage hlineage ids⟩

theorem leads_parentSteps_of_leads {id base : TableId} (h : design.baseSteps.Leads id base) :
    design.parentSteps.Leads id base := by
  obtain ⟨rfl, hne⟩ := (design.leads_baseSteps_iff id base).mp h
  change design.parentOf? id = some (design.baseOf id)
  unfold baseOf at hne ⊢
  cases hparent : design.parentOf? id with
  | none => simp [hparent] at hne
  | some next =>
      by_cases htables : design.hasTable id && design.hasTable next
      · simp [htables]
      · simp [hparent, htables] at hne

theorem parentOf?_addInheritance (design : Design) (child parent id : TableId) :
    (design.addRelation (.inherits child parent)).parentOf? id =
      (design.parentOf? id).or (if child = id then some parent else none) := by
  rw [parentOf?_eq_head?, parentOf?_eq_head?, parents_addRelation, List.head?_append]
  congr 1
  by_cases hchild : child = id
  · simp [hchild, Relation.inherits, Relation.isInheritance]
  · simp [hchild, Relation.inherits]

section Accepted

variable (hgate : design.checkInheritance child parent = .ok ())

include hgate

theorem baseOf_addInheritance (id : TableId) :
    (design.addRelation (.inherits child parent)).baseOf id =
      if child = id then parent else design.baseOf id := by
  obtain ⟨_, hchild, hparent, hnone, _⟩ := (design.checkInheritance_eq_ok_iff child parent).mp hgate
  have htables : (design.addRelation (.inherits child parent)).hasTable = design.hasTable := rfl
  unfold baseOf
  rw [parentOf?_addInheritance, htables]
  by_cases hsame : child = id
  · subst hsame
    simp [hnone, hchild, hparent]
  · simp [hsame]

/-- The line of the child goes on with the parent, and no other line changes there. -/
theorem leads_addInheritance_iff (id base : TableId) :
    (design.addRelation (.inherits child parent)).baseSteps.Leads id base ↔
      design.baseSteps.Leads id base ∨ (id = child ∧ base = parent) := by
  obtain ⟨hne, _, _, hnone, _⟩ := (design.checkInheritance_eq_ok_iff child parent).mp hgate
  rw [leads_baseSteps_iff, leads_baseSteps_iff, baseOf_addInheritance hgate]
  by_cases hsame : child = id
  · subst hsame
    have hbase : design.baseOf child = child := by simp [baseOf, hnone]
    rw [if_pos rfl, hbase]
    constructor
    · rintro ⟨rfl, _⟩
      exact .inr ⟨rfl, rfl⟩
    · rintro (⟨rfl, hself⟩ | ⟨_, rfl⟩)
      · exact absurd rfl hself
      · exact ⟨rfl, hne.symm⟩
  · rw [if_neg hsame]
    constructor
    · exact .inl
    · rintro (hleads | ⟨rfl, _⟩)
      · exact hleads
      · exact absurd rfl hsame

theorem not_reaches_of_accepted : ¬ReflTransGen design.baseSteps.Leads parent child := by
  obtain ⟨_, _, _, _, hfinite⟩ := (design.checkInheritance_eq_ok_iff child parent).mp hgate
  intro hreach
  have hmet := ReflTransGen.mono (fun _ _ h => leads_parentSteps_of_leads h) _ _ hreach
  have hwalk := (design.parentSteps.walk_isFinite_iff [child] parent).mp hfinite child hmet
  exact hwalk.1 (List.mem_singleton_self child)

theorem exists_normal_addInheritance_iff (ids others : IdSupply) :
    (∃ normal, (design.addRelation (.inherits child parent)).normalize ids = .ok normal) ↔
      ∃ normal, design.normalize others = .ok normal := by
  rw [exists_normal_iff, exists_normal_iff]
  constructor
  · intro hacyclic id hcycle
    refine hacyclic id (TransGen.mono ?_ id id hcycle)
    exact fun a b h => (leads_addInheritance_iff hgate a b).mpr (.inl h)
  · exact not_transGen_of_one_more (fun a b => (leads_addInheritance_iff hgate a b).mp)
      (not_reaches_of_accepted hgate)

end Accepted

/-- On any design the walk of the gate stops after at most one step for each inheritance relation,
and a relation that it accepts has no influence on whether the design can be normalized. -/
theorem normalization_after_accepted_inheritance (design : Design) (child parent : TableId)
    (ids others : IdSupply) :
    (∃ n ≤ design.countRelations .inheritsFrom + 1,
      design.parentSteps.StopsAt [child] parent n ∧
        (∀ m < n, ¬design.parentSteps.StopsAt [child] parent m) ∧
        ((design.parentSteps.walk [child] parent).isFinite ↔
          design.parentSteps.after n parent = none)) ∧
    (design.checkInheritance child parent = .ok () →
      ((∃ normal, (design.addRelation (.inherits child parent)).normalize ids = .ok normal) ↔
        ∃ normal, design.normalize others = .ok normal)) :=
  ⟨design.gate_walk_stops child parent, fun hgate =>
    exists_normal_addInheritance_iff hgate ids others⟩

theorem exists_ok_iff_isOk {ε α : Type} (result : Except ε α) :
    (∃ a, result = .ok a) ↔ result.isOk := by
  cases result <;> simp [Except.isOk, Except.toBool]

/-- Several parents, an unknown parent with a parent of its own, a table that names itself, and an
id that is used twice. -/
def thicket : Design where
  tables := ["a", "b", "c", "c", "d"].map fun name => Table.create name name
  columns := []
  relations :=
    [("a", "ghost"), ("ghost", "spirit"), ("b", "a"), ("b", "d"), ("d", "d")].map
      fun (child, parent) => .inherits child parent
  inheritance := .singleTable

/-- The same with two tables that inherit from each other. -/
def tangle : Design :=
  { thicket with
    tables := thicket.tables ++ [.create "e" "e", .create "f" "f"]
    relations := thicket.relations ++ [.inherits "e" "f", .inherits "f" "e"] }

/-- The walk from `b` goes on over the unknown ids, and what it accepts changes nothing in either
design. -/
theorem normalization_of_thicket_and_tangle :
    (∃ n ≤ 6, thicket.parentSteps.StopsAt ["c"] "b" n) ∧
      thicket.checkInheritance "c" "b" = .ok () ∧ tangle.checkInheritance "c" "b" = .ok () ∧
      (∃ normal,
        (thicket.addRelation (.inherits "c" "b")).normalize hashes = .ok normal) ∧
      ¬∃ normal, (tangle.addRelation (.inherits "c" "b")).normalize hashes = .ok normal := by
  obtain ⟨⟨n, hn, hstop, _⟩, hthicket⟩ :=
    normalization_after_accepted_inheritance thicket "c" "b" hashes hashes
  have htangle := (normalization_after_accepted_inheritance tangle "c" "b" hashes hashes).2
  have haccepted : thicket.checkInheritance "c" "b" = .ok () := by decide +kernel
  have haccepted' : tangle.checkInheritance "c" "b" = .ok () := by decide +kernel
  refine ⟨⟨n, hn, hstop⟩, haccepted, haccepted', ?_, ?_⟩
  · rw [hthicket haccepted, exists_ok_iff_isOk]
    decide +kernel
  · rw [htangle haccepted', exists_ok_iff_isOk]
    decide +kernel

end SchemaDesign.Design
