import Mathlib.Data.List.Perm.Basic
import SchemaDesign.Proofs.Compilation
import SchemaDesign.Proofs.Mapping.ColumnNames
import SchemaDesign.Proofs.Mapping.Mention
import SchemaDesign.Proofs.Mapping.Referring

/-!
# Where the names of constraints meet

Within one table definition two constraints have one name exactly when two foreign keys of the table
are on columns of one name.  In all definitions taken together they do so already when the columns
are on different tables.  Which columns these are can be told from the design before it is
normalized.
-/

namespace SchemaDesign

open Sql

section Names

variable {columns : List (TableId × String)}

theorem mem_namesAt_iff (columns : List (TableId × String)) (id : TableId) (name : String) :
    name ∈ namesAt columns id ↔ (id, name) ∈ columns := by
  rw [namesAt, List.mem_filterMap]
  constructor
  · rintro ⟨x, hx, hname⟩
    split at hname
    case isTrue hid =>
      rw [← hid, ← Option.some.inj hname]
      exact hx
    case isFalse => cases hname
  · intro hmem
    exact ⟨_, hmem, if_pos rfl⟩

theorem forall_nodup_namesAt_iff {tables : List TableId} (htables : ∀ x ∈ columns, x.1 ∈ tables) :
    (∀ id ∈ tables, (namesAt columns id).Nodup) ↔ columns.Nodup := by
  constructor
  · intro hnames
    induction columns with
    | nil => exact List.nodup_nil
    | cons x columns ih =>
        rw [List.forall_mem_cons] at htables
        have hcons : namesAt (x :: columns) x.1 = x.2 :: namesAt columns x.1 :=
          List.filterMap_cons_some (if_pos rfl)
        rw [List.nodup_cons]
        constructor
        · intro hmem
          have hfirst := hnames x.1 htables.1
          rw [hcons, List.nodup_cons] at hfirst
          exact hfirst.1 ((mem_namesAt_iff _ _ _).mpr hmem)
        · apply ih htables.2
          intro id hid
          exact (hnames id hid).sublist ((List.sublist_cons_self x columns).filterMap _)
  · intro hnodup id _
    refine List.Nodup.filterMap ?_ hnodup
    intro y z name hy hz
    simp only [Option.mem_def, Option.ite_none_right_eq_some, Option.some.injEq] at hy hz
    exact Prod.ext (hy.1.trans hz.1.symm) (hy.2.trans hz.2.symm)

/-- Taken table by table, every column comes once for each time that its table is listed. -/
theorem flatMap_namesAt_perm (columns : List (TableId × String)) (tables : List TableId) :
    (tables.flatMap (namesAt columns)).Perm
      (columns.flatMap fun x => List.replicate (tables.count x.1) x.2) := by
  induction tables with
  | nil => simp
  | cons id tables ih =>
      have hnames : namesAt columns id =
          columns.flatMap fun x => (if x.1 = id then some x.2 else none).toList :=
        List.filterMap_eq_flatMap_toList ..
      have hcount : ∀ x : TableId × String,
          (if x.1 = id then some x.2 else none).toList ++ List.replicate (tables.count x.1) x.2 =
            List.replicate ((id :: tables).count x.1) x.2 := by
        intro x
        by_cases hid : x.1 = id
        · simp [hid, List.replicate_succ]
        · simp [hid, List.count_cons_of_ne (Ne.symm hid)]
      rw [List.flatMap_cons, hnames]
      refine (ih.append_left _).trans ?_
      simp only [← hcount]
      exact List.flatMap_append_perm columns _ _

theorem nodup_flatMap_namesAt_iff {tables : List TableId} (htables : ∀ x ∈ columns, x.1 ∈ tables) :
    (tables.flatMap (namesAt columns)).Nodup ↔
      (columns.map Prod.snd).Nodup ∧ ∀ x ∈ columns, tables.count x.1 = 1 := by
  rw [(flatMap_namesAt_perm columns tables).nodup_iff]
  have honce : (∀ x ∈ columns, tables.count x.1 = 1) →
      (columns.flatMap fun x => List.replicate (tables.count x.1) x.2) =
        columns.map Prod.snd := by
    intro hcount
    rw [List.map_eq_flatMap]
    apply List.flatMap_congr
    intro x hx
    rw [hcount x hx]
    rfl
  constructor
  · intro hnodup
    have hcount : ∀ x ∈ columns, tables.count x.1 = 1 := by
      intro x hx
      have hle := (List.nodup_flatMap.mp hnodup).1 x hx
      rw [List.nodup_replicate] at hle
      have hpos := List.count_pos_iff.mpr (htables x hx)
      omega
    exact ⟨honce hcount ▸ hnodup, hcount⟩
  · rintro ⟨hnodup, hcount⟩
    rwa [honce hcount]

end Names

namespace Design

variable {design : Design} {ids : IdSupply} {lineage : Lineage}

def keptIds (design : Design) (lineage : Lineage) : List TableId :=
  (design.tables.filter (design.inheritance.keeps lineage)).map (·.id)

def junctionNames (joined : Table × Table) : List String :=
  [joined.1.name ++ "Id", joined.2.name ++ "Id"]

theorem holder_mem_keptIds (ids : IdSupply) (hlineage : Lineage.of design = .ok lineage)
    {id : TableId} (htable : design.hasTable id)
    (hkept : design.inheritance = .concreteTable → id ∉ design.abstractIds) :
    design.inheritance.holder lineage id ∈ design.keptIds lineage := by
  have hmapped : (design.mapInheritance ids lineage).hasTable
      (design.inheritance.holder lineage id) := by
    unfold mapInheritance InheritanceKind.holder
    cases hkind : design.inheritance with
    | singleTable => exact hasTable_root_mergeHierarchies hlineage htable
    | classTable => exact htable
    | concreteTable => exact hasTable_flattenHierarchies htable (hkept hkind)
  have htables : (design.mapInheritance ids lineage).tables =
      design.tables.filter (design.inheritance.keeps lineage) :=
    tables_mapInheritance design ids lineage
  rwa [hasTable_iff, tableIds, htables] at hmapped

section Clean

variable (hclean : design.Clean) (hlineage : Lineage.of design = .ok lineage)

include hclean hlineage

theorem fst_mem_keptIds (ids : IdSupply) {x : TableId × String}
    (hx : x ∈ design.referringColumns lineage) : x.1 ∈ design.keptIds lineage := by
  rcases List.mem_append.mp hx with hx | hx
  · obtain ⟨relation, hmem, hreferring⟩ := List.mem_filterMap.mp hx
    rw [referringColumn?] at hreferring
    split at hreferring
    case isTrue hdeclares =>
      obtain ⟨name, _, rfl⟩ := Option.map_eq_some_iff.mp hreferring
      exact holder_mem_keptIds ids hlineage (hclean.ends relation hmem).2
        fun hkind => (hdeclares.2 hkind).1
    case isFalse => cases hreferring
  · rw [sharedKeys] at hx
    split at hx
    case isTrue hkind =>
      obtain ⟨table, hmem, hkey⟩ := List.mem_filterMap.mp hx
      obtain ⟨key, _, rfl⟩ := Option.map_eq_some_iff.mp hkey
      have hkept := holder_mem_keptIds ids hlineage (hasTable_of_mem hmem)
        fun hconcrete => by simp [hkind] at hconcrete
      rwa [hkind] at hkept
    case isFalse => cases hx

theorem constraintNames_of_normal (hunused : ids.UnusedIn design) {normal : Design}
    (hnormal : design.normalize ids = .ok normal) :
    normal.tables.map (fun table => (normal.createTable .namedClause table).constraintNames) =
      ((design.keptIds lineage).map (namesAt (design.referringColumns lineage)) ++
        (design.joinedTables lineage).map junctionNames).map (List.map ("FK_" ++ ·)) := by
  rw [normalize_of_lineage hlineage, Except.ok.injEq] at hnormal
  have hfresh := hunused.freshFor.left
  have hright := unusedIn_mapInheritance hlineage hunused
  have hmapped : (design.mapInheritance ids.left lineage).dropInheritance.tables =
      design.tables.filter (design.inheritance.keeps lineage) :=
    tables_mapInheritance design ids.left lineage
  have hkept : ∀ table ∈ (design.mapInheritance ids.left lineage).dropInheritance.tables,
      normal.referringNames table.id = namesAt (design.referringColumns lineage) table.id := by
    intro table hmem
    rw [← hnormal, referringNames_expandJunctions hright (hasTable_of_mem hmem),
      filterMap_dropInheritance]
    exact names_mapInheritance hclean hlineage hfresh table.id
  have hjunctions : ((design.mapInheritance ids.left lineage).dropInheritance.junctionTables
      ids.right).map (fun table => normal.referringNames table.id) =
        (design.joinedTables lineage).map junctionNames := by
    rw [← map_junctions_mapInheritance hclean hlineage hfresh, List.map_map, junctionTables,
      List.map_map]
    conv_rhs => rw [← List.zipIdx_map_fst 0
      (design.mapInheritance ids.left lineage).dropInheritance.junctions, List.map_map]
    apply List.map_congr_left
    intro x hx
    rw [← hnormal]
    exact referringNames_junctionTable hright hx
  have hnames : normal.tables.map (fun table => normal.referringNames table.id) =
      (design.keptIds lineage).map (namesAt (design.referringColumns lineage)) ++
        (design.joinedTables lineage).map junctionNames := by
    have htables : normal.tables =
        (design.mapInheritance ids.left lineage).dropInheritance.tables ++
          (design.mapInheritance ids.left lineage).dropInheritance.junctionTables ids.right := by
      rw [← hnormal]
      rfl
    rw [htables, List.map_append, hjunctions, keptIds, ← hmapped, List.map_map]
    congr 1
    exact List.map_congr_left hkept
  rw [← hnames, List.map_map]
  apply List.map_congr_left
  intro table _
  exact constraintNames_createTable normal table

end Clean

/-- No two foreign keys of one table are on columns of one name. -/
def NamesApartInTables (design : Design) (lineage : Lineage) : Prop :=
  (design.referringColumns lineage).Nodup ∧
    ∀ x ∈ design.joinedTables lineage, x.1.name ≠ x.2.name

/-- No two foreign keys are on columns of one name, whatever their tables are, and no table with a
foreign key is created twice. -/
def NamesApartOverall (design : Design) (lineage : Lineage) : Prop :=
  ((design.referringColumns lineage).map Prod.snd ++
      (design.joinedTables lineage).flatMap junctionNames).Nodup ∧
    ∀ x ∈ design.referringColumns lineage, (design.keptIds lineage).count x.1 = 1

instance decidableNamesApartInTables : Decidable (design.NamesApartInTables lineage) :=
  inferInstanceAs (Decidable (_ ∧ ∀ x ∈ _, _ ≠ _))

instance decidableNamesApartOverall : Decidable (design.NamesApartOverall lineage) :=
  inferInstanceAs (Decidable (_ ∧ ∀ x ∈ _, _ = 1))

theorem nodup_constraintNames_iff (names : List String) :
    (names.map ("FK_" ++ ·)).Nodup ↔ names.Nodup :=
  List.nodup_map_iff fun _ _ hsame => (String.append_right_inj _).mp hsame

section Clean

variable (hclean : design.Clean) (hlineage : Lineage.of design = .ok lineage)
  (hunused : ids.UnusedIn design) {normal : Design} (hnormal : design.normalize ids = .ok normal)

include hclean hlineage hunused hnormal

theorem nodup_in_definitions_iff :
    (∀ table ∈ normal.tables,
      (normal.createTable .namedClause table).constraintNames.Nodup) ↔
        design.NamesApartInTables lineage := by
  have hnames := constraintNames_of_normal hclean hlineage hunused hnormal
  have hlists : (∀ table ∈ normal.tables,
      (normal.createTable .namedClause table).constraintNames.Nodup) ↔
        ∀ names ∈ (design.keptIds lineage).map (namesAt (design.referringColumns lineage)) ++
          (design.joinedTables lineage).map junctionNames, names.Nodup := by
    rw [← List.forall_mem_map (P := List.Nodup), hnames, List.forall_mem_map]
    simp only [nodup_constraintNames_iff]
  rw [hlists, List.forall_mem_append, List.forall_mem_map, List.forall_mem_map,
    forall_nodup_namesAt_iff fun x hx => fst_mem_keptIds hclean hlineage ids hx,
    NamesApartInTables]
  simp only [junctionNames, nodup_junction_names_iff]

theorem nodup_overall_iff :
    (normal.tables.flatMap fun table =>
      (normal.createTable .namedClause table).constraintNames).Nodup ↔
        design.NamesApartOverall lineage := by
  have hkept : ∀ x ∈ design.referringColumns lineage, x.1 ∈ design.keptIds lineage :=
    fun x hx => fst_mem_keptIds hclean hlineage ids hx
  have hmem : ∀ name, name ∈ (design.keptIds lineage).flatMap
      (namesAt (design.referringColumns lineage)) ↔
        name ∈ (design.referringColumns lineage).map Prod.snd := by
    intro name
    simp only [List.mem_flatMap, mem_namesAt_iff, List.mem_map]
    constructor
    · rintro ⟨id, _, hcolumn⟩
      exact ⟨_, hcolumn, rfl⟩
    · rintro ⟨x, hx, rfl⟩
      exact ⟨x.1, hkept x hx, hx⟩
  have hlist : (normal.tables.flatMap fun table =>
      (normal.createTable .namedClause table).constraintNames) =
        ((design.keptIds lineage).flatMap (namesAt (design.referringColumns lineage)) ++
          (design.joinedTables lineage).flatMap junctionNames).map ("FK_" ++ ·) := by
    rw [List.flatMap_def, constraintNames_of_normal hclean hlineage hunused hnormal,
      ← List.map_flatten, List.flatten_append, ← List.flatMap_def, ← List.flatMap_def]
  rw [hlist, nodup_constraintNames_iff, NamesApartOverall, List.nodup_append, List.nodup_append,
    nodup_flatMap_namesAt_iff hkept]
  simp only [hmem]
  exact and_right_comm

end Clean

/-- The constraints in one definition have distinct names exactly when no two foreign keys of a
table are on columns of one name.  The constraints in all definitions have distinct names exactly
when this holds whatever the tables are, and no table with a foreign key is created twice. -/
theorem constraint_names_of_compiled_designs (hissues : design.issues = [])
    (hunused : ids.UnusedIn design) (kind : Option InheritanceKind) :
    ∃ lineage postgres mysql, Lineage.of design = .ok lineage ∧
      design.compile ids ⟨.postgres, kind⟩ = .ok postgres ∧
      design.compile ids ⟨.mysql, kind⟩ = .ok mysql ∧
      postgres.statements.map (·.sql) = postgres.definitions.map (·.text .postgres) ∧
      mysql.statements.map (·.sql) = mysql.definitions.map (·.text .mysql) ∧
      ((∀ definition ∈ postgres.definitions, definition.constraintNames.Nodup) ↔
        (design.withInheritance kind).NamesApartInTables lineage) ∧
      ((mysql.definitions.flatMap (·.constraintNames)).Nodup ↔
        (design.withInheritance kind).NamesApartOverall lineage) := by
  have hclean := (design.issues_eq_nil_iff.mp hissues).withInheritance kind
  obtain ⟨lineage, hlineage⟩ := Lineage.exists_of_acyclic hclean.acyclic
  have hunused : ids.UnusedIn (design.withInheritance kind) :=
    ⟨hunused.injective, hunused.tables, hunused.columns⟩
  have hnormal := normalize_of_lineage hlineage ids
  have hstatements : ∀ (normal : Design) (dialect : Dialect), dialect.preamble.isEmpty →
      (normal.statements dialect).map (·.sql) =
        (normal.tables.map (normal.createTable dialect.foreignKeys)).map (·.text dialect) := by
    intro normal dialect hpreamble
    simp [statements, preambleStatements, hpreamble, tableStatement]
  refine ⟨lineage, _, _, hlineage, compile_of_normal ⟨.postgres, kind⟩ hnormal,
    compile_of_normal ⟨.mysql, kind⟩ hnormal, hstatements _ .postgres rfl, hstatements _ .mysql rfl,
    ?_, ?_⟩
  · rw [← nodup_in_definitions_iff hclean hlineage hunused hnormal]
    exact List.forall_mem_map
  · rw [← nodup_overall_iff hclean hlineage hunused hnormal, Compiled.definitions,
      List.flatMap_map]
    rfl

theorem constraint_names_of_pets :
    ∃ postgres mysql, pets.compile hashes ⟨.postgres, some .classTable⟩ = .ok postgres ∧
      pets.compile hashes ⟨.mysql, some .classTable⟩ = .ok mysql ∧
      (∀ definition ∈ postgres.definitions, definition.constraintNames.Nodup) ∧
      (mysql.definitions.flatMap (·.constraintNames)).Nodup := by
  have hissues : pets.issues = [] := rfl
  have hunused : hashes.UnusedIn pets := hashes_unusedIn (by decide) (by decide)
  obtain ⟨lineage, postgres, mysql, hlineage, hpostgres, hmysql, _, _, hinTables, hoverall⟩ :=
    constraint_names_of_compiled_designs hissues hunused (some .classTable)
  have happly : (Lineage.of pets).toOption.map (fun lineage =>
      (decide ((pets.withInheritance (some .classTable)).NamesApartInTables lineage),
        decide ((pets.withInheritance (some .classTable)).NamesApartOverall lineage))) =
      some (true, true) := by
    decide +kernel
  rw [hlineage] at happly
  obtain ⟨htables, hall⟩ := Prod.mk.inj (Option.some.inj happly)
  exact ⟨postgres, mysql, hpostgres, hmysql, hinTables.mpr (of_decide_eq_true htables),
    hoverall.mpr (of_decide_eq_true hall)⟩

/-- Dogs and cats both refer to their owners in a column of one name. -/
def rescues : Design where
  tables :=
    [ .create "owner" "Owner", .create "shelter" "Shelter", .create "dog" "Dog",
      .create "cat" "Cat" ]
  columns :=
    [ (Column.create "owner.id" "owner" "id" "INT").primaryKey,
      (Column.create "shelter.id" "shelter" "id" "INT").primaryKey,
      (Column.create "dog.keeper" "dog" "keeper_id" "INT").foreignKey,
      (Column.create "cat.keeper" "cat" "keeper_id" "INT").foreignKey ]
  relations :=
    [ .between .oneToMany "owner" "owner.id" "dog" "dog.keeper",
      .between .oneToMany "owner" "owner.id" "cat" "cat.keeper" ]
  inheritance := .singleTable

instance decidableNamesColumnsApart : Decidable design.NamesColumnsApart :=
  inferInstanceAs (Decidable (∀ table ∈ design.tables, _))

/-- The keeper of a dog is an owner or a shelter. -/
def sharedRescues : Design :=
  { rescues with
    relations := .between .oneToMany "shelter" "shelter.id" "dog" "dog.keeper" ::
      rescues.relations }

theorem constraint_names_meet_in_rescues :
    (¬∀ (design : Design) (ids : IdSupply) (kind : Option InheritanceKind) (compiled : Compiled),
      design.issues = [] → (design.tables.map (·.name)).Nodup → design.NamesColumnsApart →
      ids.UnusedIn design → design.compile ids ⟨.postgres, kind⟩ = .ok compiled →
      ∀ definition ∈ compiled.definitions, definition.constraintNames.Nodup) ∧
    ¬∀ (design : Design) (ids : IdSupply) (kind : Option InheritanceKind) (compiled : Compiled),
      design.issues = [] → (design.tables.map (·.name)).Nodup → design.NamesColumnsApart →
      ids.UnusedIn design → design.compile ids ⟨.mysql, kind⟩ = .ok compiled →
      (compiled.definitions.flatMap (·.constraintNames)).Nodup := by
  constructor
  · intro hall
    have hnames : (sharedRescues.compile hashes ⟨.postgres, none⟩).toOption.map
        (·.definitions.map (·.constraintNames)) =
          some [[], [], ["FK_keeper_id", "FK_keeper_id"], ["FK_keeper_id"]] := by
      decide +kernel
    obtain ⟨compiled, hcompile, hnames⟩ := exists_ok_of_toOption hnames
    have hnodup := hall sharedRescues hashes none compiled rfl (by decide) (by decide)
      (hashes_unusedIn (by decide) (by decide)) hcompile
    rw [← List.forall_mem_map (P := List.Nodup), hnames] at hnodup
    exact absurd hnodup (by decide)
  · intro hall
    have hnames : (rescues.compile hashes ⟨.mysql, none⟩).toOption.map
        (·.definitions.flatMap (·.constraintNames)) = some ["FK_keeper_id", "FK_keeper_id"] := by
      decide +kernel
    obtain ⟨compiled, hcompile, hnames⟩ := exists_ok_of_toOption hnames
    have hnodup := hall rescues hashes none compiled rfl (by decide) (by decide)
      (hashes_unusedIn (by decide) (by decide)) hcompile
    rw [hnames] at hnodup
    exact absurd hnodup (by decide)

end Design

end SchemaDesign
