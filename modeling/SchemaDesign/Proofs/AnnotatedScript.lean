import SchemaDesign.Proofs.Compilation
import SchemaDesign.Proofs.Mapping.Kept
import SchemaDesign.Proofs.Mapping.Root
import SchemaDesign.Proofs.Text.Parts

/-!
# Annotated scripts

In an annotated script a comment with its label stands above each statement.  The comment is one
line exactly when no line break is in the label, and only then the statement is what is left without
the first line.

Labels are made from the names of tables as they are.  The names that get there are those of the
tables that stay when the hierarchies are mapped, alone or in the name of a junction.  So an
annotated script comes down to the plain script exactly when none of these names has a line break.
-/

namespace SchemaDesign

/-! ### First lines -/

namespace Text

variable {line rest between : List Char} {texts parts : List (List Char)}

/-- What is left of a text without its first line and the end of that line. -/
def afterFirstLine (text : List Char) : List Char :=
  (text.dropWhile (· ≠ '\n')).tail

theorem afterFirstLine_append (hline : '\n' ∉ line) :
    afterFirstLine (line ++ '\n' :: rest) = rest := by
  have hrest : ∀ c ∈ ('\n' :: rest).head?, decide (c ≠ '\n') = false := by simp
  rw [afterFirstLine, dropWhile_run (run_before_iff.mpr hline) hrest, List.tail_cons]

theorem suffix_afterFirstLine (line rest : List Char) :
    rest <:+ afterFirstLine (line ++ '\n' :: rest) := by
  by_cases hline : '\n' ∈ line
  · obtain ⟨first, more, rfl, hfirst⟩ := List.eq_append_cons_of_mem hline
    rw [List.append_assoc, List.cons_append, afterFirstLine_append hfirst]
    exact (List.suffix_cons '\n' rest).trans (List.suffix_append more _)
  · rw [afterFirstLine_append hline]

theorem afterFirstLine_eq_iff (line rest : List Char) :
    afterFirstLine (line ++ '\n' :: rest) = rest ↔ '\n' ∉ line := by
  refine ⟨fun hrest hline => ?_, afterFirstLine_append⟩
  obtain ⟨first, more, rfl, hfirst⟩ := List.eq_append_cons_of_mem hline
  rw [List.append_assoc, List.cons_append, afterFirstLine_append hfirst] at hrest
  have hlength := congrArg List.length hrest
  simp at hlength
  omega

theorem length_intercalate_le (between : List Char) (h : List.Forall₂ (· <:+ ·) texts parts) :
    (between.intercalate texts).length ≤ (between.intercalate parts).length := by
  induction h with
  | nil => exact Nat.le_refl _
  | @cons text part texts parts hsuffix hothers ih =>
      have hle := hsuffix.length_le
      cases hothers with
      | nil => simpa using hle
      | cons _ _ =>
          rw [List.intercalate_cons_cons, List.intercalate_cons_cons]
          simp only [List.length_append] at ih ⊢
          omega

/-- Texts that are shorter somewhere make a shorter whole. -/
theorem eq_of_intercalate_eq (h : List.Forall₂ (· <:+ ·) texts parts)
    (hsame : between.intercalate parts = between.intercalate texts) : parts = texts := by
  induction h with
  | nil => rfl
  | @cons text part texts parts hsuffix hothers ih =>
      have hothersLe := length_intercalate_le between hothers
      cases hothers with
      | nil => simpa using hsame
      | cons _ _ =>
          rw [List.intercalate_cons_cons, List.intercalate_cons_cons] at hsame
          have hlength := congrArg List.length hsame
          have hle := hsuffix.length_le
          simp only [List.length_append] at hlength
          obtain rfl : text = part := hsuffix.eq_of_length (by omega)
          rw [ih (List.append_cancel_left hsame)]

end Text

def withoutFirstLine (text : String) : String :=
  String.ofList (Text.afterFirstLine text.toList)

/-! ### Comments -/

/-- Above the statement stands one comment line, and nothing else. -/
def HasCommentLine (part sql : String) : Prop :=
  ∃ comment : String, '\n' ∉ comment.toList ∧ part = "-- " ++ comment ++ "\n" ++ sql

namespace Statement

variable (statement : Statement)

def annotated (statement : Statement) : String :=
  "-- " ++ statement.label ++ "\n" ++ statement.sql

theorem toList_annotated : statement.annotated.toList =
    ("-- ".toList ++ statement.label.toList) ++ '\n' :: statement.sql.toList := by
  simp [annotated, String.toList_append]

theorem hasCommentLine_iff :
    HasCommentLine statement.annotated statement.sql ↔ '\n' ∉ statement.label.toList := by
  constructor
  · rintro ⟨comment, hcomment, hpart⟩
    rw [annotated, String.append_left_inj, String.append_left_inj, String.append_right_inj] at hpart
    rwa [hpart]
  · exact fun hlabel => ⟨statement.label, hlabel, rfl⟩

theorem suffix_withoutFirstLine :
    statement.sql.toList <:+ (withoutFirstLine statement.annotated).toList := by
  rw [withoutFirstLine, String.toList_ofList, toList_annotated]
  exact Text.suffix_afterFirstLine _ _

theorem withoutFirstLine_annotated_iff :
    withoutFirstLine statement.annotated = statement.sql ↔ '\n' ∉ statement.label.toList := by
  rw [← String.toList_inj, withoutFirstLine, String.toList_ofList, toList_annotated,
    Text.afterFirstLine_eq_iff]
  simp

end Statement

namespace Compiled

variable (compiled : Compiled)

/-- What stands in the annotated script for each statement. -/
def annotatedParts (compiled : Compiled) : List String :=
  compiled.statements.map (·.annotated)

/-- Without the comments an annotated script is the plain one exactly when each comment is one
line; a longer comment leaves something behind. -/
theorem intercalate_withoutFirstLine_iff (separator : String) :
    separator.intercalate (compiled.annotatedParts.map withoutFirstLine) =
        compiled.script separator ↔
      ∀ statement ∈ compiled.statements, '\n' ∉ statement.label.toList := by
  constructor
  · intro hscript
    have hsuffixes : List.Forall₂ (· <:+ ·)
        ((compiled.statements.map (·.sql)).map String.toList)
        ((compiled.annotatedParts.map withoutFirstLine).map String.toList) := by
      simp only [annotatedParts, List.forall₂_map_left_iff, List.forall₂_map_right_iff,
        List.forall₂_same]
      exact fun statement _ => statement.suffix_withoutFirstLine
    rw [script, ← String.toList_inj, String.toList_intercalate, String.toList_intercalate]
      at hscript
    have hparts := Text.eq_of_intercalate_eq hsuffixes hscript
    rw [List.map_inj_right fun _ _ => String.toList_inj.mp, annotatedParts, List.map_map,
      List.map_inj_left] at hparts
    exact fun statement hmem => statement.withoutFirstLine_annotated_iff.mp (hparts statement hmem)
  · intro hlabels
    rw [script, annotatedParts, List.map_map]
    congr 1
    apply List.map_congr_left
    exact fun statement hmem =>
      statement.withoutFirstLine_annotated_iff.mpr (hlabels statement hmem)

end Compiled

/-! ### Names in labels -/

namespace Design

variable {design normal : Design} {ids : IdSupply} {options : CompileOptions} {compiled : Compiled}

/-- The table is still there when the hierarchies are mapped. -/
def Stays (design : Design) (table : Table) : Prop :=
  match design.inheritance with
  | .singleTable => design.HasRoot table.id table.id
  | .classTable => True
  | .concreteTable => ¬table.isAbstract

theorem keeps_iff_stays {lineage : Lineage} (hlineage : Lineage.of design = .ok lineage)
    (table : Table) : design.inheritance.keeps lineage table ↔ design.Stays table := by
  unfold InheritanceKind.keeps Stays
  cases design.inheritance with
  | singleTable => exact lineage.isRoot_iff_hasRoot hlineage table.id
  | classTable => simp
  | concreteTable => simp

theorem exists_sides_of_mem_junctionTables {table : Table}
    (hmem : table ∈ design.junctionTables ids) :
    ∃ source ∈ design.tables, ∃ target ∈ design.tables,
      table.name = source.name ++ "_" ++ target.name := by
  obtain ⟨x, hx, rfl⟩ := List.mem_map.mp hmem
  obtain ⟨relation, _, hjunction⟩ := List.mem_filterMap.mp (List.fst_mem_of_mem_zipIdx hx)
  obtain ⟨_, ⟨hsource, _⟩, htarget, _⟩ := junction?_eq_some hjunction
  exact ⟨_, (mem_of_table? hsource).1, _, (mem_of_table? htarget).1, rfl⟩

theorem forall_name_expandJunctions_iff (ids : IdSupply) :
    (∀ table ∈ (design.expandJunctions ids).tables, '\n' ∉ table.name.toList) ↔
      ∀ table ∈ design.tables, '\n' ∉ table.name.toList := by
  rw [expandJunctions_tables, List.forall_mem_append]
  refine ⟨And.left, fun hnames => ⟨hnames, fun table hmem => ?_⟩⟩
  obtain ⟨source, hsource, target, htarget, hname⟩ := exists_sides_of_mem_junctionTables hmem
  simp [hname, hnames source hsource, hnames target htarget]

theorem forall_name_of_normalize (hnormal : design.normalize ids = .ok normal) :
    (∀ table ∈ normal.tables, '\n' ∉ table.name.toList) ↔
      ∀ table ∈ design.tables, design.Stays table → '\n' ∉ table.name.toList := by
  obtain ⟨lineage, hlineage, rfl⟩ := exists_lineage_of_normalize hnormal
  rw [forall_name_expandJunctions_iff, tables_mapInheritance]
  simp only [List.mem_filter, keeps_iff_stays hlineage, and_imp]

theorem forall_label_iff (design : Design) (dialect : Dialect) :
    (∀ statement ∈ design.statements dialect, '\n' ∉ statement.label.toList) ↔
      ∀ table ∈ design.tables, '\n' ∉ table.name.toList := by
  have hpreamble : ∀ statement ∈ preambleStatements dialect, '\n' ∉ statement.label.toList := by
    intro statement hmem
    unfold preambleStatements at hmem
    split at hmem
    · cases hmem
    · rw [List.mem_singleton.mp hmem]
      simp
  rw [statements, List.forall_mem_append, and_iff_right hpreamble, List.forall_mem_map]
  simp [tableStatement]

theorem forall_label_of_compile (hcompile : design.compile ids options = .ok compiled) :
    (∀ statement ∈ compiled.statements, '\n' ∉ statement.label.toList) ↔
      ∀ table ∈ design.tables, (design.withInheritance options.inheritance).Stays table →
        '\n' ∉ table.name.toList := by
  rw [compile_eq] at hcompile
  obtain ⟨normal, hnormal, hsteps⟩ := exists_of_bind_eq_ok hcompile
  obtain rfl := Except.ok.inj hsteps
  rw [forall_label_iff, forall_name_of_normalize hnormal]
  exact Iff.rfl

/-- The part of a statement is one comment line above it exactly when its label has no line break.
This holds of all statements, and without its comments the annotated script is the plain one,
exactly when no table that stays has a line break in its name. -/
theorem annotated_scripts_of_compiled_designs
    (hcompile : design.compile ids options = .ok compiled) (separator : String) :
    compiled.annotatedScript separator = separator.intercalate compiled.annotatedParts ∧
    (∀ statement ∈ compiled.statements,
      HasCommentLine statement.annotated statement.sql ↔ '\n' ∉ statement.label.toList) ∧
    ((∀ statement ∈ compiled.statements, HasCommentLine statement.annotated statement.sql) ↔
      ∀ table ∈ design.tables, (design.withInheritance options.inheritance).Stays table →
        '\n' ∉ table.name.toList) ∧
    (separator.intercalate (compiled.annotatedParts.map withoutFirstLine) =
        compiled.script separator ↔
      ∀ table ∈ design.tables, (design.withInheritance options.inheritance).Stays table →
        '\n' ∉ table.name.toList) := by
  refine ⟨rfl, fun statement _ => statement.hasCommentLine_iff, ?_, ?_⟩
  · simp only [Statement.hasCommentLine_iff]
    exact forall_label_of_compile hcompile
  · rw [compiled.intercalate_withoutFirstLine_iff]
    exact forall_label_of_compile hcompile

/-- The name of the abstract table is written on two lines. -/
def stationery : Design where
  tables :=
    [(Table.create "paper" "Paper\nThing").asAbstract, .create "note" "Note", .create "tag" "Tag"]
  columns :=
    [ (Column.create "paper.id" "paper" "id" "INT").primaryKey,
      (Column.create "note.id" "note" "id" "INT").primaryKey,
      (Column.create "tag.id" "tag" "id" "INT").primaryKey ]
  relations :=
    [ .inherits "note" "paper",
      .between .manyToMany "note" "note.id" "tag" "tag.id" ]
  inheritance := .concreteTable

theorem labels_of_stationery :
    (stationery.compile hashes ⟨.sqlite, some .classTable⟩).toOption.map
      (·.statements.map (·.label)) =
        some ["Preamble", "Table Paper\nThing", "Table Note", "Table Tag", "Table Note_Tag"] := by
  decide +kernel

theorem annotated_scripts_of_stationery :
    (∃ compiled, stationery.compile hashes ⟨.postgres, none⟩ = .ok compiled ∧
      compiled.statements.map (·.label) = ["Table Note", "Table Tag", "Table Note_Tag"] ∧
      "\n\n".intercalate (compiled.annotatedParts.map withoutFirstLine) =
        compiled.script "\n\n") ∧
    ∃ compiled, stationery.compile hashes ⟨.sqlite, some .classTable⟩ = .ok compiled ∧
      "\n\n".intercalate (compiled.annotatedParts.map withoutFirstLine) ≠
        compiled.script "\n\n" := by
  constructor
  · have hlabels : (stationery.compile hashes ⟨.postgres, none⟩).toOption.map
        (·.statements.map (·.label)) = some ["Table Note", "Table Tag", "Table Note_Tag"] := by
      decide +kernel
    obtain ⟨compiled, hcompile, hlabels⟩ := exists_ok_of_toOption hlabels
    obtain ⟨_, _, _, hscript⟩ := annotated_scripts_of_compiled_designs hcompile "\n\n"
    refine ⟨compiled, hcompile, hlabels, hscript.mpr ?_⟩
    intro table hmem hstays
    have hconcrete : ∀ table ∈ stationery.tables, ¬table.isAbstract →
        '\n' ∉ table.name.toList := by
      decide
    exact hconcrete table hmem hstays
  · obtain ⟨compiled, hcompile, _⟩ := exists_ok_of_toOption labels_of_stationery
    obtain ⟨_, _, _, hscript⟩ := annotated_scripts_of_compiled_designs hcompile "\n\n"
    refine ⟨compiled, hcompile, fun hsame => ?_⟩
    have hname := hscript.mp hsame (Table.create "paper" "Paper\nThing").asAbstract
      (by simp [stationery]) trivial
    exact absurd hname (by decide)

theorem not_all_comments_on_one_line :
    (¬∀ (design : Design) (ids : IdSupply) (options : CompileOptions) (compiled : Compiled),
      design.compile ids options = .ok compiled →
      ∀ statement ∈ compiled.statements, HasCommentLine statement.annotated statement.sql) ∧
    ¬∀ (design : Design) (ids : IdSupply) (options : CompileOptions) (compiled : Compiled),
      design.compile ids options = .ok compiled → ∀ separator : String,
      separator.intercalate (compiled.annotatedParts.map withoutFirstLine) =
        compiled.script separator := by
  obtain ⟨compiled, hcompile, hlabels⟩ := exists_ok_of_toOption labels_of_stationery
  have hbroken : ¬∀ statement ∈ compiled.statements, '\n' ∉ statement.label.toList := by
    rw [← List.forall_mem_map (f := Statement.label) (P := fun label => '\n' ∉ label.toList),
      hlabels]
    decide
  constructor
  · intro hall
    have hlines := hall stationery hashes ⟨.sqlite, some .classTable⟩ compiled hcompile
    simp only [Statement.hasCommentLine_iff] at hlines
    exact hbroken hlines
  · intro hall
    have hscript := hall stationery hashes ⟨.sqlite, some .classTable⟩ compiled hcompile "\n\n"
    exact hbroken ((compiled.intercalate_withoutFirstLine_iff "\n\n").mp hscript)

end Design

end SchemaDesign
