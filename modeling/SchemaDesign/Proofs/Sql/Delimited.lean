import SchemaDesign.Proofs.Sql.ForeignKey

/-!
# Delimited names in statements

Behind an opening quote the doubled quotes of a name and the closing quote can be told apart as long
as no further quote follows.  So a delimited name is read from the front of a text exactly where it
stands there, and what follows it is left.

A definition of a table names tables in two places: behind its first words, and in the target of
each foreign key.  Both times the name is followed by a character that is no quote, so it reads back
whatever it holds.
-/

namespace SchemaDesign

namespace Sql

variable {quote : Char} {name rest text : List Char}

/-! ### Reading a delimited name -/

theorem undelimitedRest?_end (hrest : rest.head? ≠ some quote) :
    undelimitedRest? quote (quote :: rest) = some ([], rest) := by
  cases rest with
  | nil => simp [undelimitedRest?]
  | cons c rest =>
      have hc : c ≠ quote := by simpa using hrest
      simp [undelimitedRest?, hc]

theorem undelimitedRest?_quote (quote : Char) (text : List Char) :
    undelimitedRest? quote (quote :: quote :: text) =
      (undelimitedRest? quote text).map fun (name, rest) => (quote :: name, rest) := by
  simp [undelimitedRest?]

theorem undelimitedRest?_plain {c : Char} (hc : c ≠ quote) (text : List Char) :
    undelimitedRest? quote (c :: text) =
      (undelimitedRest? quote text).map fun (name, rest) => (c :: name, rest) := by
  cases text <;> simp [undelimitedRest?, hc]

theorem undelimitedRest?_doubled (name : List Char) (hrest : rest.head? ≠ some quote) :
    undelimitedRest? quote (doubled quote name ++ quote :: rest) = some (name, rest) := by
  induction name with
  | nil => exact undelimitedRest?_end hrest
  | cons c name ih =>
      rw [doubled]
      by_cases hc : c = quote
      · rw [if_pos hc, List.cons_append, List.cons_append, undelimitedRest?_quote, ih, hc]
        rfl
      · rw [if_neg hc, List.cons_append, undelimitedRest?_plain hc, ih]
        rfl

/-- The cases are those of the reading: the text ends too early, it ends with the closing quote, a
doubled quote, a closing quote with more behind it, and any other character. -/
theorem eq_of_undelimitedRest? (h : undelimitedRest? quote text = some (name, rest)) :
    text = doubled quote name ++ quote :: rest ∧ rest.head? ≠ some quote := by
  fun_induction undelimitedRest? quote text generalizing name with
  | case1 => cases h
  | case2 =>
      cases h
      exact ⟨rfl, by simp⟩
  | case3 others ih =>
      obtain ⟨⟨name', rest'⟩, hread, hname⟩ := Option.map_eq_some_iff.mp h
      cases hname
      obtain ⟨rfl, hrest⟩ := ih hread
      exact ⟨by simp [doubled], hrest⟩
  | case4 d others hd =>
      cases h
      exact ⟨rfl, by simpa using hd⟩
  | case5 c others hc ih =>
      obtain ⟨⟨name', rest'⟩, hread, hname⟩ := Option.map_eq_some_iff.mp h
      cases hname
      obtain ⟨rfl, hrest⟩ := ih hread
      exact ⟨by simp [doubled, hc], hrest⟩

theorem undelimited?_eq_some_iff :
    undelimited? quote text = some (name, rest) ↔
      text = quote :: (doubled quote name ++ quote :: rest) ∧ rest.head? ≠ some quote := by
  constructor
  · intro h
    cases text with
    | nil => cases h
    | cons c text =>
        rw [undelimited?] at h
        split at h
        · obtain ⟨rfl, hrest⟩ := eq_of_undelimitedRest? h
          subst c
          exact ⟨rfl, hrest⟩
        · cases h
  · rintro ⟨rfl, hrest⟩
    rw [undelimited?, if_pos rfl, undelimitedRest?_doubled name hrest]

end Sql

namespace Dialect

open Sql (doubled)

variable {dialect : Dialect} {name rest text : String}

/-- Reads a delimited name of the dialect from the front of a text. -/
def undelimited? (dialect : Dialect) (text : String) : Option (String × String) :=
  (Sql.undelimited? dialect.rules.quote text.toList).map fun (name, rest) =>
    (String.ofList name, String.ofList rest)

theorem toList_delimited (dialect : Dialect) (name : String) :
    (dialect.delimited name).toList = dialect.rules.quote ::
      (doubled dialect.rules.quote name.toList ++ [dialect.rules.quote]) := by
  rw [delimited, Sql.delimited, String.toList_ofList]

/-- A name is read exactly where it stands delimited, with no further quote behind it. -/
theorem undelimited?_eq_some_iff :
    dialect.undelimited? text = some (name, rest) ↔
      text = dialect.delimited name ++ rest ∧ rest.toList.head? ≠ some dialect.rules.quote := by
  have htext : text = dialect.delimited name ++ rest ↔ text.toList = dialect.rules.quote ::
      (doubled dialect.rules.quote name.toList ++ dialect.rules.quote :: rest.toList) := by
    rw [← String.toList_inj, String.toList_append, toList_delimited]
    simp
  rw [htext, ← Sql.undelimited?_eq_some_iff, undelimited?, Option.map_eq_some_iff]
  constructor
  · rintro ⟨⟨name', rest'⟩, hread, hparts⟩
    cases hparts
    rwa [String.toList_ofList, String.toList_ofList]
  · intro hread
    refine ⟨_, hread, ?_⟩
    simp only [String.ofList_toList]

theorem delimited_ne {name' : String} (hname : name ≠ name') (other : Dialect) :
    dialect.delimited name ≠ other.delimited name' := by
  intro heq
  have hquotes : dialect.rules.quote = other.rules.quote := by
    have hlists := congrArg String.toList heq
    rw [toList_delimited, toList_delimited] at hlists
    exact (List.cons.inj hlists).1
  have hread : dialect.undelimited? (dialect.delimited name) = some (name, "") :=
    undelimited?_eq_some_iff.mpr ⟨String.append_empty.symm, by simp⟩
  have hread' : dialect.undelimited? (dialect.delimited name) = some (name', "") := by
    rw [undelimited?_eq_some_iff, heq, delimited, delimited, hquotes]
    exact ⟨String.append_empty.symm, by simp⟩
  rw [hread] at hread'
  exact hname (congrArg Prod.fst (Option.some.inj hread'))

/-- The characters that stand behind delimited names in statements. -/
theorem quote_ne (dialect : Dialect) : dialect.rules.quote ≠ ' ' ∧ dialect.rules.quote ≠ '(' := by
  cases dialect <;> decide

theorem undelimited?_delimited {c : Char} (hc : dialect.rules.quote ≠ c) (name : String)
    {front : String} (hfront : front.toList.head? = some c) (back : String) :
    dialect.undelimited? (dialect.delimited name ++ (front ++ back)) =
      some (name, front ++ back) := by
  refine undelimited?_eq_some_iff.mpr ⟨rfl, ?_⟩
  rw [String.toList_append, List.head?_append, hfront, Option.some_or]
  exact fun heq => hc (Option.some.inj heq).symm

end Dialect

namespace Sql

variable {dialect : Dialect} {key : ForeignKey}

/-! ### Delimited names in a statement -/

/-- The name of the table reads back from behind the first words.  The line of a key ends with its
target, so this stands behind the other words of the line, and the name in it reads back from
there. -/
structure NamesRead (dialect : Dialect) (sql name : String)
    (lines : List (String × Option ForeignKey)) : Prop where
  table : ∃ rest after, sql = "CREATE TABLE " ++ rest ∧
    dialect.undelimited? rest = some (name, " (\n" ++ after)
  targets : ∀ before line key after, lines = before ++ (line, some key) :: after →
    ∃ words rest tail, line = words ++ key.references.text dialect ∧
      sql = "CREATE TABLE " ++ dialect.delimited name ++ " (\n" ++
        String.join (before.map fun earlier => earlier.1 ++ ",\n") ++ words ++
          "REFERENCES " ++ rest ∧
      dialect.undelimited? rest =
        some (key.references.table, "(" ++ key.references.column ++ ")" ++ tail)

theorem exists_intercalate_append (separator line : String) (before after : List String) :
    ∃ tail, separator.intercalate (before ++ line :: after) =
      String.join (before.map (· ++ separator)) ++ (line ++ tail) := by
  induction before with
  | nil =>
      cases after with
      | nil => exact ⟨"", by simp⟩
      | cons next after =>
          exact ⟨separator ++ separator.intercalate (next :: after), by simp [String.append_assoc]⟩
  | cons first before ih =>
      obtain ⟨tail, htail⟩ := ih
      have hne : before ++ line :: after ≠ [] := by simp
      refine ⟨tail, ?_⟩
      rw [List.cons_append, String.intercalate_cons_of_ne_nil hne, htail, List.map_cons,
        String.join_cons, ← String.append_assoc]

theorem ColumnDefinition.exists_words {column : ColumnDefinition}
    (h : column.foreignKey? = some key) :
    ∃ words, column.text dialect = words ++ key.references.text dialect := by
  obtain ⟨target, htarget, rfl⟩ := Option.map_eq_some_iff.mp h
  rw [ColumnDefinition.text, htarget]
  exact ⟨_, (String.append_assoc ..).symm⟩

theorem Constraint.exists_words {constraint : Constraint} (h : constraint.foreignKey? = some key) :
    ∃ words, constraint.text dialect = words ++ key.references.text dialect := by
  cases constraint with
  | primaryKey columns => cases h
  | foreignKey name column references =>
      cases h
      exact ⟨_, rfl⟩

namespace CreateTable

variable {table : CreateTable}

/-- The lines of the definition, each with the key that stands on it. -/
def keyLines (dialect : Dialect) (table : CreateTable) : List (String × Option ForeignKey) :=
  table.columns.map (fun column => ("  " ++ column.text dialect, column.foreignKey?)) ++
    table.constraints.map fun constraint =>
      ("  " ++ constraint.text dialect, constraint.foreignKey?)

theorem map_fst_keyLines (dialect : Dialect) (table : CreateTable) :
    (table.keyLines dialect).map Prod.fst = table.lines dialect := by
  simp [keyLines, lines, Function.comp_def]

theorem filterMap_snd_keyLines (dialect : Dialect) (table : CreateTable) :
    (table.keyLines dialect).filterMap Prod.snd = table.foreignKeys := by
  simp [keyLines, foreignKeys, List.filterMap_map]

theorem exists_words {line : String} (h : (line, some key) ∈ table.keyLines dialect) :
    ∃ words, line = words ++ key.references.text dialect := by
  rcases List.mem_append.mp h with h | h
  · obtain ⟨column, _, hline⟩ := List.mem_map.mp h
    obtain ⟨rfl, hkey⟩ := Prod.mk.inj hline
    obtain ⟨words, hwords⟩ := ColumnDefinition.exists_words hkey
    exact ⟨_, by rw [hwords, ← String.append_assoc]⟩
  · obtain ⟨constraint, _, hline⟩ := List.mem_map.mp h
    obtain ⟨rfl, hkey⟩ := Prod.mk.inj hline
    obtain ⟨words, hwords⟩ := Constraint.exists_words hkey
    exact ⟨_, by rw [hwords, ← String.append_assoc]⟩

theorem exists_text_eq (dialect : Dialect) (table : CreateTable) :
    ∃ tail, table.text dialect = "CREATE TABLE " ++ dialect.delimited table.name ++ " (\n" ++
      ",\n".intercalate (table.lines dialect) ++ tail := by
  have htext : table.text dialect = "CREATE TABLE " ++ dialect.delimited table.name ++ " (\n" ++
      ",\n".intercalate (table.lines dialect) ++ "\n)" ++ dialect.tableSuffix ++ ";" := rfl
  rw [String.append_assoc, String.append_assoc] at htext
  exact ⟨_, htext⟩

/-- What stands before a line of the definition, and the line itself. -/
theorem exists_text_eq_line {before after : List (String × Option ForeignKey)} {line : String}
    {found : Option ForeignKey}
    (hlines : table.keyLines dialect = before ++ (line, found) :: after) :
    ∃ tail, table.text dialect = "CREATE TABLE " ++ dialect.delimited table.name ++ " (\n" ++
      String.join (before.map fun earlier => earlier.1 ++ ",\n") ++ line ++ tail := by
  obtain ⟨closing, htext⟩ := exists_text_eq dialect table
  obtain ⟨tail, hlater⟩ :=
    exists_intercalate_append ",\n" line (before.map Prod.fst) (after.map Prod.fst)
  have hall : table.lines dialect = before.map Prod.fst ++ line :: after.map Prod.fst := by
    rw [← map_fst_keyLines, hlines, List.map_append, List.map_cons]
  rw [← hall, List.map_map] at hlater
  refine ⟨tail ++ closing, ?_⟩
  rw [htext, hlater]
  simp only [String.append_assoc, Function.comp_def]

theorem namesRead_text (dialect : Dialect) (table : CreateTable) :
    NamesRead dialect (table.text dialect) table.name (table.keyLines dialect) := by
  obtain ⟨hblank, hparenthesis⟩ := dialect.quote_ne
  have hlines : " (\n".toList.head? = some ' ' := by decide
  have hcolumn : "(".toList.head? = some '(' := by decide
  constructor
  case table =>
    obtain ⟨tail, htext⟩ := exists_text_eq dialect table
    simp only [String.append_assoc] at htext
    exact ⟨_, _, htext, Dialect.undelimited?_delimited hblank table.name hlines _⟩
  case targets =>
    intro before line key after hsplit
    have hmem : (line, some key) ∈ table.keyLines dialect := by
      rw [hsplit]
      exact List.mem_append_right _ List.mem_cons_self
    obtain ⟨words, hwords⟩ := exists_words hmem
    obtain ⟨tail, htext⟩ := exists_text_eq_line hsplit
    have htarget : key.references.text dialect = "REFERENCES " ++
        dialect.delimited key.references.table ++ "(" ++ key.references.column ++ ")" := rfl
    have hread := Dialect.undelimited?_delimited hparenthesis key.references.table hcolumn
      (key.references.column ++ ")" ++ tail)
    rw [hwords, htarget] at htext
    simp only [String.append_assoc] at htext hread ⊢
    exact ⟨words, _, tail, hwords, htext, hread⟩

end CreateTable

end Sql

open Sql

namespace Design

variable {design : Design} {dialect : Dialect} {table : Table} {key : ForeignKey}

theorem exists_target_of_mem_foreignKeysIn (h : key ∈ design.foreignKeysIn dialect table) :
    ∃ target ∈ design.tables, target.name = key.references.table := by
  obtain ⟨relation, hbacks⟩ := exists_backs_of_mem_foreignKeys h
  have hreferences := hbacks.references
  simp only [referencedKey?, Option.bind_eq_bind, Option.bind_eq_some_iff, Option.pure_def,
    Option.some.injEq] at hreferences
  obtain ⟨target, htarget, _, _, _, _, hreference⟩ := hreferences
  exact ⟨target, List.mem_of_find?_eq_some htarget, by rw [← hreference]⟩

/-- Names are read exactly where they stand delimited, and different names are never delimited
alike.  In every definition of a table, and so in the statements of every design, the name of the
table and those of the tables that its keys refer to read back whatever characters they hold. -/
theorem delimited_names_of_statements (dialect : Dialect) :
    (∀ text name rest, dialect.undelimited? text = some (name, rest) ↔
      text = dialect.delimited name ++ rest ∧ rest.toList.head? ≠ some dialect.rules.quote) ∧
    (∀ (other : Dialect) name name', name ≠ name' →
      dialect.delimited name ≠ other.delimited name') ∧
    (∀ table : CreateTable,
      NamesRead dialect (table.text dialect) table.name (table.keyLines dialect) ∧
      (table.keyLines dialect).filterMap Prod.snd = table.foreignKeys) ∧
    ∀ design : Design, ∃ made, design.statements dialect = preambleStatements dialect ++ made ∧
      List.Forall₂ (fun table statement =>
        NamesRead dialect statement.sql table.name
            ((design.createTable dialect.foreignKeys table).keyLines dialect) ∧
          ∀ key ∈ design.foreignKeysIn dialect table,
            ∃ target ∈ design.tables, target.name = key.references.table) design.tables made := by
  refine ⟨fun _ _ _ => Dialect.undelimited?_eq_some_iff, fun other _ _ hname =>
    Dialect.delimited_ne hname other, fun table => ?_, fun design => ?_⟩
  · exact ⟨CreateTable.namesRead_text dialect table, table.filterMap_snd_keyLines dialect⟩
  refine ⟨design.tables.map (design.tableStatement dialect), rfl, ?_⟩
  rw [List.forall₂_map_right_iff, List.forall₂_same]
  intro table _
  exact ⟨CreateTable.namesRead_text dialect (design.createTable dialect.foreignKeys table),
    fun _ => exists_target_of_mem_foreignKeysIn⟩

/-- One table has a name of quotes only, and the other one a name with quotes at both ends. -/
def quotations : Design where
  tables := [.create "speech" "\"\x60\"\"", .create "quotation" "\x60\"said\"\x60"]
  columns :=
    [ (Column.create "speech.id" "speech" "id" "INT").primaryKey,
      (Column.create "quotation.id" "quotation" "id" "INT").primaryKey,
      (Column.create "quotation.speech" "quotation" "speech_id" "INT").foreignKey ]
  relations := [.between .oneToMany "speech" "speech.id" "quotation" "quotation.speech"]
  inheritance := .singleTable

theorem names_of_quotations :
    Dialect.mysql.delimited "\x60\"" ≠ Dialect.postgres.delimited "\"\x60" ∧
    ∃ statement ∈ quotations.statements .mysql,
      (∃ rest after, statement.sql = "CREATE TABLE " ++ rest ∧
        Dialect.mysql.undelimited? rest = some ("\x60\"said\"\x60", " (\n" ++ after)) ∧
      ∃ before rest after, statement.sql = before ++ "REFERENCES " ++ rest ∧
        Dialect.mysql.undelimited? rest = some ("\"\x60\"\"", "(" ++ "id" ++ ")" ++ after) := by
  obtain ⟨_, hdifferent, _, hdesigns⟩ := delimited_names_of_statements .mysql
  refine ⟨hdifferent .postgres _ _ (by decide), ?_⟩
  obtain ⟨made, hstatements, hmade⟩ := hdesigns quotations
  obtain _ | ⟨_, _ | ⟨⟨hread, _⟩, _⟩⟩ := hmade
  obtain ⟨words, rest, tail, _, htext, htarget⟩ := hread.targets
    [("  id INT PRIMARY KEY", none), ("  speech_id INT", none)] _ _ [] rfl
  exact ⟨_, by simp [hstatements], hread.table, _, rest, tail, htext, htarget⟩

end Design

end SchemaDesign
