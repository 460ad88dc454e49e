import SchemaDesign.Proofs.Design.Codecs
import SchemaDesign.Proofs.Json.Restored

/-!
# Designs survive the exchange

A design is read back from either of its texts.  All members of a table, a column or a relation are
written, except for texts that are absent, and these are absent in the defaults as well.  The only
thing that can get lost is a position with a number that does not read back.
-/

namespace SchemaDesign

open Json Codec

theorem RelationKind.ofName?_name (kind : RelationKind) : ofName? kind.name = some kind := by
  cases kind <;> rfl

theorem InheritanceKind.ofName?_name (kind : InheritanceKind) : ofName? kind.name = some kind := by
  cases kind <;> decide +kernel

theorem restores_relationKind (kind : RelationKind) : relationKindCodec.Restores kind :=
  restores_kind (by simp [kindOf, RelationKind.ofName?_name])

theorem restores_inheritanceKind (kind : InheritanceKind) : inheritanceKindCodec.Restores kind :=
  restores_kind (by simp [kindOf, InheritanceKind.ofName?_name])

theorem Table.restores (table : Table) (hx : number.Restores table.position.x)
    (hy : number.Restores table.position.y) : Table.codec.Restores table := by
  refine restores_record lawful_fields ?_
  refine .of_written (restores_text _) ⟨_, rfl⟩ ?_
  refine .of_written (restores_text _) ⟨_, rfl⟩ ?_
  refine .of_written hx ⟨_, rfl⟩ ?_
  refine .of_written hy ⟨_, rfl⟩ ?_
  refine .of_written (restores_flag _) ⟨_, rfl⟩ ?_
  refine .of_optionalText rfl ?_
  exact .done

theorem Column.restores (column : Column) : Column.codec.Restores column := by
  refine restores_record lawful_fields ?_
  refine .of_written (restores_text _) ⟨_, rfl⟩ ?_
  refine .of_written (restores_text _) ⟨_, rfl⟩ ?_
  refine .of_written (restores_text _) ⟨_, rfl⟩ ?_
  refine .of_written (restores_text _) ⟨_, rfl⟩ ?_
  refine .of_written (restores_flag _) ⟨_, rfl⟩ ?_
  refine .of_written (restores_flag _) ⟨_, rfl⟩ ?_
  refine .of_written (restores_flag _) ⟨_, rfl⟩ ?_
  refine .of_written (restores_flag _) ⟨_, rfl⟩ ?_
  refine .of_optionalText rfl ?_
  exact .done

theorem Relation.restores (relation : Relation) : Relation.codec.Restores relation := by
  refine restores_record lawful_fields ?_
  refine .of_written (restores_text _) ⟨_, rfl⟩ ?_
  refine .of_optionalText rfl ?_
  refine .of_written (restores_text _) ⟨_, rfl⟩ ?_
  refine .of_optionalText rfl ?_
  refine .of_written (restores_relationKind _) ⟨_, rfl⟩ ?_
  exact .done

namespace Design

/-- The numbers in the positions of the tables. -/
def coordinates (design : Design) : List Float :=
  design.tables.flatMap fun table => [table.position.x, table.position.y]

theorem restores (design : Design) (hnumbers : ∀ x ∈ design.coordinates, number.Restores x) :
    Design.codec.Restores design := by
  have htables : Table.codec.RestoresAll design.tables := by
    intro table htable
    have hx : table.position.x ∈ design.coordinates :=
      List.mem_flatMap.mpr ⟨table, htable, by simp⟩
    have hy : table.position.y ∈ design.coordinates :=
      List.mem_flatMap.mpr ⟨table, htable, by simp⟩
    exact ⟨table.restores (hnumbers _ hx) (hnumbers _ hy), _, rfl⟩
  have hcolumns : Column.codec.RestoresAll design.columns :=
    fun column _ => ⟨column.restores, _, rfl⟩
  have hrelations : Relation.codec.RestoresAll design.relations :=
    fun relation _ => ⟨relation.restores, _, rfl⟩
  refine restores_record lawful_fields ?_
  refine .of_written (restores_list Table.steady_codec htables) ⟨_, rfl⟩ ?_
  refine .of_written (restores_list Column.steady_codec hcolumns) ⟨_, rfl⟩ ?_
  refine .of_written (restores_list Relation.steady_codec hrelations) ⟨_, rfl⟩ ?_
  refine .of_written (restores_inheritanceKind _) ⟨_, rfl⟩ ?_
  exact .done

/-- Both texts of a design read back as the design, as far as the numbers of its positions do. -/
theorem exchanged_designs_read_back (design : Design)
    (hfinite : ∀ x ∈ design.coordinates, Decimal.isFinite x)
    (hreads : ∀ x ∈ design.coordinates, Decimal.isFinite x → number.ReadsBack x) :
    ofText design.compact = .ok design ∧ ofText design.pretty = .ok design := by
  have hrestores := design.restores fun x hx =>
    restores_number (hfinite x hx) (hreads x hx (hfinite x hx))
  have hprinted := hrestores.ofText_printed steady_codec rfl
  rw [compact, Value.compact_eq_printed, pretty, Value.pretty_eq_printed]
  exact ⟨hprinted .compact, hprinted .pretty⟩

/-- Names with quotes, backslashes and control characters, and positions on both sides of zero. -/
def sketch : Design where
  tables :=
    [ ((Table.create "a" "say \"hello\"").placedAt 1.5 (-0.0)).withColor "#0af",
      ((Table.create "b" "tab\tand bell\x07").placedAt (-0.1) 10000000000000000.0).asAbstract ]
  columns :=
    [ (Column.create "k" "a" "C:\\caf\u00e9" "TEXT").withDefault "'\n'",
      (Column.create "" "b" "😀" "INT").primaryKey ]
  relations := [.inherits "a" "b", .between .manyToMany "a" "k" "c" ""]
  inheritance := .concreteTable

theorem sketch_reads_back :
    ofText sketch.compact = .ok sketch ∧ ofText sketch.pretty = .ok sketch :=
  exchanged_designs_read_back sketch (by decide +kernel) (by decide +kernel)

end Design

end SchemaDesign
