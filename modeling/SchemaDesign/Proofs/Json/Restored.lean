import SchemaDesign.Proofs.Json.Fields

/-!
# What is read back

A codec restores a value if what it writes is read as the value again.  A list is restored if its
items are.  A record is restored if its members fill the default: a member that is written puts its
value into the record read so far, and a member that is not written stands for a value that is
already there.
-/

namespace SchemaDesign.Json.Codec

open Reader

variable {α ρ : Type}

/-- What is written for the value is well-formed and read as the value. -/
def Restores (codec : Codec α) (x : α) : Prop :=
  ∀ v, codec.write x = some v → v.isWellFormed ∧ reading codec.fromText v = some x

theorem Restores.ofText_printed {codec : Codec α} {x : α} (hrestores : codec.Restores x)
    (hsteady : Steady codec.fromText) {v : Value} (hwrite : codec.write x = some v)
    (spacing : Spacing) : codec.ofText (spacing.printed v) = .ok x := by
  obtain ⟨hv, hread⟩ := hrestores v hwrite
  have hprinted := (hsteady.toOption_printed hv spacing).trans hread
  unfold ofText
  cases hwhole : whole codec.fromText (spacing.printed v) with
  | error fault =>
      rw [hwhole] at hprinted
      cases hprinted
  | ok found =>
      rw [hwhole] at hprinted
      rw [Option.some.inj hprinted]

/-! ### Scalars, kinds and lists -/

theorem restores_scalar {write : α → Option Value} {decode : Value → Option α} {x : α}
    (hdecode : ∀ v, write x = some v → v.isWellFormed ∧ v.fits 0 ∧ decode v = some x) :
    (scalar write decode).Restores x := by
  intro v hv
  obtain ⟨hwell, hfits, hfound⟩ := hdecode v hv
  refine ⟨hwell, ?_⟩
  rw [reading_scalar hwell, if_pos hfits, hfound]

theorem restores_text (x : String) : Codec.text.Restores x := by
  apply restores_scalar
  rintro v ⟨⟩
  exact ⟨rfl, rfl, rfl⟩

theorem restores_flag (x : Bool) : flag.Restores x := by
  apply restores_scalar
  rintro v ⟨⟩
  exact ⟨rfl, rfl, rfl⟩

theorem restores_optionalText (x : Option String) : optionalText.Restores x := by
  apply restores_scalar
  intro v hv
  obtain ⟨value, rfl, rfl⟩ := Option.map_eq_some_iff.mp hv
  exact ⟨rfl, rfl, rfl⟩

theorem restores_kind {depth : Nat} {name : α → String} {decode : Value → α} {x : α}
    (hname : decode (.text (name x)) = x) : (kind depth name decode).Restores x := by
  rintro v ⟨⟩
  refine ⟨rfl, ?_⟩
  have hfits : (Value.text (name x)).fits depth = true := by cases depth <;> rfl
  rw [reading_kind rfl, if_pos hfits, hname]

/-- The items are written, and each of them is restored. -/
def RestoresAll (element : Codec α) (values : List α) : Prop :=
  ∀ x ∈ values, element.Restores x ∧ ∃ v, element.write x = some v

theorem mapM_reading {element : Codec α} {values : List α}
    (hvalues : element.RestoresAll values) :
    (values.filterMap element.write).mapM (reading element.fromText) = some values := by
  induction values with
  | nil => rfl
  | cons x values ih =>
      obtain ⟨hrestores, v, hv⟩ := hvalues x List.mem_cons_self
      have hmore := ih fun y hy => hvalues y (List.mem_cons_of_mem _ hy)
      rw [List.filterMap_cons_some hv, List.mapM_cons, (hrestores v hv).2, hmore]
      rfl

theorem restores_list {element : Codec α} (hsteady : Steady element.fromText) {values : List α}
    (hvalues : element.RestoresAll values) : (list element).Restores values := by
  rintro v ⟨⟩
  have hwell : (Value.list (values.filterMap element.write)).isWellFormed := by
    rw [Value.isWellFormed_list]
    intro v hv
    obtain ⟨x, hx, hwrite⟩ := List.mem_filterMap.mp hv
    exact ((hvalues x hx).1 v hwrite).1
  exact ⟨hwell, (reads_list hsteady hwell).reading_eq.trans (mapM_reading hvalues)⟩

/-! ### Numbers -/

/-- The number is printed in a way that reads back. -/
def ReadsBack (codec : Codec α) (x : α) : Prop :=
  codec.ofText (codec.toValue x).compact = .ok x

instance decidableReadsBack [DecidableEq α] (codec : Codec α) (x : α) :
    Decidable (codec.ReadsBack x) :=
  match h : codec.ofText (codec.toValue x).compact with
  | .ok y => decidable_of_iff (y = x) (by simp [ReadsBack, h])
  | .error _ => isFalse (by simp [ReadsBack, h])

/-- Digits that are read at all are those of a numeral of the format. -/
theorem isWellFormed_of_ofText {n : Numeral} (hn : n.Digital) {x : Float}
    (hread : number.ofText (Value.number n).compact = .ok x) :
    (Value.number n).isWellFormed := by
  obtain ⟨c, tail, htext, hc⟩ := exists_text_eq_cons hn
  have hbracket : c ≠ '[' ∧ c ≠ '\x7b' := by
    constructor <;> (rintro rfl; simp at hc)
  have hcompact : (Value.number n).compact.toList = c :: tail := by
    rw [← htext]
    exact String.toList_ofList
  rw [Value.isWellFormed_number]
  cases hnumber : Reader.number (c :: tail) with
  | ok result =>
      rw [← htext] at hnumber
      exact wellFormed_of_number hn hnumber
  | error fault =>
      have hscalar := scalar_of_number hc tail
      rw [hnumber] at hscalar
      have hfault : ∀ bound, number.fromText bound (c :: tail) = .error fault := by
        intro bound
        unfold number scalar
        dsimp only
        rw [peek_bind_cons (isSpace_eq_false_of_number hc)]
        simp only [Option.some.injEq, hbracket.1, hbracket.2, imp_self]
        exact bind_of_error hscalar _
      rw [ofText, whole, hcompact] at hread
      rw [hfault] at hread
      cases hread

theorem restores_number {x : Float} (hfinite : Decimal.isFinite x)
    (hreads : number.ReadsBack x) : number.Restores x := by
  intro v hv
  have htoValue : number.toValue x = .number (layout.ofFloat x) := if_pos hfinite
  have hvalue : v = .number (layout.ofFloat x) := (Option.some.inj hv).symm.trans htoValue
  rw [ReadsBack, htoValue] at hreads
  rw [hvalue]
  exact ⟨isWellFormed_of_ofText (digital_ofFloat layout x) hreads, congrArg Except.toOption hreads⟩

/-! ### Records -/

variable {fields : List (RecordField ρ)} {field : RecordField ρ} {target current : ρ}

/-- Reading what is written for the fields of the target makes it of a record. -/
inductive Fills (target : ρ) : List (RecordField ρ) → ρ → Prop
  | done : Fills target [] target
  | field {field : RecordField ρ} {fields : List (RecordField ρ)} {current next : ρ}
      (hwell : ∀ v ∈ field.write target, v.isWellFormed)
      (hput : put field (field.write target) current = some next)
      (hfills : Fills target fields next) : Fills target (field :: fields) current

/-- A member that is always written puts its value in place. -/
theorem Fills.of_written {key : String} {codec : Codec α} {get : ρ → α} {set : ρ → α → ρ}
    (hrestores : codec.Restores (get target)) (hwrite : ∃ v, codec.write (get target) = some v)
    (hfills : Fills target fields (set current (get target))) :
    Fills target (.of key codec get set :: fields) current := by
  obtain ⟨v, hv⟩ := hwrite
  obtain ⟨hwell, hread⟩ := hrestores v hv
  have hwritten : (RecordField.of key codec get set).write target = some v := hv
  refine .field ?_ ?_ hfills
  · rw [hwritten]
    rintro _ ⟨⟩
    exact hwell
  · rw [hwritten, put, RecordField.reading_of, hread]
    rfl

/-- An absent text is not written, so the default has to be an absent text already. -/
theorem Fills.of_optionalText {key : String} {get : ρ → Option String} {set : ρ → Option String → ρ}
    (hdefault : set current none = current)
    (hfills : Fills target fields (set current (get target))) :
    Fills target (.of key optionalText get set :: fields) current := by
  cases hget : get target with
  | none =>
      have hwritten : (RecordField.of key optionalText get set).write target = none := by
        simp [RecordField.of, optionalText, scalar, hget]
      rw [hget, hdefault] at hfills
      refine .field ?_ ?_ hfills
      · rw [hwritten]
        exact fun _ => nofun
      · rw [hwritten]
        rfl
  | some value =>
      exact .of_written (restores_optionalText _) ⟨.text value, by rw [hget]; rfl⟩ hfills

theorem writeFields_cons_none (hwrite : field.write target = none) :
    writeFields (field :: fields) target = writeFields fields target := by
  simp [writeFields, hwrite]

theorem writeFields_cons_some {v : Value} (hwrite : field.write target = some v) :
    writeFields (field :: fields) target = (field.key, v) :: writeFields fields target := by
  simp [writeFields, hwrite]

theorem keys_writeFields (fields : List (RecordField ρ)) (target : ρ) :
    ((writeFields fields target).map Prod.fst).Sublist (fields.map (·.key)) := by
  induction fields with
  | nil => exact .slnil
  | cons field fields ih =>
      rw [List.map_cons]
      cases hwrite : field.write target with
      | none =>
          rw [writeFields_cons_none hwrite]
          exact ih.cons _
      | some v =>
          rw [writeFields_cons_some hwrite, List.map_cons]
          exact ih.cons_cons _

theorem lookup_writeFields (hkeys : (fields.map (·.key)).Nodup) (hfield : field ∈ fields) :
    (writeFields fields target).lookup field.key = field.write target := by
  induction fields with
  | nil => cases hfield
  | cons first fields ih =>
      rw [List.map_cons, List.nodup_cons] at hkeys
      rcases List.mem_cons.mp hfield with rfl | hfield
      · cases hwrite : field.write target with
        | none =>
            rw [writeFields_cons_none hwrite, List.lookup_eq_none_iff]
            intro member hmember
            have hkey := (keys_writeFields fields target).subset (List.mem_map_of_mem hmember)
            rw [bne_iff_ne]
            exact fun hsame => hkeys.1 (hsame ▸ hkey)
        | some v =>
            rw [writeFields_cons_some hwrite, List.lookup_cons_self]
      · have hne : field.key ≠ first.key :=
          fun hsame => hkeys.1 (hsame ▸ List.mem_map_of_mem hfield)
        cases hwrite : first.write target with
        | none =>
            rw [writeFields_cons_none hwrite]
            exact ih hkeys.2 hfield
        | some v =>
            rw [writeFields_cons_some hwrite, List.lookup_cons, beq_eq_false_iff_ne.mpr hne]
            exact ih hkeys.2 hfield

theorem Fills.fill_eq (hfills : Fills target fields current) {members : List (String × Value)}
    (hstored : ∀ field ∈ fields, members.lookup field.key = field.write target) (position : Nat) :
    fill (.record members) position fields current = some target := by
  induction hfills generalizing position with
  | done => rfl
  | @field field fields current next _ hput _ ih =>
      rw [List.forall_mem_cons] at hstored
      have hfield : (Value.record members).stored? field.key position = field.write target :=
        hstored.1
      rw [fill, hfield, hput]
      exact ih hstored.2 (position + 1)

theorem Fills.isWellFormed (hfills : Fills target fields current) :
    (Value.record (writeFields fields target)).isWellFormed := by
  rw [Value.isWellFormed_record]
  induction hfills with
  | done => exact fun _ => nofun
  | @field field fields current next hwell _ _ ih =>
      cases hwrite : field.write target with
      | none => rwa [writeFields_cons_none hwrite]
      | some v =>
          rw [writeFields_cons_some hwrite, List.forall_mem_cons]
          exact ⟨hwell v hwrite, ih⟩

theorem restores_record {default : ρ} (hfields : Lawful fields)
    (hfills : Fills target fields default) : (record default fields).Restores target := by
  rintro v ⟨⟩
  refine ⟨hfills.isWellFormed, ?_⟩
  rw [reading_record default hfields hfills.isWellFormed
    (hfields.keys.sublist (keys_writeFields fields target))]
  exact hfills.fill_eq (fun _ hfield => lookup_writeFields hfields.keys hfield) 0

end SchemaDesign.Json.Codec
