import SchemaDesign.Proofs.Json.Fields
import SchemaDesign.Proofs.Related

/-!
# Values that are read alike

Two values are alike for a codec if they differ only in what it passes over: the order of the
members of a record, members with other keys, and what stands at a place that is free.  A codec
respects a likeness if alike values are both refused, or both read with the same results up to what
came from free places.

The value of a field stands in a record under its key, and in a list at its position.
-/

namespace SchemaDesign.Json

namespace Value

/-! ### Likenesses -/

/-- A text, a number or a flag is like itself only.  Nested values stand for none of these, so
what is in them does not matter. -/
inductive AlikeScalar : Value → Value → Prop where
  | same (value : Value) : AlikeScalar value value
  | nested {value other : Value} (hvalue : value.isNested) (hother : other.isNested) :
      AlikeScalar value other

inductive AlikeList (item : Value → Value → Prop) : Value → Value → Prop where
  | items {items others : List Value} (halike : List.Forall₂ item items others) :
      AlikeList item (.list items) (.list others)
  | records (members others : List (String × Value)) :
      AlikeList item (.record members) (.record others)
  | scalar {value : Value} (hscalar : ¬value.isNested) : AlikeList item value value

/-- How the values of a field may differ, either of which may be missing. -/
abbrev Likeness := Option Value → Option Value → Prop

/-- The field with this key has values that are alike, or none. -/
def place (key : String) (alike : Value → Value → Prop) : String × Likeness :=
  (key, Option.Rel alike)

/-- The values of the field with this key are not compared. -/
def freePlace (key : String) : String × Likeness :=
  (key, fun _ _ => True)

/-- The values of the field with this key are not compared, but neither exceeds the limits. -/
def limitedPlace (depth : Nat) (key : String) : String × Likeness :=
  (key, fun stored other => (∀ v ∈ stored, v.fits depth) ∧ ∀ v ∈ other, v.fits depth)

/-- Both are records without repeated keys, or lists that fit the number of fields, or neither. -/
inductive SameForm (size : Nat) : Value → Value → Prop where
  | records {members others : List (String × Value)} (hmembers : (members.map Prod.fst).Nodup)
      (hothers : (others.map Prod.fst).Nodup) : SameForm size (.record members) (.record others)
  | lists {items others : List Value} (hsize : items.length ≤ size ↔ others.length ≤ size) :
      SameForm size (.list items) (.list others)
  | scalar {value : Value} (hscalar : ¬value.isNested) : SameForm size value value

/-- Records that agree on the given fields, whatever else is in them. -/
structure AlikeRecord (places : List (String × Likeness)) (value other : Value) : Prop where
  form : SameForm places.length value other
  stored : ∀ x ∈ places.zipIdx, x.1.2 (value.stored? x.1.1 x.2) (other.stored? x.1.1 x.2)

/-- If the value is a record, no key of it is repeated. -/
def HasDistinctKeys (value : Value) : Prop :=
  ∀ members, value = .record members → (members.map Prod.fst).Nodup

variable {value other : Value}

theorem SameForm.hasDistinctKeys {size : Nat} (hform : SameForm size value other) :
    value.HasDistinctKeys ∧ other.HasDistinctKeys := by
  cases hform with
  | records hmembers hothers =>
      constructor
      · rintro _ ⟨⟩
        exact hmembers
      · rintro _ ⟨⟩
        exact hothers
  | lists => exact ⟨fun _ => nofun, fun _ => nofun⟩
  | scalar hscalar =>
      have hnever : value.HasDistinctKeys := by
        rintro members rfl
        exact absurd rfl hscalar
      exact ⟨hnever, hnever⟩

theorem isWellFormed_of_stored (hvalue : value.isWellFormed) (key : String) (position : Nat) :
    ∀ v ∈ value.stored? key position, v.isWellFormed := by
  intro v hv
  cases value with
  | record members =>
      rw [isWellFormed_record] at hvalue
      obtain ⟨before, after, rfl, _⟩ := List.lookup_eq_some_iff.mp hv
      exact hvalue (key, v) (by simp)
  | list items =>
      rw [isWellFormed_list] at hvalue
      exact hvalue v (List.mem_of_getElem? hv)
  | null | flag | number | text => cases hv

end Value

namespace Codec

open Reader Value

variable {α ρ : Type} {value other : Value}

/-- Alike values are both refused, or both read with results that are the same. -/
def Respects (codec : Codec α) (alike : Value → Value → Prop) (same : α → α → Prop) : Prop :=
  ∀ value other, value.isWellFormed → other.isWellFormed → alike value other →
    Option.Rel same (reading codec.fromText value) (reading codec.fromText other)

/-! ### Scalars and lists -/

theorem rel_eq_of_eq {found twin : Option α} (h : found = twin) : Option.Rel Eq found twin := by
  subst h
  cases found with
  | none => exact .none
  | some x => exact .some rfl

theorem respects_scalar {write : α → Option Value} {decode : Value → Option α} :
    (scalar write decode).Respects AlikeScalar Eq := by
  intro value other hvalue hother halike
  rw [reading_scalar hvalue, reading_scalar hother]
  apply rel_eq_of_eq
  cases halike with
  | same => rfl
  | nested hvalue hother =>
      rw [fits_zero_of_isNested hvalue, fits_zero_of_isNested hother]
      rfl

theorem respects_list {element : Codec α} (hsteady : Steady element.fromText)
    {alike : Value → Value → Prop} {same : α → α → Prop} (helement : element.Respects alike same) :
    (list element).Respects (AlikeList alike) (List.Forall₂ same) := by
  intro value other hvalue hother halike
  have hrefused : ∀ v : Value, v.isWellFormed → (∀ items, v ≠ .list items) →
      reading (list element).fromText v = none :=
    fun v hv hne => (reads_list_of_ne hv hne).reading_eq
  cases halike with
  | @items items others halike =>
      rw [(reads_list hsteady hvalue).reading_eq, (reads_list hsteady hother).reading_eq]
      rw [isWellFormed_list] at hvalue hother
      refine rel_option_mapM (forall₂_and_mem_zip halike) fun item twin h => ?_
      obtain ⟨hitem, htwin⟩ := List.of_mem_zip h.2
      exact helement item twin (hvalue item hitem) (hother twin htwin) h.1
  | records members others =>
      rw [hrefused _ hvalue fun _ => nofun, hrefused _ hother fun _ => nofun]
      exact .none
  | scalar hscalar =>
      have hne : ∀ items, value ≠ .list items := by
        rintro items rfl
        exact hscalar rfl
      rw [hrefused _ hvalue hne]
      exact .none

/-! ### Records -/

theorem fill_of_reading {default found : ρ} {fields : List (RecordField ρ)}
    (hfields : Lawful fields) (hvalue : value.isWellFormed) (hkeys : value.HasDistinctKeys)
    (hread : reading (record default fields).fromText value = some found) :
    fill value 0 fields default = some found := by
  cases value with
  | record members => rwa [reading_record default hfields hvalue (hkeys members rfl)] at hread
  | list items =>
      rw [reading_listed default hfields.steady hvalue] at hread
      split at hread
      · exact hread
      · cases hread
  | null | flag | number | text =>
      rw [reading_record_of_scalar default fields hvalue Bool.false_ne_true] at hread
      cases hread

/-- Where the values of a field are alike, it keeps records the same. -/
structure FieldRespects (same : ρ → ρ → Prop) (field : RecordField ρ) (place : String × Likeness) :
    Prop where
  key : field.key = place.1
  put : ∀ stored other : Option Value, (∀ v ∈ stored, v.isWellFormed) →
    (∀ v ∈ other, v.isWellFormed) → place.2 stored other → ∀ current twin, same current twin →
      Option.Rel same (put field stored current) (put field other twin)

variable {same : ρ → ρ → Prop} {fields : List (RecordField ρ)} {places : List (String × Likeness)}

theorem rel_fill (hvalue : value.isWellFormed) (hother : other.isWellFormed)
    (hfields : List.Forall₂ (FieldRespects same) fields places) {position : Nat}
    (hstored : ∀ x ∈ places.zipIdx position,
      x.1.2 (value.stored? x.1.1 x.2) (other.stored? x.1.1 x.2))
    {current twin : ρ} (hsame : same current twin) :
    Option.Rel same (fill value position fields current) (fill other position fields twin) := by
  induction hfields generalizing position current twin with
  | nil => exact .some hsame
  | @cons field place fields places hfield _ ih =>
      rw [List.zipIdx_cons, List.forall_mem_cons] at hstored
      rw [fill, fill, hfield.key]
      have hput := hfield.put _ _ (isWellFormed_of_stored hvalue place.1 position)
        (isWellFormed_of_stored hother place.1 position) hstored.1 _ _ hsame
      exact rel_option_bind hput fun next nextTwin hnext => ih hstored.2 hnext

theorem respects_record {default : ρ} (hlawful : Lawful fields) (hdefault : same default default)
    (hfields : List.Forall₂ (FieldRespects same) fields places) :
    (record default fields).Respects (AlikeRecord places) same := by
  intro value other hvalue hother halike
  have hfill := rel_fill hvalue hother hfields halike.stored hdefault
  cases halike.form with
  | records hmembers hothers =>
      rwa [reading_record default hlawful hvalue hmembers,
        reading_record default hlawful hother hothers]
  | lists hsize =>
      rw [reading_listed default hlawful.steady hvalue,
        reading_listed default hlawful.steady hother, hfields.length_eq]
      simp only [hsize]
      split
      · exact hfill
      · exact .none
  | scalar hscalar =>
      rw [reading_record_of_scalar default fields hvalue hscalar]
      exact .none

/-! ### Fields -/

theorem FieldRespects.of_place {key : String} {codec : Codec α} {get : ρ → α} {set : ρ → α → ρ}
    {alike : Value → Value → Prop} {sameMember : α → α → Prop}
    (hcodec : codec.Respects alike sameMember)
    (hset : ∀ current twin x y, same current twin → sameMember x y →
      same (set current x) (set twin y)) :
    FieldRespects same (.of key codec get set) (place key alike) where
  key := rfl
  put stored other hstored hother hvalues current twin hsame := by
    cases hvalues with
    | none => exact .some hsame
    | some halike =>
        rw [Codec.put, Codec.put, RecordField.reading_of, RecordField.reading_of]
        exact rel_option_map (hcodec _ _ (hstored _ rfl) (hother _ rfl) halike)
          fun x y hxy => hset _ _ _ _ hsame hxy

section Kinds

variable {key : String} {depth : Nat} {name : α → String} {decode : Value → α} {get : ρ → α}
  {set : ρ → α → ρ}

theorem put_kind {v : Value} (hv : v.isWellFormed) (current : ρ) :
    put (.of key (kind depth name decode) get set) (some v) current =
      if v.fits depth then some (set current (decode v)) else none := by
  rw [put, RecordField.reading_of, reading_kind hv, apply_ite (Option.map (set current))]
  rfl

theorem FieldRespects.of_limitedPlace
    (hset : ∀ current twin x, same current twin →
      same (set current x) twin ∧ same current (set twin x)) :
    FieldRespects same (.of key (kind depth name decode) get set) (limitedPlace depth key) where
  key := rfl
  put stored other hstored hother hfits current twin hsame := by
    cases stored with
    | none =>
        cases other with
        | none => exact .some hsame
        | some w =>
            rw [put_kind (hother w rfl), if_pos (hfits.2 w rfl)]
            exact .some (hset current twin (decode w) hsame).2
    | some v =>
        have hfirst := (hset current twin (decode v) hsame).1
        rw [put_kind (hstored v rfl), if_pos (hfits.1 v rfl)]
        cases other with
        | none => exact .some hfirst
        | some w =>
            rw [put_kind (hother w rfl), if_pos (hfits.2 w rfl)]
            exact .some (hset _ twin (decode w) hfirst).2

end Kinds

/-! ### The field that a member comes from -/

/-- Reading this field does not change the member. -/
def Keeps (field : RecordField ρ) (get : ρ → α) : Prop :=
  ∀ current v next, field.reading current v = some next → get next = get current

theorem Keeps.of {β : Type} {get : ρ → α} {set : ρ → β → ρ}
    (hset : ∀ current x, get (set current x) = get current) (key : String) (codec : Codec β)
    (getOther : ρ → β) : Keeps (.of key codec getOther set) get := by
  intro current v next hread
  rw [RecordField.reading_of] at hread
  obtain ⟨x, _, rfl⟩ := Option.map_eq_some_iff.mp hread
  exact hset current x

theorem Keeps.put_eq {field : RecordField ρ} {get : ρ → α} (hkeeps : Keeps field get)
    {stored : Option Value} {current next : ρ} (hput : put field stored current = some next) :
    get next = get current := by
  cases stored with
  | none => rw [← Option.some.inj hput]
  | some v => exact hkeeps current v next hput

theorem get_of_fill {get : ρ → α} (hkeeps : ∀ field ∈ fields, Keeps field get) {position : Nat}
    {current found : ρ} (hfill : fill value position fields current = some found) :
    get found = get current := by
  induction fields generalizing position current with
  | nil => rw [← Option.some.inj hfill]
  | cons field fields ih =>
      obtain ⟨next, hput, hrest⟩ := Option.bind_eq_some_iff.mp hfill
      rw [List.forall_mem_cons] at hkeeps
      exact (ih hkeeps.2 hrest).trans (hkeeps.1.put_eq hput)

/-- If only one field can change a member, the member comes from the value of this field. -/
theorem exists_put_of_fill {get : ρ → α} {before after : List (RecordField ρ)}
    {field : RecordField ρ} (hbefore : ∀ other ∈ before, Keeps other get)
    (hafter : ∀ other ∈ after, Keeps other get) {position : Nat} {current found : ρ}
    (hfill : fill value position (before ++ field :: after) current = some found) :
    ∃ last next, get last = get current ∧
      put field (value.stored? field.key (position + before.length)) last = some next ∧
      get found = get next := by
  induction before generalizing position current with
  | nil =>
      obtain ⟨next, hput, hrest⟩ := Option.bind_eq_some_iff.mp hfill
      exact ⟨current, next, rfl, hput, get_of_fill hafter hrest⟩
  | cons first before ih =>
      obtain ⟨second, hput, hrest⟩ := Option.bind_eq_some_iff.mp hfill
      rw [List.forall_mem_cons] at hbefore
      obtain ⟨last, next, hlast, hnext, hfound⟩ := ih hbefore.2 hrest
      have hposition : position + 1 + before.length = position + (first :: before).length := by
        rw [List.length_cons]
        omega
      rw [hposition] at hnext
      exact ⟨last, next, hlast.trans (hbefore.1.put_eq hput), hnext, hfound⟩

end Codec

end SchemaDesign.Json
