import SchemaDesign.Json.Codec
import SchemaDesign.Proofs.Json.Printer

/-!
# Scalars

A reader reads a value as something if it answers with this to the text of the value, however the
text is spaced.  What a reader reads a value as is told from the compact text already, and a steady
reader never does anything else.

The text of a scalar is one token, so there is nothing to space.  It is read as the scalar itself,
unless this is a number beyond the range.
-/

namespace SchemaDesign.Json

variable {α β : Type}

namespace Reader

/-! ### Readings -/

/-- However the value is spaced, the reader answers with the same. -/
def Reads (reader : Nat → Reader α) (v : Value) (found : Option α) : Prop :=
  ∀ (spacing : Spacing) depth bound, (spacing.text depth v).length < bound →
    (reader bound).Answers (spacing.text depth v) found

/-- What the compact text of the value is read as. -/
def reading (reader : Nat → Reader α) (v : Value) : Option α :=
  (whole reader v.compact).toOption

theorem Reads.toOption_printed {reader : Nat → Reader α} {v : Value} {found : Option α}
    (hreads : Reads reader v found) (spacing : Spacing) :
    (whole reader (spacing.printed v)).toOption = found :=
  toOption_whole (hreads spacing 0 _ (Nat.lt_succ_self _))

theorem Reads.reading_eq {reader : Nat → Reader α} {v : Value} {found : Option α}
    (hreads : Reads reader v found) : reading reader v = found := by
  rw [reading, Value.compact_eq_printed]
  exact hreads.toOption_printed .compact

theorem Reads.map {reader : Nat → Reader α} {v : Value} {found : Option α}
    (hreads : Reads reader v found) (f : α → β) :
    Reads (fun bound => do return f (← reader bound)) v (found.map f) :=
  fun spacing depth bound hbound => (hreads spacing depth bound hbound).map f

/-- The spacing of a value has no part in what it is read as. -/
def Steady (reader : Nat → Reader α) : Prop :=
  ∀ v, v.isWellFormed → Reads reader v (reading reader v)

theorem steady_of_reads {reader : Nat → Reader α}
    (hreads : ∀ v, v.isWellFormed → ∃ found, Reads reader v found) : Steady reader := by
  intro v hv
  obtain ⟨found, hfound⟩ := hreads v hv
  rwa [hfound.reading_eq]

theorem Steady.toOption_printed {reader : Nat → Reader α} (hsteady : Steady reader) {v : Value}
    (hv : v.isWellFormed) (spacing : Spacing) :
    (whole reader (spacing.printed v)).toOption = reading reader v :=
  (hsteady v hv).toOption_printed spacing

theorem Steady.map {reader : Nat → Reader α} (hsteady : Steady reader) (f : α → β) :
    Steady fun bound => do return f (← reader bound) :=
  steady_of_reads fun v hv => ⟨_, (hsteady v hv).map f⟩

/-- What is read from a text can be changed afterwards. -/
theorem reading_map (reader : Nat → Reader α) (f : α → β) (v : Value) :
    reading (fun bound => do return f (← reader bound)) v = (reading reader v).map f := by
  unfold reading whole
  dsimp only
  cases hresult : reader (v.compact.toList.length + 1) v.compact.toList with
  | error fault => rw [bind_of_error hresult]; rfl
  | ok result =>
      obtain ⟨x, rest⟩ := result
      rw [bind_of_ok hresult]
      simp only [pure_apply]
      split <;> rfl

/-! ### Tokens -/

theorem peek_bind_text (spacing : Spacing) (depth : Nat) {v : Value} (hv : v.isWellFormed)
    {blanks : List Char} (hblanks : Blank blanks) (rest : List Char) :
    ∃ c, (c = '[' → ∃ items, v = .list items) ∧ (c = '\x7b' → ∃ members, v = .record members) ∧
      ∀ next : Option Char → Reader β,
        (peek >>= next) (blanks ++ (spacing.text depth v ++ rest)) =
          next (some c) (spacing.text depth v ++ rest) := by
  obtain ⟨c, tail, htext, hspace, _, hlist, hrecord⟩ := spacing.exists_first depth hv
  refine ⟨c, hlist, hrecord, ?_⟩
  rw [htext, List.cons_append]
  exact peek_bind hblanks hspace

theorem scalar_stringText (value : String) (rest : List Char) :
    scalar (stringText value ++ rest) = .ok (.text value, rest) := by
  have hstring := string_stringText value rest
  rw [stringText, List.cons_append] at hstring ⊢
  rw [scalar, peek_bind_cons rfl]
  simp only [if_true]
  rw [bind_of_ok hstring]
  rfl

theorem isSpace_eq_false_of_number {c : Char} (hc : c = '-' ∨ c.isDigit) : isSpace c = false := by
  rcases hc with rfl | hc
  · rfl
  · exact isSpace_eq_false_of_isDigit hc

theorem scalar_of_number {c : Char} (hc : c = '-' ∨ c.isDigit) (text : List Char) :
    scalar (c :: text) =
      (number (c :: text)).map fun (found, rest) => (.number found, rest) := by
  have hquote : c ≠ '"' := by
    rintro rfl
    simp at hc
  rw [scalar, peek_bind_cons (isSpace_eq_false_of_number hc)]
  simp only [hquote, hc, if_true, if_false]
  cases hnumber : number (c :: text) with
  | error fault =>
      rw [bind_of_error hnumber]
      rfl
  | ok result =>
      rw [bind_of_ok hnumber]
      rfl

/-- A scalar that fits is read as itself. -/
theorem scalar_scalarText {value : Value} (hscalar : ¬value.isNested) (hvalue : value.isWellFormed)
    {rest : List Char} (hrest : Stops rest) :
    scalar (scalarText value ++ rest) =
      if value.fits 0 then .ok (value, rest) else .error .malformed := by
  cases value with
  | null => rfl
  | flag value =>
      cases value with
      | false => rfl
      | true => rfl
  | number n =>
      have hn := (Value.isWellFormed_number n).mp hvalue
      have hnumber := number_of_wellFormed hn hrest
      obtain ⟨c, tail, htext, hc⟩ := exists_text_eq_cons hn.toDigital
      rw [scalarText]
      rw [htext, List.cons_append] at hnumber ⊢
      rw [scalar_of_number hc, hnumber, Value.fits]
      split <;> rfl
  | text value => exact scalar_stringText value rest
  | list items => exact absurd rfl hscalar
  | record members => exact absurd rfl hscalar

theorem toOption_unexpected (text : List Char) :
    ((unexpected : Reader α) text).toOption = none := by
  cases hpeek : peek text with
  | error fault => cases hpeek
  | ok result =>
      obtain ⟨next, rest⟩ := result
      unfold unexpected
      rw [bind_of_ok hpeek]
      split
      · rfl
      · rfl
      · exact toOption_bind_fail scalar .mismatched rest

end Reader

namespace Codec

open Reader

variable {write : α → Option Value} {decode : Value → Option α}

/-- Nested values are none of the scalars, and neither are numbers beyond the range. -/
theorem reads_scalar {v : Value} (hv : v.isWellFormed) :
    Reads (scalar write decode).fromText v (if v.fits 0 then decode v else none) := by
  intro spacing depth bound _ blanks rest hblanks hrest
  unfold scalar
  dsimp only
  by_cases hnested : v.isNested
  · rw [Value.fits_zero_of_isNested hnested]
    cases v with
    | list items =>
        obtain ⟨tail, htext⟩ := spacing.text_list_eq_cons depth items
        rw [htext, List.cons_append, peek_bind hblanks rfl]
        rfl
    | record members =>
        obtain ⟨tail, htext⟩ := spacing.text_record_eq_cons depth members
        rw [htext, List.cons_append, peek_bind hblanks rfl]
        rfl
    | null | flag | number | text => cases hnested
  · have hscalar := scalar_scalarText hnested hv hrest
    obtain ⟨c, tail, htext, htoken, hspace, hlist, hrecord⟩ :=
      spacing.exists_first_of_scalar depth hv hnested
    rw [htext, List.cons_append, peek_bind hblanks hspace]
    rw [htoken, List.cons_append] at hscalar
    simp only [Option.some.injEq, hlist, imp_self, hrecord]
    by_cases hfits : v.fits 0
    · rw [if_pos hfits] at hscalar ⊢
      rw [bind_of_ok hscalar]
      cases decode v <;> rfl
    · rw [if_neg hfits] at hscalar ⊢
      rw [bind_of_error hscalar]
      rfl

theorem steady_scalar : Steady (scalar write decode).fromText :=
  steady_of_reads fun _ hv => ⟨_, reads_scalar hv⟩

theorem reading_scalar {v : Value} (hv : v.isWellFormed) :
    reading (scalar write decode).fromText v = if v.fits 0 then decode v else none :=
  (reads_scalar hv).reading_eq

end Codec

end SchemaDesign.Json
