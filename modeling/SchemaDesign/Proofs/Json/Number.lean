import SchemaDesign.Proofs.Json.Reader

/-!
# Numbers

The text of a numeral is read back as the numeral itself, wherever it stands, unless the numeral has
more than one digit before the point and the first of them is a zero.  A number has to be finite in
addition.  Of a printed number that reads back on its own, all this is known.
-/

namespace SchemaDesign

namespace Numeral

/-- Nothing but digits stands beside the sign, the point and the exponent. -/
structure Digital (n : Numeral) : Prop where
  whole_ne_nil : n.whole ≠ []
  whole : ∀ c ∈ n.whole, c.isDigit
  fraction : ∀ c ∈ n.fraction, c.isDigit

/-- The first of several digits before the point is a zero. -/
def HasSpareZero (n : Numeral) : Prop :=
  n.whole.head? = some '0' ∧ n.whole.length > 1

instance decidableHasSpareZero (n : Numeral) : Decidable n.HasSpareZero :=
  inferInstanceAs (Decidable (_ ∧ _))

structure WellFormed (n : Numeral) : Prop extends n.Digital where
  unpadded : ¬n.HasSpareZero

instance decidableWellFormed (n : Numeral) : Decidable n.WellFormed :=
  decidable_of_iff
    ((n.whole ≠ [] ∧ n.whole.all Char.isDigit ∧ n.fraction.all Char.isDigit) ∧ ¬n.HasSpareZero)
    ⟨fun ⟨⟨hne, hwhole, hfraction⟩, hunpadded⟩ =>
        ⟨⟨hne, List.all_eq_true.mp hwhole, List.all_eq_true.mp hfraction⟩, hunpadded⟩,
      fun h => ⟨⟨h.whole_ne_nil, List.all_eq_true.mpr h.whole, List.all_eq_true.mpr h.fraction⟩,
        h.unpadded⟩⟩

def fractionText (digits : List Char) : List Char :=
  if digits.isEmpty then [] else '.' :: digits

theorem text_eq (n : Numeral) :
    n.text = (if n.negative then ['-'] else []) ++
      (n.whole ++ (fractionText n.fraction ++ (n.exponent.map exponentText).getD [])) := by
  simp only [text, fractionText, List.append_assoc]

end Numeral

namespace Json

open Numeral

theorem isSpace_eq_false_of_isDigit {c : Char} (hc : c.isDigit) : Reader.isSpace c = false := by
  rw [← Bool.not_eq_true]
  intro hspace
  simp only [Reader.isSpace, Bool.or_eq_true, decide_eq_true_eq] at hspace
  rcases hspace with ((rfl | rfl) | rfl) | rfl <;> simp at hc

namespace Reader

variable {found rest : List Char}

/-! ### The parts of a numeral -/

/-- No run of digits goes on with this text. -/
def EndsDigits (text : List Char) : Prop :=
  ∀ c ∈ text.head?, c.isDigit = false

theorem endsDigits_exponent (exponent : Option Int) (hrest : Stops rest) :
    EndsDigits ((exponent.map exponentText).getD [] ++ rest) := by
  cases exponent with
  | none => exact fun c hc => (hrest c hc).1
  | some exponent =>
      rintro c ⟨⟩
      rfl

theorem endsDigits_fraction (digits : List Char) (hrest : EndsDigits rest) :
    EndsDigits (fractionText digits ++ rest) := by
  cases digits with
  | nil => exact hrest
  | cons digit digits =>
      rintro c ⟨⟩
      rfl

theorem digits_append (hdigits : ∀ c ∈ found, c.isDigit) (hrest : EndsDigits rest) :
    digits (found ++ rest) = .ok (found, rest) := by
  have hend : rest.takeWhile Char.isDigit = [] ∧ rest.dropWhile Char.isDigit = rest := by
    cases rest with
    | nil => exact ⟨rfl, rfl⟩
    | cons c rest =>
        have hc := hrest c rfl
        exact ⟨List.takeWhile_cons_of_neg (by simp [hc]), List.dropWhile_cons_of_neg (by simp [hc])⟩
  rw [digits, List.takeWhile_append_of_pos hdigits, List.dropWhile_append_of_pos hdigits, hend.1,
    hend.2, List.append_nil]

theorem someDigits_append (hne : found ≠ []) (hdigits : ∀ c ∈ found, c.isDigit)
    (hrest : EndsDigits rest) : someDigits (found ++ rest) = .ok (found, rest) := by
  obtain ⟨c, tail, rfl⟩ := List.exists_cons_of_ne_nil hne
  have hread := digits_append hdigits hrest
  rw [List.cons_append] at hread ⊢
  rw [someDigits, if_pos (hdigits c List.mem_cons_self), hread]

theorem wholePart_append {n : Numeral} (hn : n.Digital) (hrest : EndsDigits rest) :
    wholePart (n.whole ++ rest) =
      if n.HasSpareZero then .error .malformed else .ok (n.whole, rest) := by
  rw [wholePart, bind_of_ok (someDigits_append hn.whole_ne_nil hn.whole hrest)]
  by_cases hzero : n.HasSpareZero
  · rw [if_pos hzero]
    exact congrFun (if_pos hzero) rest
  · rw [if_neg hzero]
    exact congrFun (if_neg hzero) rest

theorem fractionPart_append (hdigits : ∀ c ∈ found, c.isDigit) (hrest : EndsDigits rest)
    (hpoint : rest.head? ≠ some '.') :
    fractionPart (fractionText found ++ rest) = .ok (found, rest) := by
  cases found with
  | nil =>
      cases rest with
      | nil => rfl
      | cons c rest =>
          change fractionPart (c :: rest) = _
          unfold fractionPart
          split
          case h_1 hsame =>
            rw [(List.cons.inj hsame).1] at hpoint
            exact absurd rfl hpoint
          case h_2 => rfl
  | cons digit digits => exact someDigits_append (List.cons_ne_nil _ _) hdigits hrest

theorem digitsValue_toDigits (value : Nat) : digitsValue (Nat.toDigits 10 value) = value := by
  rw [digitsValue, ← Nat.ofDigitChars_eq_foldl, Nat.ofDigitChars_ten_toDigits]

theorem exponentPart_append (exponent : Option Int) (hrest : Stops rest) :
    exponentPart ((exponent.map exponentText).getD [] ++ rest) = .ok (exponent, rest) := by
  cases exponent with
  | none =>
      cases rest with
      | nil => rfl
      | cons c rest =>
          have hc := hrest c rfl
          simp [exponentPart, hc.2.2.1, hc.2.2.2]
  | some exponent =>
      have hdigits : someDigits (Nat.toDigits 10 exponent.natAbs ++ rest) =
          .ok (Nat.toDigits 10 exponent.natAbs, rest) :=
        someDigits_append Nat.toDigits_ne_nil
          (fun _ => Nat.isDigit_of_mem_toDigits (by decide) (by decide)) fun c hc => (hrest c hc).1
      by_cases hnegative : exponent < 0
      · have hvalue : -(exponent.natAbs : Int) = exponent := by omega
        simpa [exponentPart, exponentText, hnegative, hdigits, digitsValue_toDigits, Except.map]
          using hvalue
      · have hvalue : (exponent.natAbs : Int) = exponent := by omega
        simpa [exponentPart, exponentText, hnegative, hdigits, digitsValue_toDigits, Except.map]
          using hvalue

/-! ### Whole numerals -/

theorem numeral_text {n : Numeral} (hn : n.Digital) (hrest : Stops rest) :
    numeral (n.text ++ rest) =
      if n.HasSpareZero then .error .malformed else .ok (n, rest) := by
  have hexponent := endsDigits_exponent n.exponent hrest
  have hfraction := endsDigits_fraction n.fraction hexponent
  have hparts : (do
      let whole ← wholePart
      let fraction ← fractionPart
      let exponent ← exponentPart
      return ⟨n.negative, whole, fraction, exponent⟩ : Reader Numeral)
        (n.whole ++ (fractionText n.fraction ++
          ((n.exponent.map exponentText).getD [] ++ rest))) =
      if n.HasSpareZero then .error .malformed else .ok (n, rest) := by
    have hwhole := wholePart_append hn hfraction
    by_cases hzero : n.HasSpareZero
    · rw [if_pos hzero] at hwhole ⊢
      exact bind_of_error hwhole _
    · rw [if_neg hzero] at hwhole ⊢
      have hpoint : ((n.exponent.map exponentText).getD [] ++ rest).head? ≠ some '.' := by
        cases n.exponent with
        | none => exact fun hsame => (hrest '.' hsame).2.1 rfl
        | some exponent => exact fun hsame => absurd hsame (by simp [exponentText])
      rw [bind_of_ok hwhole, bind_of_ok (fractionPart_append hn.fraction hexponent hpoint),
        bind_of_ok (exponentPart_append n.exponent hrest)]
      rfl
  rw [text_eq]
  simp only [List.append_assoc]
  cases hnegative : n.negative with
  | true =>
      rw [hnegative] at hparts
      exact hparts
  | false =>
      rw [hnegative] at hparts
      obtain ⟨c, tail, hwhole⟩ := List.exists_cons_of_ne_nil hn.whole_ne_nil
      have hc : c ≠ '-' := by
        rintro rfl
        exact absurd (hn.whole '-' (by simp [hwhole])) (by decide)
      rw [hwhole] at hparts ⊢
      simpa [numeral, hc] using hparts

theorem numeral_of_wellFormed {n : Numeral} (hn : n.WellFormed) (hrest : Stops rest) :
    numeral (n.text ++ rest) = .ok (n, rest) := by
  rw [numeral_text hn.toDigital hrest, if_neg hn.unpadded]

theorem number_of_wellFormed {n : Numeral} (hn : n.WellFormed) (hrest : Stops rest) :
    number (n.text ++ rest) =
      if Decimal.isFinite n.scaled then .ok (n, rest) else .error .malformed := by
  rw [number, bind_of_ok (numeral_of_wellFormed hn hrest)]
  split <;> rfl

/-- A numeral that is read has no spare zero. -/
theorem wellFormed_of_number {n found : Numeral} (hn : n.Digital) {left : List Char}
    (hread : number n.text = .ok (found, left)) : n.WellFormed := by
  refine ⟨hn, fun hzero => ?_⟩
  have hnumeral := numeral_text hn stops_nil
  rw [List.append_nil, if_pos hzero] at hnumeral
  rw [number, bind_of_error hnumeral] at hread
  cases hread

end Reader

theorem exists_text_eq_cons {n : Numeral} (hn : n.Digital) :
    ∃ c rest, n.text = c :: rest ∧ (c = '-' ∨ c.isDigit) := by
  unfold Numeral.text
  cases n.negative with
  | true => exact ⟨'-', _, rfl, .inl rfl⟩
  | false =>
      obtain ⟨c, whole, hwhole⟩ := List.exists_cons_of_ne_nil hn.whole_ne_nil
      exact ⟨c, _, by rw [hwhole]; rfl, .inr (hn.whole c (by simp [hwhole]))⟩

/-! ### Printed numbers -/

theorem isDigit_of_mem_toDigits {n : Nat} {c : Char} (hc : c ∈ Nat.toDigits 10 n) : c.isDigit :=
  Nat.isDigit_of_mem_toDigits (by decide) (by decide) hc

theorem isDigit_of_mem_zeros {c : Char} {count : Nat} (hc : c ∈ List.replicate count '0') :
    c.isDigit := by
  rw [List.eq_of_mem_replicate hc]
  rfl

theorem digital_numeral (layout : Decimal.Layout) (negative : Bool) {digits : List Char}
    (hne : digits ≠ []) (hdigits : ∀ c ∈ digits, c.isDigit) (place : Int) :
    (layout.numeral negative digits place).Digital := by
  have htake : ∀ count, ∀ c ∈ digits.take count, c.isDigit :=
    fun _ c hc => hdigits c (List.mem_of_mem_take hc)
  have hdrop : ∀ count, ∀ c ∈ digits.drop count, c.isDigit :=
    fun _ c hc => hdigits c (List.mem_of_mem_drop hc)
  unfold Decimal.Layout.numeral
  dsimp only
  split
  case isTrue =>
    split
    case isTrue =>
      refine ⟨by simp [hne], fun c hc => ?_, by simp⟩
      exact (List.mem_append.mp hc).elim (hdigits c) isDigit_of_mem_zeros
    case isFalse =>
      split
      case isTrue hpoint => exact ⟨by simp [hne]; omega, htake _, hdrop _⟩
      case isFalse =>
        refine ⟨by simp, by simp, fun c hc => ?_⟩
        exact (List.mem_append.mp hc).elim isDigit_of_mem_zeros (hdigits c)
  case isFalse => exact ⟨by simp [hne], htake _, hdrop _⟩

theorem digital_ofFloat (layout : Decimal.Layout) (x : Float) : (layout.ofFloat x).Digital := by
  unfold Decimal.Layout.ofFloat
  dsimp only
  split
  · exact ⟨by simp, by simp, by simp⟩
  · exact digital_numeral layout _ Nat.toDigits_ne_nil (fun c => isDigit_of_mem_toDigits) _

end Json

end SchemaDesign
