import SchemaDesign.Proofs.Json.Number

/-!
# Printed values

The two ways to print a value differ only in the blanks between its tokens.  With a spacing that
says which blanks these are, both are one way to print.  What follows an item or a member is printed
together with the closing bracket, since this is how it is read.

A value is one of the format if all its numerals are.  Whether it fits the limits of a reader is
another matter: its numbers may lie beyond the range, and its lists and records may be nested too
deep.
-/

namespace SchemaDesign.Json

namespace Value

def isNested : Value → Bool
  | .list _ => true
  | .record _ => true
  | _ => false

mutual

/-- All numerals in the value are well-formed. -/
def isWellFormed : Value → Bool
  | .number n => decide n.WellFormed
  | .list items => areWellFormed items
  | .record members => haveWellFormed members
  | _ => true

def areWellFormed : List Value → Bool
  | [] => true
  | item :: items => item.isWellFormed && areWellFormed items

def haveWellFormed : List (String × Value) → Bool
  | [] => true
  | (_, value) :: members => value.isWellFormed && haveWellFormed members

end

mutual

/-- All numbers in the value are finite, and its lists and records are nested at most this deep. -/
def fits : Nat → Value → Bool
  | _, .number n => Decimal.isFinite n.scaled
  | 0, .list _ => false
  | 0, .record _ => false
  | depth + 1, .list items => allFit depth items
  | depth + 1, .record members => membersFit depth members
  | _, _ => true

def allFit : Nat → List Value → Bool
  | _, [] => true
  | depth, item :: items => item.fits depth && allFit depth items

def membersFit : Nat → List (String × Value) → Bool
  | _, [] => true
  | depth, (_, value) :: members => value.fits depth && membersFit depth members

end

theorem areWellFormed_eq_all (items : List Value) :
    areWellFormed items = items.all (·.isWellFormed) := by
  induction items with
  | nil => rfl
  | cons item items ih => rw [areWellFormed, ih, List.all_cons]

theorem haveWellFormed_eq_all (members : List (String × Value)) :
    haveWellFormed members = members.all (·.2.isWellFormed) := by
  induction members with
  | nil => rfl
  | cons member members ih => rw [haveWellFormed, ih, List.all_cons]

theorem allFit_eq_all (depth : Nat) (items : List Value) :
    allFit depth items = items.all (·.fits depth) := by
  induction items with
  | nil => rfl
  | cons item items ih => rw [allFit, ih, List.all_cons]

theorem membersFit_eq_all (depth : Nat) (members : List (String × Value)) :
    membersFit depth members = members.all (·.2.fits depth) := by
  induction members with
  | nil => rfl
  | cons member members ih => rw [membersFit, ih, List.all_cons]

theorem isWellFormed_list (items : List Value) :
    (Value.list items).isWellFormed ↔ ∀ item ∈ items, item.isWellFormed := by
  rw [isWellFormed, areWellFormed_eq_all, List.all_eq_true]

theorem isWellFormed_record (members : List (String × Value)) :
    (Value.record members).isWellFormed ↔ ∀ member ∈ members, member.2.isWellFormed := by
  rw [isWellFormed, haveWellFormed_eq_all, List.all_eq_true]

theorem isWellFormed_number (n : Numeral) : (Value.number n).isWellFormed ↔ n.WellFormed := by
  rw [isWellFormed, decide_eq_true_iff]

theorem fits_zero_of_isNested {value : Value} (hnested : value.isNested) :
    value.fits 0 = false := by
  cases value with
  | list | record => rfl
  | null | flag | number | text => cases hnested

theorem fits_of_not_isNested {value : Value} (hscalar : ¬value.isNested) (depth : Nat) :
    value.fits depth = value.fits 0 := by
  cases value with
  | list | record => exact absurd rfl hscalar
  | null | flag | number | text => cases depth <;> rfl

/-- A property of all values holds of lists and records if it holds of what is in them. -/
@[elab_as_elim]
theorem induction {motive : Value → Prop} (scalar : ∀ value, ¬value.isNested → motive value)
    (list : ∀ items, (∀ item ∈ items, motive item) → motive (.list items))
    (record : ∀ members, (∀ member ∈ members, motive member.2) → motive (.record members)) :
    ∀ value, motive value
  | .list items => list items fun item hitem =>
      have := List.sizeOf_lt_of_mem hitem
      induction scalar list record item
  | .record members => record members fun member hmember =>
      have := List.sizeOf_lt_of_mem hmember
      have : sizeOf member.2 < sizeOf member := by
        cases member
        simp only [Prod.mk.sizeOf_spec]
        omega
      induction scalar list record member.2
  | .null => scalar _ Bool.false_ne_true
  | .flag _ => scalar _ Bool.false_ne_true
  | .number _ => scalar _ Bool.false_ne_true
  | .text _ => scalar _ Bool.false_ne_true
termination_by value => sizeOf value

end Value

structure Spacing where
  /-- Stands before an item, a member or a closing bracket that is nested this deep. -/
  before : Nat → List Char
  afterColon : List Char
  blank_before : ∀ depth, Blank (before depth)
  blank_afterColon : Blank afterColon

namespace Spacing

mutual

def text (spacing : Spacing) (depth : Nat) : Value → List Char
  | .list [] => ['[', ']']
  | .list (item :: items) =>
    '[' :: (spacing.before (depth + 1) ++ text spacing (depth + 1) item ++
      moreItems spacing depth items)
  | .record [] => ['\x7b', '\x7d']
  | .record ((key, value) :: members) =>
    '\x7b' :: (spacing.before (depth + 1) ++ stringText key ++ ':' :: (spacing.afterColon ++
      text spacing (depth + 1) value ++ moreMembers spacing depth members))
  | value => scalarText value

def moreItems (spacing : Spacing) (depth : Nat) : List Value → List Char
  | [] => spacing.before depth ++ [']']
  | item :: items =>
    ',' :: (spacing.before (depth + 1) ++ text spacing (depth + 1) item ++
      moreItems spacing depth items)

def moreMembers (spacing : Spacing) (depth : Nat) : List (String × Value) → List Char
  | [] => spacing.before depth ++ ['\x7d']
  | (key, value) :: members =>
    ',' :: (spacing.before (depth + 1) ++ stringText key ++ ':' :: (spacing.afterColon ++
      text spacing (depth + 1) value ++ moreMembers spacing depth members))

end

theorem text_of_not_isNested (spacing : Spacing) (depth : Nat) {value : Value}
    (hscalar : ¬value.isNested) : spacing.text depth value = scalarText value := by
  cases value with
  | list | record => exact absurd rfl hscalar
  | null | flag | number | text => rfl

theorem text_list_eq_cons (spacing : Spacing) (depth : Nat) (items : List Value) :
    ∃ tail, spacing.text depth (.list items) = '[' :: tail := by
  cases items with
  | nil => exact ⟨_, rfl⟩
  | cons item items => exact ⟨_, rfl⟩

theorem text_record_eq_cons (spacing : Spacing) (depth : Nat) (members : List (String × Value)) :
    ∃ tail, spacing.text depth (.record members) = '\x7b' :: tail := by
  cases members with
  | nil => exact ⟨_, rfl⟩
  | cons member members => exact ⟨_, rfl⟩

theorem stops_moreItems (spacing : Spacing) (depth : Nat) (items : List Value)
    (rest : List Char) : Stops (spacing.moreItems depth items ++ rest) := by
  cases items with
  | nil =>
      rw [moreItems, List.append_assoc]
      exact (spacing.blank_before depth).stops (by simp [Stops])
  | cons item items => simp [moreItems, Stops]

theorem stops_moreMembers (spacing : Spacing) (depth : Nat)
    (members : List (String × Value)) (rest : List Char) :
    Stops (spacing.moreMembers depth members ++ rest) := by
  cases members with
  | nil =>
      rw [moreMembers, List.append_assoc]
      exact (spacing.blank_before depth).stops (by simp [Stops])
  | cons member members => simp [moreMembers, Stops]

theorem length_text_lt_of_mem_items (spacing : Spacing) (depth : Nat) {items : List Value}
    {item : Value} (hitem : item ∈ items) :
    (spacing.text (depth + 1) item).length < (spacing.text depth (.list items)).length := by
  have hmore : ∀ more : List Value, item ∈ more →
      (spacing.text (depth + 1) item).length < (spacing.moreItems depth more).length := by
    intro more hmem
    induction more with
    | nil => cases hmem
    | cons first more ih =>
        rw [moreItems]
        simp only [List.length_cons, List.length_append]
        rcases List.mem_cons.mp hmem with rfl | hmem
        · omega
        · have hlt := ih hmem
          omega
  cases items with
  | nil => cases hitem
  | cons first items =>
      have hlt := hmore _ hitem
      rw [moreItems] at hlt
      rw [text]
      simpa using hlt

theorem length_text_lt_of_mem_members (spacing : Spacing) (depth : Nat)
    {members : List (String × Value)} {member : String × Value} (hmember : member ∈ members) :
    (spacing.afterColon ++ spacing.text (depth + 1) member.2).length <
      (spacing.text depth (.record members)).length := by
  rw [List.length_append]
  have hmore : ∀ more : List (String × Value), member ∈ more →
      spacing.afterColon.length + (spacing.text (depth + 1) member.2).length <
        (spacing.moreMembers depth more).length := by
    intro more hmem
    induction more with
    | nil => cases hmem
    | cons first more ih =>
        rw [moreMembers]
        simp only [List.length_cons, List.length_append]
        rcases List.mem_cons.mp hmem with rfl | hmem
        · omega
        · have hlt := ih hmem
          omega
  cases members with
  | nil => cases hmember
  | cons first members =>
      have hlt := hmore _ hmember
      rw [moreMembers] at hlt
      rw [text]
      simpa using hlt

/-- A printed value starts with no blank and ends no list, and only a list or a record starts with a
bracket. -/
theorem exists_first (spacing : Spacing) (depth : Nat) {value : Value}
    (hvalue : value.isWellFormed) :
    ∃ c tail, spacing.text depth value = c :: tail ∧ Reader.isSpace c = false ∧ c ≠ ']' ∧
      (c = '[' → ∃ items, value = .list items) ∧
      (c = '\x7b' → ∃ members, value = .record members) := by
  have hplain : ∀ c, Reader.isSpace c = false → c ≠ ']' → c ≠ '[' → c ≠ '\x7b' → ∀ tail,
      spacing.text depth value = c :: tail →
      ∃ c tail, spacing.text depth value = c :: tail ∧ Reader.isSpace c = false ∧ c ≠ ']' ∧
        (c = '[' → ∃ items, value = .list items) ∧
        (c = '\x7b' → ∃ members, value = .record members) :=
    fun c hspace hend hlist hrecord tail htext =>
      ⟨c, tail, htext, hspace, hend, fun hsame => absurd hsame hlist,
        fun hsame => absurd hsame hrecord⟩
  cases value with
  | null => exact hplain 'n' (by decide) (by decide) (by decide) (by decide) _ rfl
  | flag value =>
      cases value with
      | false => exact hplain 'f' (by decide) (by decide) (by decide) (by decide) _ rfl
      | true => exact hplain 't' (by decide) (by decide) (by decide) (by decide) _ rfl
  | number n =>
      have hn := (Value.isWellFormed_number n).mp hvalue
      obtain ⟨c, tail, htext, hc⟩ := exists_text_eq_cons hn.toDigital
      rcases hc with rfl | hc
      · exact hplain '-' (by decide) (by decide) (by decide) (by decide) tail htext
      · refine hplain c (isSpace_eq_false_of_isDigit hc) ?_ ?_ ?_ tail htext
        · exact ne_of_apply_ne Char.isDigit (by rw [hc]; decide)
        · exact ne_of_apply_ne Char.isDigit (by rw [hc]; decide)
        · exact ne_of_apply_ne Char.isDigit (by rw [hc]; decide)
  | text value => exact hplain '"' (by decide) (by decide) (by decide) (by decide) _ rfl
  | list items =>
      obtain ⟨tail, htext⟩ := spacing.text_list_eq_cons depth items
      exact ⟨'[', tail, htext, by decide, by decide, fun _ => ⟨items, rfl⟩, fun hsame =>
        absurd hsame (by decide)⟩
  | record members =>
      obtain ⟨tail, htext⟩ := spacing.text_record_eq_cons depth members
      exact ⟨'\x7b', tail, htext, by decide, by decide, fun hsame => absurd hsame (by decide),
        fun _ => ⟨members, rfl⟩⟩

theorem opens_text (spacing : Spacing) (depth : Nat) {value : Value}
    (hvalue : value.isWellFormed) : Opens (spacing.text depth value) := by
  obtain ⟨c, tail, htext, hspace, hend, _⟩ := spacing.exists_first depth hvalue
  exact ⟨c, tail, htext, hspace, hend⟩

/-- A list or a record is no scalar. -/
theorem exists_first_of_scalar (spacing : Spacing) (depth : Nat) {value : Value}
    (hvalue : value.isWellFormed) (hscalar : ¬value.isNested) :
    ∃ c tail, spacing.text depth value = c :: tail ∧ scalarText value = c :: tail ∧
      Reader.isSpace c = false ∧ c ≠ '[' ∧ c ≠ '\x7b' := by
  obtain ⟨c, tail, htext, hspace, _, hlist, hrecord⟩ := spacing.exists_first depth hvalue
  refine ⟨c, tail, htext, ?_, hspace, fun hsame => ?_, fun hsame => ?_⟩
  · rw [← spacing.text_of_not_isNested depth hscalar, htext]
  · obtain ⟨items, rfl⟩ := hlist hsame
    exact hscalar rfl
  · obtain ⟨members, rfl⟩ := hrecord hsame
    exact hscalar rfl

/-- The whole text of a value. -/
def printed (spacing : Spacing) (value : Value) : String :=
  String.ofList (spacing.text 0 value)

def compact : Spacing where
  before _ := []
  afterColon := []
  blank_before _ := .nil
  blank_afterColon := .nil

def pretty : Spacing where
  before := lineStart
  afterColon := [' ']
  blank_before depth := by
    simp [Blank, lineStart, Reader.isSpace]
  blank_afterColon := by
    simp [Blank, Reader.isSpace]

end Spacing

mutual

theorem compactText_eq (depth : Nat) : ∀ value, compactText value = Spacing.compact.text depth value
  | .list [] => rfl
  | .list (item :: items) => by
      simp [compactText, Spacing.text, compactItems_eq depth item items, Spacing.compact]
  | .record [] => rfl
  | .record (member :: members) => by
      simp [compactText, Spacing.text, compactMembers_eq depth member members, Spacing.compact]
  | .null => rfl
  | .flag _ => rfl
  | .number _ => rfl
  | .text _ => rfl
termination_by value => sizeOf value

theorem compactItems_eq (depth : Nat) : ∀ item items,
    compactItems (item :: items) ++ [']'] =
      Spacing.compact.text (depth + 1) item ++ Spacing.compact.moreItems depth items
  | item, [] => by
      simp [compactItems, Spacing.moreItems, compactText_eq (depth + 1) item, Spacing.compact]
  | item, next :: items => by
      simp [compactItems, Spacing.moreItems, compactText_eq (depth + 1) item,
        compactItems_eq depth next items, Spacing.compact]
termination_by item items => sizeOf item + sizeOf items

theorem compactMembers_eq (depth : Nat) : ∀ (member : String × Value) members,
    compactMembers (member :: members) ++ ['\x7d'] =
      stringText member.1 ++ ':' :: (Spacing.compact.text (depth + 1) member.2 ++
        Spacing.compact.moreMembers depth members)
  | (key, value), [] => by
      simp [compactMembers, Spacing.moreMembers, compactText_eq (depth + 1) value, Spacing.compact]
  | (key, value), next :: members => by
      simp [compactMembers, Spacing.moreMembers, compactText_eq (depth + 1) value,
        compactMembers_eq depth next members, Spacing.compact]
termination_by member members => sizeOf member + sizeOf members

end

mutual

theorem prettyText_eq (depth : Nat) :
    ∀ value, prettyText depth value = Spacing.pretty.text depth value
  | .list [] => rfl
  | .list (item :: items) => by
      simp [prettyText, Spacing.text, prettyItems_eq depth item items, Spacing.pretty]
  | .record [] => rfl
  | .record (member :: members) => by
      simp [prettyText, Spacing.text, prettyMembers_eq depth member members, Spacing.pretty]
  | .null => rfl
  | .flag _ => rfl
  | .number _ => rfl
  | .text _ => rfl
termination_by value => sizeOf value

theorem prettyItems_eq (depth : Nat) : ∀ item items,
    prettyItems (depth + 1) (item :: items) ++ (lineStart depth ++ [']']) =
      lineStart (depth + 1) ++ (Spacing.pretty.text (depth + 1) item ++
        Spacing.pretty.moreItems depth items)
  | item, [] => by
      simp [prettyItems, Spacing.moreItems, prettyText_eq (depth + 1) item, Spacing.pretty]
  | item, next :: items => by
      simp [prettyItems, Spacing.moreItems, prettyText_eq (depth + 1) item,
        prettyItems_eq depth next items, Spacing.pretty]
termination_by item items => sizeOf item + sizeOf items

theorem prettyMembers_eq (depth : Nat) : ∀ (member : String × Value) members,
    prettyMembers (depth + 1) (member :: members) ++ (lineStart depth ++ ['\x7d']) =
      lineStart (depth + 1) ++ (stringText member.1 ++ ':' :: ' ' ::
        (Spacing.pretty.text (depth + 1) member.2 ++ Spacing.pretty.moreMembers depth members))
  | (key, value), [] => by
      simp [prettyMembers, Spacing.moreMembers, prettyText_eq (depth + 1) value, Spacing.pretty]
  | (key, value), next :: members => by
      simp [prettyMembers, Spacing.moreMembers, prettyText_eq (depth + 1) value,
        prettyMembers_eq depth next members, Spacing.pretty]
termination_by member members => sizeOf member + sizeOf members

end

theorem Value.compact_eq_printed (value : Value) :
    value.compact = Spacing.compact.printed value := by
  rw [Value.compact, compactText_eq 0, Spacing.printed]

theorem Value.pretty_eq_printed (value : Value) : value.pretty = Spacing.pretty.printed value := by
  rw [Value.pretty, prettyText_eq 0, Spacing.printed]

end SchemaDesign.Json
