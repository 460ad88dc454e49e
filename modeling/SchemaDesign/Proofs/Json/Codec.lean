import SchemaDesign.Proofs.Design.Lookup
import SchemaDesign.Proofs.Json.Skip

/-!
# What codecs read

The codecs are steady: how a value is spaced has no part in what it is read as.  So it is enough to
tell this from the value.  A list is read item by item, and a record member by member, in the order
in which they stand.  A list that stands for a record has the values of its fields.
-/

namespace SchemaDesign.Json

variable {α ρ : Type}

namespace RecordField

/-- What becomes of the record when the field reads the value. -/
def reading (field : RecordField ρ) (record : ρ) (v : Value) : Option ρ :=
  Reader.reading (fun bound => field.fromText bound record) v

def Steady (field : RecordField ρ) : Prop :=
  ∀ record, Reader.Steady fun bound => field.fromText bound record

variable {key : String} {codec : Codec α} {get : ρ → α} {set : ρ → α → ρ}

theorem reading_of (record : ρ) (v : Value) :
    (of key codec get set).reading record v =
      (Reader.reading codec.fromText v).map (set record) :=
  Reader.reading_map codec.fromText (set record) v

theorem steady_of (hsteady : Reader.Steady codec.fromText) : (of key codec get set).Steady :=
  fun record => hsteady.map (set record)

end RecordField

namespace Codec

open Reader

/-! ### Kinds -/

theorem reads_kind {depth : Nat} {name : α → String} {decode : Value → α} {v : Value}
    (hv : v.isWellFormed) :
    Reads (kind depth name decode).fromText v
      (if v.fits depth then some (decode v) else none) := by
  have hreads := (reads_value hv depth).map decode
  rwa [apply_ite (Option.map decode), Option.map_some, Option.map_none] at hreads

theorem steady_kind {depth : Nat} {name : α → String} {decode : Value → α} :
    Steady (kind depth name decode).fromText :=
  steady_of_reads fun _ hv => ⟨_, reads_kind hv⟩

theorem reading_kind {depth : Nat} {name : α → String} {decode : Value → α} {v : Value}
    (hv : v.isWellFormed) :
    reading (kind depth name decode).fromText v =
      if v.fits depth then some (decode v) else none :=
  (reads_kind hv).reading_eq

/-! ### Lists -/

variable {element : Codec α}

theorem reads_list (hsteady : Steady element.fromText) {items : List Value}
    (hitems : (Value.list items).isWellFormed) :
    Reads (list element).fromText (.list items) (items.mapM (reading element.fromText)) := by
  intro spacing depth bound hbound blanks rest hblanks _
  rw [Value.isWellFormed_list] at hitems
  obtain ⟨tail, htext⟩ := spacing.text_list_eq_cons depth items
  have hread := toOption_items hitems (fun item hitem => by
    have hlength := spacing.length_text_lt_of_mem_items depth hitem
    exact hsteady item (hitems item hitem) spacing (depth + 1) bound (by omega)) rest hbound
  rw [htext, List.cons_append] at hread ⊢
  unfold list
  dsimp only
  rw [peek_bind hblanks rfl]
  exact hread

/-- Nothing but a list is read as a list. -/
theorem reads_list_of_ne {v : Value} (hv : v.isWellFormed) (hne : ∀ items, v ≠ .list items) :
    Reads (list element).fromText v none := by
  intro spacing depth bound _ blanks rest hblanks _
  unfold list
  dsimp only
  obtain ⟨c, hlist, _, hpeek⟩ := peek_bind_text spacing depth hv hblanks rest
  have hbracket : c ≠ '[' := fun hsame => (hlist hsame).elim hne
  refine (congrArg Except.toOption (hpeek _)).trans ?_
  simp only [Option.some.injEq, hbracket, imp_self]
  exact toOption_unexpected _

theorem steady_list (hsteady : Steady element.fromText) : Steady (list element).fromText := by
  apply steady_of_reads
  intro v hv
  by_cases hlist : ∃ items, v = .list items
  · obtain ⟨items, rfl⟩ := hlist
    exact ⟨_, reads_list hsteady hv⟩
  · exact ⟨_, reads_list_of_ne hv (not_exists.mp hlist)⟩

/-! ### Members -/

/-- Reads the value of one member; the state holds the known keys seen so far and the record. -/
def readStored (fields : List (RecordField ρ)) (state : List String × ρ)
    (member : String × Value) : Option (List String × ρ) :=
  match fields.find? (·.key == member.1) with
  | some field =>
    if member.1 ∈ state.1 then none
    else (field.reading state.2 member.2).map fun next => (member.1 :: state.1, next)
  | none => some state

variable {fields : List (RecordField ρ)} {spacing : Spacing} {depth bound : Nat}

theorem answersMember (hsteady : ∀ field ∈ fields, field.Steady) {member : String × Value}
    (hvalue : member.2.isWellFormed)
    (hbound : (spacing.afterColon ++ spacing.text (depth + 1) member.2).length < bound) :
    AnswersMember (readMember fields bound) member.1
      (spacing.afterColon ++ spacing.text (depth + 1) member.2)
      fun state => readStored fields state member := by
  intro state rest hrest
  rw [List.append_assoc]
  unfold readMember readStored
  cases hfound : fields.find? (·.key == member.1) with
  | none =>
      dsimp only
      rw [bind_of_ok (colon_cons _),
        bind_of_ok (skip_text hvalue spacing (depth + 1) spacing.blank_afterColon hrest
          (Nat.le_of_lt hbound))]
      rfl
  | some field =>
      by_cases hseen : member.1 ∈ state.1
      · simp only [hseen, if_true]
        rfl
      · rw [List.length_append] at hbound
        have hfield := hsteady field (List.mem_of_find?_eq_some hfound) state.2 member.2 hvalue
          spacing (depth + 1) bound (by omega) spacing.afterColon rest spacing.blank_afterColon
          hrest
        simp only [hseen, if_false]
        rw [bind_of_ok (colon_cons _), toOption_bind hfield]
        unfold RecordField.reading
        cases Reader.reading (fun bound => field.fromText bound state.2) member.2 <;> rfl

theorem reads_record (default : ρ) (hsteady : ∀ field ∈ fields, field.Steady)
    {members : List (String × Value)} (hmembers : (Value.record members).isWellFormed) :
    Reads (record default fields).fromText (.record members)
      ((members.foldlM (readStored fields) ([], default)).map (·.2)) := by
  intro spacing depth bound hbound blanks rest hblanks _
  rw [Value.isWellFormed_record] at hmembers
  obtain ⟨tail, htext⟩ := spacing.text_record_eq_cons depth members
  have hread := toOption_members (fun member hmember =>
    answersMember hsteady (hmembers member hmember)
      (Nat.lt_trans (spacing.length_text_lt_of_mem_members depth hmember) hbound))
      rest ([], default) hbound
  rw [htext, List.cons_append] at hread ⊢
  unfold record
  dsimp only
  rw [peek_bind hblanks rfl]
  simp only
  rw [toOption_bind hread]
  cases members.foldlM (readStored fields) ([], default) <;> rfl

/-! ### Listed members -/

/-- Reads values in the declared order of their fields; there must be no more values than fields. -/
def readAll : List (RecordField ρ) → List Value → ρ → Option ρ
  | _, [], record => some record
  | [], _ :: _, _ => none
  | field :: fields, v :: items, record =>
    (field.reading record v).bind fun next => readAll fields items next

theorem listEnd_end {blanks : List Char} (hblanks : Blank blanks) (rest : List Char) :
    listEnd (blanks ++ ']' :: rest) = .ok ((), rest) := by
  unfold listEnd
  rw [peek_bind hblanks rfl]
  rfl

theorem listEnd_of_ne {blanks : List Char} (hblanks : Blank blanks) {c : Char}
    (hspace : isSpace c = false) (hne : c ≠ ']') (rest : List Char) :
    listEnd (blanks ++ c :: rest) = .error .malformed := by
  unfold listEnd
  rw [peek_bind hblanks hspace]
  simp only
  rfl

section Listed

variable {blanks text : List Char} {field : RecordField ρ} (hblanks : Blank blanks)
  (current : ρ) (rest : List Char)

include hblanks

theorem readListed_end (fields : List (RecordField ρ)) (separated : Bool) :
    readListed bound fields separated current (blanks ++ ']' :: rest) = .ok (current, rest) := by
  cases fields with
  | nil =>
      rw [readListed, bind_of_ok (listEnd_end hblanks rest)]
      rfl
  | cons field fields =>
      rw [readListed, peek_bind hblanks rfl]
      rfl

variable (hopens : Opens text)

include hopens

theorem readListed_first (fields : List (RecordField ρ)) :
    readListed bound (field :: fields) false current (blanks ++ (text ++ rest)) =
      (field.fromText bound current >>= fun next => readListed bound fields true next)
        (text ++ rest) := by
  obtain ⟨c, tail, rfl, hspace, hne⟩ := hopens
  rw [readListed, List.cons_append, peek_bind hblanks hspace]
  simp

theorem readListed_next (fields : List (RecordField ρ)) :
    readListed bound (field :: fields) true current (',' :: (blanks ++ (text ++ rest))) =
      (field.fromText bound current >>= fun next => readListed bound fields true next)
        (text ++ rest) := by
  obtain ⟨c, tail, rfl, hspace, hne⟩ := hopens
  have hcomma : ',' ≠ ']' := by decide
  rw [readListed, peek_bind_cons rfl]
  simp only [Bool.not_true, Bool.false_eq_true, if_false, if_true, List.cons_append]
  rw [advance_bind, peek_bind hblanks hspace]
  simp only

end Listed

theorem toOption_readListed (hsteady : ∀ field ∈ fields, field.Steady) {items : List Value}
    (hitems : ∀ item ∈ items, item.isWellFormed) (current : ρ) (rest : List Char)
    (hbound : (spacing.moreItems depth items).length ≤ bound) :
    (readListed bound fields true current (spacing.moreItems depth items ++ rest)).toOption =
      (readAll fields items current).map fun found => (found, rest) := by
  induction items generalizing fields current with
  | nil =>
      rw [Spacing.moreItems, List.append_assoc, List.singleton_append,
        readListed_end (spacing.blank_before depth)]
      cases fields <;> rfl
  | cons item items ih =>
      rw [Spacing.moreItems] at hbound ⊢
      rw [List.forall_mem_cons] at hitems
      cases fields with
      | nil =>
          have hcomma : ∀ text, listEnd (',' :: text) = .error .malformed :=
            listEnd_of_ne .nil rfl (by decide)
          rw [readListed, List.cons_append, bind_of_error (hcomma _)]
          rfl
      | cons field fields =>
          rw [List.forall_mem_cons] at hsteady
          simp only [List.length_cons, List.length_append] at hbound
          have hitem := hsteady.1 current item hitems.1 spacing (depth + 1) bound (by omega) [] _
            .nil (spacing.stops_moreItems depth items rest)
          rw [List.nil_append] at hitem
          simp only [List.cons_append, List.append_assoc]
          rw [readListed_next (spacing.blank_before _) current _ (spacing.opens_text _ hitems.1),
            toOption_bind hitem, readAll, RecordField.reading]
          cases reading (fun bound => field.fromText bound current) item with
          | none => rfl
          | some next => exact ih hsteady.2 hitems.2 next (by omega)

theorem reads_listed (default : ρ) (hsteady : ∀ field ∈ fields, field.Steady)
    {items : List Value} (hitems : (Value.list items).isWellFormed) :
    Reads (record default fields).fromText (.list items) (readAll fields items default) := by
  intro spacing depth bound hbound blanks rest hblanks _
  rw [Value.isWellFormed_list] at hitems
  have hrecord : ∀ text, (record default fields).fromText bound (blanks ++ '[' :: text) =
      readListed bound fields false default text := by
    intro text
    unfold record
    dsimp only
    rw [peek_bind hblanks rfl]
    rfl
  cases items with
  | nil =>
      have hend : readListed bound fields false default (']' :: rest) = .ok (default, rest) :=
        readListed_end .nil default rest fields false
      rw [Spacing.text, List.cons_append, hrecord, List.cons_append, List.nil_append, hend]
      cases fields <;> rfl
  | cons item items =>
      rw [List.forall_mem_cons] at hitems
      rw [Spacing.text] at hbound ⊢
      simp only [List.length_cons, List.length_append] at hbound
      simp only [List.cons_append, List.append_assoc]
      rw [hrecord]
      cases fields with
      | nil =>
          obtain ⟨c, first, hfirst, hspace, hne⟩ := spacing.opens_text (depth + 1) hitems.1
          rw [readListed, hfirst, List.cons_append,
            bind_of_error (listEnd_of_ne (spacing.blank_before _) hspace hne _)]
          rfl
      | cons field fields =>
          rw [List.forall_mem_cons] at hsteady
          have hitem := hsteady.1 default item hitems.1 spacing (depth + 1) bound (by omega) [] _
            .nil (spacing.stops_moreItems depth items rest)
          rw [List.nil_append] at hitem
          rw [readListed_first (spacing.blank_before _) default _ (spacing.opens_text _ hitems.1),
            toOption_bind hitem, readAll, RecordField.reading]
          cases reading (fun bound => field.fromText bound default) item with
          | none => rfl
          | some next => exact toOption_readListed hsteady.2 hitems.2 next rest (by omega)

/-- Neither a list nor a record is read as nothing. -/
theorem reads_record_of_scalar (default : ρ) (fields : List (RecordField ρ)) {v : Value}
    (hv : v.isWellFormed) (hscalar : ¬v.isNested) :
    Reads (record default fields).fromText v none := by
  intro spacing depth bound _ blanks rest hblanks _
  obtain ⟨c, tail, htext, _, hspace, hlist, hrecord⟩ :=
    spacing.exists_first_of_scalar depth hv hscalar
  unfold record
  dsimp only
  rw [htext, List.cons_append, peek_bind hblanks hspace]
  simp only [Option.some.injEq, hlist, hrecord, imp_self]
  exact toOption_unexpected _

theorem steady_record (default : ρ) (hsteady : ∀ field ∈ fields, field.Steady) :
    Steady (record default fields).fromText := by
  apply steady_of_reads
  intro v hv
  cases v with
  | record members => exact ⟨_, reads_record default hsteady hv⟩
  | list items => exact ⟨_, reads_listed default hsteady hv⟩
  | null | flag | number | text =>
      exact ⟨_, reads_record_of_scalar default fields hv Bool.false_ne_true⟩

end Codec

end SchemaDesign.Json
