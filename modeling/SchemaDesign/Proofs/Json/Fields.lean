import SchemaDesign.Proofs.Json.Codec

/-!
# Fields of records

The members of a record are read in the order in which they stand.  Fields that commute can as well
be filled in the order in which they are declared, each with the value that is stored for it.  So a
record and a list with the same values are read as the same.
-/

namespace SchemaDesign.Json

variable {α β ρ : Type}

/-- The value of the field with this key, which is the one at this position in a list. -/
def Value.stored? (key : String) (position : Nat) : Value → Option Value
  | .record members => members.lookup key
  | .list items => items[position]?
  | _ => none

namespace RecordField

variable {key : String} {codec : Codec α} {get : ρ → α} {set : ρ → α → ρ}

/-- Two fields can be read in either order. -/
def Commutes (field other : RecordField ρ) : Prop :=
  ∀ record v w, ((field.reading record v).bind fun next => other.reading next w) =
    (other.reading record w).bind fun next => field.reading next v

/-- Members that are set independently of each other can be set in either order. -/
theorem commutes_of {key' : String} {codec' : Codec β} {get' : ρ → β} {set' : ρ → β → ρ}
    (hset : ∀ record x y, set' (set record x) y = set (set' record y) x) :
    (of key codec get set).Commutes (of key' codec' get' set') := by
  intro record v w
  simp only [reading_of]
  cases Reader.reading codec.fromText v with
  | none => cases Reader.reading codec'.fromText w <;> rfl
  | some x =>
      cases Reader.reading codec'.fromText w with
      | none => rfl
      | some y => exact congrArg some (hset record x y)

end RecordField

namespace Codec

open Reader

variable {fields : List (RecordField ρ)}

/-- Puts the value of a field into a record, if there is one. -/
def put (field : RecordField ρ) (stored : Option Value) (current : ρ) : Option ρ :=
  match stored with
  | some v => field.reading current v
  | none => some current

/-- Puts the values of fields into a record, of which the first is at this position in a list. -/
def fill (v : Value) : Nat → List (RecordField ρ) → ρ → Option ρ
  | _, [], current => some current
  | position, field :: fields, current =>
    (put field (v.stored? field.key position) current).bind fun next =>
      fill v (position + 1) fields next

/-- Fields with different keys, each of them steady, which can be read in any order. -/
structure Lawful (fields : List (RecordField ρ)) : Prop where
  keys : (fields.map (·.key)).Nodup
  steady : ∀ field ∈ fields, field.Steady
  commute : fields.Pairwise RecordField.Commutes

/-- Reads the value of one member, if there is a field for it. -/
def assign (fields : List (RecordField ρ)) (current : ρ) (member : String × Value) : Option ρ :=
  match fields.find? (·.key == member.1) with
  | some field => field.reading current member.2
  | none => some current

theorem assign_cons (field : RecordField ρ) (fields : List (RecordField ρ)) (current : ρ)
    (member : String × Value) :
    assign (field :: fields) current member =
      if field.key = member.1 then field.reading current member.2
      else assign fields current member := by
  unfold assign
  by_cases hkey : field.key = member.1
  · rw [List.find?_cons_of_pos (by simpa using hkey), if_pos hkey]
  · rw [List.find?_cons_of_neg (by simpa using hkey), if_neg hkey]

theorem assign_of_not_mem {member : String × Value}
    (hmember : member.1 ∉ fields.map (·.key)) (current : ρ) :
    assign fields current member = some current := by
  unfold assign
  rw [List.find?_eq_none.mpr]
  intro field hfield hkey
  exact hmember (beq_iff_eq.mp hkey ▸ List.mem_map_of_mem hfield)

/-- Keys that do not repeat need not be remembered. -/
theorem foldlM_readStored {members : List (String × Value)} (hnodup : (members.map Prod.fst).Nodup)
    {seen : List String} (hnew : ∀ member ∈ members, member.1 ∉ seen) (current : ρ) :
    (members.foldlM (readStored fields) (seen, current)).map (·.2) =
      members.foldlM (assign fields) current := by
  induction members generalizing seen current with
  | nil => rfl
  | cons member members ih =>
      rw [List.map_cons, List.nodup_cons] at hnodup
      rw [List.forall_mem_cons] at hnew
      rw [List.foldlM_cons, List.foldlM_cons]
      unfold readStored assign
      cases fields.find? (·.key == member.1) with
      | none => exact ih hnodup.2 hnew.2 current
      | some field =>
          simp only [hnew.1, if_false]
          cases field.reading current member.2 with
          | none => rfl
          | some next =>
              refine ih hnodup.2 (fun other hother => ?_) next
              rw [List.mem_cons, not_or]
              refine ⟨fun hsame => hnodup.1 ?_, hnew.2 other hother⟩
              rw [← hsame]
              exact List.mem_map_of_mem hother

variable {field : RecordField ρ}

theorem assign_bind_put (hcommute : ∀ other ∈ fields, field.Commutes other)
    (stored : Option Value) (current : ρ) (member : String × Value) :
    ((assign fields current member).bind fun next => put field stored next) =
      (put field stored current).bind fun next => assign fields next member := by
  cases stored with
  | none => exact Option.bind_fun_some (assign fields current member)
  | some v =>
      unfold assign put
      cases hfound : fields.find? (·.key == member.1) with
      | none => exact (Option.bind_fun_some (field.reading current v)).symm
      | some other =>
          exact (hcommute other (List.mem_of_find?_eq_some hfound) current v member.2).symm

/-- The first field can be filled before all others, wherever its member stands. -/
theorem foldlM_assign_cons (hkey : field.key ∉ fields.map (·.key))
    (hcommute : ∀ other ∈ fields, field.Commutes other) {members : List (String × Value)}
    (hnodup : (members.map Prod.fst).Nodup) (current : ρ) :
    members.foldlM (assign (field :: fields)) current =
      (put field (members.lookup field.key) current).bind fun next =>
        members.foldlM (assign fields) next := by
  induction members generalizing current with
  | nil => rfl
  | cons member members ih =>
      rw [List.map_cons, List.nodup_cons] at hnodup
      rw [List.foldlM_cons, assign_cons, List.lookup_cons]
      by_cases hsame : field.key = member.1
      · have hnone : members.lookup field.key = none := by
          rw [List.lookup_eq_none_iff]
          intro other hother
          rw [bne_iff_ne, hsame]
          exact fun hkey => hnodup.1 (hkey ▸ List.mem_map_of_mem hother)
        have hlater : ∀ next, members.foldlM (assign (field :: fields)) next =
            members.foldlM (assign fields) next := by
          intro next
          rw [ih hnodup.2, hnone]
          rfl
        rw [if_pos hsame, beq_iff_eq.mpr hsame]
        refine congrArg _ (funext fun next => ?_)
        rw [hlater, List.foldlM_cons, assign_of_not_mem (hsame ▸ hkey)]
        rfl
      · rw [if_neg hsame, beq_eq_false_iff_ne.mpr hsame]
        have hswap := assign_bind_put hcommute (members.lookup field.key) current member
        calc
          ((assign fields current member).bind fun next =>
              members.foldlM (assign (field :: fields)) next) =
              ((assign fields current member).bind fun next =>
                (put field (members.lookup field.key) next)).bind fun next =>
                  members.foldlM (assign fields) next := by
            rw [Option.bind_assoc]
            exact congrArg _ (funext fun next => ih hnodup.2 next)
          _ = (put field (members.lookup field.key) current).bind fun next =>
              (member :: members).foldlM (assign fields) next := by
            rw [hswap, Option.bind_assoc]
            rfl

theorem foldlM_assign_eq_fill (hkeys : (fields.map (·.key)).Nodup)
    (hcommute : fields.Pairwise RecordField.Commutes) {members : List (String × Value)}
    (hnodup : (members.map Prod.fst).Nodup) (position : Nat) (current : ρ) :
    members.foldlM (assign fields) current = fill (.record members) position fields current := by
  induction fields generalizing position current with
  | nil =>
      have hnone : ∀ members : List (String × Value),
          members.foldlM (assign []) current = some current := by
        intro members
        induction members with
        | nil => rfl
        | cons member members ih => exact ih
      exact hnone members
  | cons field fields ih =>
      rw [List.map_cons, List.nodup_cons] at hkeys
      rw [List.pairwise_cons] at hcommute
      rw [foldlM_assign_cons hkeys.1 hcommute.1 hnodup, fill]
      exact congrArg _ (funext fun next => ih hkeys.2 hcommute.2 (position + 1) next)

theorem reading_record (default : ρ) (hfields : Lawful fields) {members : List (String × Value)}
    (hmembers : (Value.record members).isWellFormed) (hnodup : (members.map Prod.fst).Nodup) :
    reading (record default fields).fromText (.record members) =
      fill (.record members) 0 fields default := by
  rw [(reads_record default hfields.steady hmembers).reading_eq,
    foldlM_readStored hnodup (fun _ _ => List.not_mem_nil),
    foldlM_assign_eq_fill hfields.keys hfields.commute hnodup 0]

theorem fill_of_length_le {items : List Value} {position : Nat} (hend : items.length ≤ position)
    (fields : List (RecordField ρ)) (current : ρ) :
    fill (.list items) position fields current = some current := by
  induction fields generalizing position with
  | nil => rfl
  | cons field fields ih =>
      have hmissing : (Value.list items).stored? field.key position = none :=
        List.getElem?_eq_none hend
      rw [fill, hmissing]
      exact ih (Nat.le_succ_of_le hend)

theorem readAll_eq_fill (items : List Value) (position : Nat) (fields : List (RecordField ρ))
    (current : ρ) :
    readAll fields (items.drop position) current =
      if items.length ≤ position + fields.length then fill (.list items) position fields current
      else none := by
  induction fields generalizing position current with
  | nil =>
      by_cases hend : items.length ≤ position
      · rw [List.drop_of_length_le hend, readAll, List.length_nil, Nat.add_zero, if_pos hend]
        rfl
      · rw [List.drop_eq_getElem_cons (Nat.lt_of_not_le hend), readAll, List.length_nil,
          Nat.add_zero, if_neg hend]
  | cons field fields ih =>
      by_cases hend : items.length ≤ position
      · rw [List.drop_of_length_le hend, readAll, fill_of_length_le hend,
          if_pos (Nat.le_add_right_of_le hend)]
      · have hlt := Nat.lt_of_not_le hend
        have hstored : (Value.list items).stored? field.key position = some items[position] :=
          List.getElem?_eq_getElem hlt
        have hlength : position + (field :: fields).length = position + 1 + fields.length := by
          rw [List.length_cons]
          omega
        rw [List.drop_eq_getElem_cons hlt, readAll, fill, hstored, put, hlength]
        cases field.reading current items[position] with
        | none => simp
        | some next => exact ih (position + 1) next

/-- The values of a list come in the order of the fields; too many of them are refused. -/
theorem reading_listed (default : ρ) (hsteady : ∀ field ∈ fields, field.Steady)
    {items : List Value} (hitems : (Value.list items).isWellFormed) :
    reading (record default fields).fromText (.list items) =
      if items.length ≤ fields.length then fill (.list items) 0 fields default else none := by
  have hall := readAll_eq_fill items 0 fields default
  rw [List.drop_zero, Nat.zero_add] at hall
  rw [(reads_listed default hsteady hitems).reading_eq, hall]

theorem reading_record_of_scalar (default : ρ) (fields : List (RecordField ρ)) {v : Value}
    (hv : v.isWellFormed) (hscalar : ¬v.isNested) :
    reading (record default fields).fromText v = none :=
  (reads_record_of_scalar default fields hv hscalar).reading_eq

end Codec

end SchemaDesign.Json
