import SchemaDesign.Proofs.Design.Codecs
import SchemaDesign.Proofs.Json.Alike

/-!
# What the reading of a design depends on

The order of members, their spacing, members that are not known and the values of the two kinds have
no part in the tables of a design, its columns and the ends of its relations.  A kind comes from its
own member alone.

They have a part in whether a design is read at all, but only for kinds that exceed the limits of
the reader, with numbers beyond the range or with lists and records nested too deep.  Such a kind is
read as any other value, and so it is refused, while the same value of a member that is not known is
passed over.
-/

namespace SchemaDesign

open Json Codec Value

/-! ### Kinds -/

section Kinds

variable {κ : Type} {default : κ} {ofName? : String → Option κ} {ofIndex? : Nat → Option κ}

/-- The value is the name of the kind, or its position. -/
inductive Denotes (ofName? : String → Option κ) (ofIndex? : Nat → Option κ) : Value → κ → Prop where
  | name {name : String} {kind : κ} (hname : ofName? name = some kind) :
      Denotes ofName? ofIndex? (.text name) kind
  | index {index : Numeral} {position : Nat} {kind : κ} (hnatural : index.natural? = some position)
      (hposition : ofIndex? position = some kind) : Denotes ofName? ofIndex? (.number index) kind

/-- The kind is the one that is stored, or the default if there is none. -/
structure KindRead (default : κ) (ofName? : String → Option κ) (ofIndex? : Nat → Option κ)
    (stored : Option Value) (kind : κ) : Prop where
  denoted : ∀ value ∈ stored, ∀ other, Denotes ofName? ofIndex? value other → kind = other
  otherwise : (∀ value ∈ stored, ∀ other, ¬Denotes ofName? ofIndex? value other) → kind = default

theorem kindRead_none : KindRead default ofName? ofIndex? none default :=
  ⟨nofun, fun _ => rfl⟩

theorem kindOf_of_denotes {value : Value} {kind : κ} (h : Denotes ofName? ofIndex? value kind) :
    kindOf default ofName? ofIndex? value = kind := by
  cases h with
  | name hname => simp [kindOf, hname]
  | index hnatural hposition => simp [kindOf, hnatural, hposition]

theorem denotes_kindOf_or_default (value : Value) :
    Denotes ofName? ofIndex? value (kindOf default ofName? ofIndex? value) ∨
      kindOf default ofName? ofIndex? value = default := by
  cases value with
  | text name =>
      cases hname : ofName? name with
      | none => simp [kindOf, hname]
      | some kind =>
          refine .inl (.name ?_)
          simp [kindOf, hname]
  | number index =>
      cases hnatural : index.natural? with
      | none => simp [kindOf, hnatural]
      | some position =>
          cases hposition : ofIndex? position with
          | none => simp [kindOf, hnatural, hposition]
          | some kind =>
              refine .inl (.index hnatural ?_)
              simp [kindOf, hnatural, hposition]
  | null | flag | list | record => exact .inr rfl

theorem kindRead_kindOf (value : Value) :
    KindRead default ofName? ofIndex? (some value) (kindOf default ofName? ofIndex? value) := by
  constructor
  · rintro _ ⟨⟩ other hother
    exact kindOf_of_denotes hother
  · intro hnone
    exact (denotes_kindOf_or_default value).resolve_left (hnone value rfl _)

end Kinds

/-! ### Values that are read alike -/

namespace Table

def ReadAlike : Value → Value → Prop :=
  AlikeRecord
    [ place "id" AlikeScalar, place "name" AlikeScalar, place "posX" AlikeScalar,
      place "posY" AlikeScalar, place "isAbstract" AlikeScalar, place "color" AlikeScalar ]

theorem respects : codec.Respects ReadAlike Eq := by
  refine respects_record lawful_fields rfl ?_
  refine .cons (.of_place respects_scalar ?_) <| .cons (.of_place respects_scalar ?_) <|
    .cons (.of_place respects_scalar ?_) <| .cons (.of_place respects_scalar ?_) <|
    .cons (.of_place respects_scalar ?_) <| .cons (.of_place respects_scalar ?_) .nil
  all_goals
    rintro _ _ _ _ rfl rfl
    rfl

end Table

namespace Column

def ReadAlike : Value → Value → Prop :=
  AlikeRecord
    [ place "id" AlikeScalar, place "tableId" AlikeScalar, place "name" AlikeScalar,
      place "type" AlikeScalar, place "isPrimaryKey" AlikeScalar, place "isForeignKey" AlikeScalar,
      place "isNullable" AlikeScalar, place "isUnique" AlikeScalar,
      place "defaultValue" AlikeScalar ]

theorem respects : codec.Respects ReadAlike Eq := by
  refine respects_record lawful_fields rfl ?_
  refine .cons (.of_place respects_scalar ?_) <| .cons (.of_place respects_scalar ?_) <|
    .cons (.of_place respects_scalar ?_) <| .cons (.of_place respects_scalar ?_) <|
    .cons (.of_place respects_scalar ?_) <| .cons (.of_place respects_scalar ?_) <|
    .cons (.of_place respects_scalar ?_) <| .cons (.of_place respects_scalar ?_) <|
    .cons (.of_place respects_scalar ?_) .nil
  all_goals
    rintro _ _ _ _ rfl rfl
    rfl

end Column

namespace Relation

/-- The fields of relations, with what is asked of their kinds. -/
def places (kind : String × Likeness) : List (String × Likeness) :=
  [ place "sourceTableId" AlikeScalar, place "sourceColumnId" AlikeScalar,
    place "targetTableId" AlikeScalar, place "targetColumnId" AlikeScalar, kind ]

def ReadAlike : Value → Value → Prop :=
  AlikeRecord (places (freePlace "kind"))

/-- How deep the value of a kind may be nested. -/
def kindDepth : Nat := nestingLimit - 3

/-- The value for the kind is within the limits of the reader. -/
def KindFits (value : Value) : Prop :=
  ∀ stored ∈ value.stored? "kind" 4, stored.fits kindDepth

instance decidableKindFits (value : Value) : Decidable (KindFits value) :=
  inferInstanceAs (Decidable (∀ stored ∈ value.stored? "kind" 4, _))

def LimitedAlike : Value → Value → Prop :=
  AlikeRecord (places (limitedPlace kindDepth "kind"))

theorem limitedAlike {value other : Value} (halike : ReadAlike value other)
    (hvalue : KindFits value) (hother : KindFits other) : LimitedAlike value other := by
  refine ⟨halike.form, ?_⟩
  have hstored := halike.stored
  simp only [places, List.zipIdx_cons, List.zipIdx_nil, List.forall_mem_cons] at hstored ⊢
  obtain ⟨hsource, hsourceColumn, htarget, htargetColumn, -, hnone⟩ := hstored
  exact ⟨hsource, hsourceColumn, htarget, htargetColumn, ⟨hvalue, hother⟩, hnone⟩

def SameEnds (relation other : Relation) : Prop :=
  relation.source = other.source ∧ relation.target = other.target

theorem respects : codec.Respects LimitedAlike SameEnds := by
  refine respects_record lawful_fields ⟨rfl, rfl⟩ ?_
  refine .cons (.of_place respects_scalar ?_) <| .cons (.of_place respects_scalar ?_) <|
    .cons (.of_place respects_scalar ?_) <| .cons (.of_place respects_scalar ?_) <|
    .cons (.of_limitedPlace ?_) .nil
  case refine_5 =>
    intro relation twin _ hsame
    exact ⟨hsame, hsame⟩
  all_goals
    rintro relation twin x _ ⟨hsource, htarget⟩ rfl
    exact ⟨by simp [hsource], by simp [htarget]⟩

end Relation

namespace Design

def places (relation : Value → Value → Prop) (kind : String × Likeness) :
    List (String × Likeness) :=
  [ place "tables" (AlikeList Table.ReadAlike), place "columns" (AlikeList Column.ReadAlike),
    place "relations" (AlikeList relation), kind ]

/-- The values differ only in the order of members, in members that are not known and in kinds. -/
def ReadAlike : Value → Value → Prop :=
  AlikeRecord (places Relation.ReadAlike (freePlace "tableInheritanceKind"))

def kindDepth : Nat := nestingLimit - 1

def listed : Option Value → List Value
  | some (.list items) => items
  | _ => []

/-- The values for the kinds are within the limits of the reader. -/
structure KindsFit (value : Value) : Prop where
  inheritance : ∀ stored ∈ value.stored? "tableInheritanceKind" 3, stored.fits kindDepth
  relations : ∀ item ∈ listed (value.stored? "relations" 2), Relation.KindFits item

instance decidableKindsFit (value : Value) : Decidable (KindsFit value) :=
  decidable_of_iff
    ((∀ stored ∈ value.stored? "tableInheritanceKind" 3, stored.fits kindDepth) ∧
      ∀ item ∈ listed (value.stored? "relations" 2), Relation.KindFits item)
    ⟨fun h => ⟨h.1, h.2⟩, fun h => ⟨h.inheritance, h.relations⟩⟩

structure SameButKinds (design other : Design) : Prop where
  tables : design.tables = other.tables
  columns : design.columns = other.columns
  relations : List.Forall₂ Relation.SameEnds design.relations other.relations

def LimitedAlike : Value → Value → Prop :=
  AlikeRecord (places Relation.LimitedAlike (limitedPlace kindDepth "tableInheritanceKind"))

theorem rel_limitedAlike {stored other : Option Value}
    (halike : Option.Rel (AlikeList Relation.ReadAlike) stored other)
    (hstored : ∀ item ∈ listed stored, Relation.KindFits item)
    (hother : ∀ item ∈ listed other, Relation.KindFits item) :
    Option.Rel (AlikeList Relation.LimitedAlike) stored other := by
  cases halike with
  | none => exact .none
  | some halike =>
      refine .some ?_
      cases halike with
      | items halike =>
          refine .items ((forall₂_and_mem_zip halike).imp fun item twin h => ?_)
          obtain ⟨hitem, htwin⟩ := List.of_mem_zip h.2
          exact Relation.limitedAlike h.1 (hstored item hitem) (hother twin htwin)
      | records => exact .records _ _
      | scalar hscalar => exact .scalar hscalar

theorem limitedAlike {value other : Value} (halike : ReadAlike value other)
    (hvalue : KindsFit value) (hother : KindsFit other) : LimitedAlike value other := by
  refine ⟨halike.form, ?_⟩
  have hstored := halike.stored
  simp only [places, List.zipIdx_cons, List.zipIdx_nil, List.forall_mem_cons] at hstored ⊢
  obtain ⟨htables, hcolumns, hrelations, -, hnone⟩ := hstored
  exact ⟨htables, hcolumns, rel_limitedAlike hrelations hvalue.relations hother.relations,
    ⟨hvalue.inheritance, hother.inheritance⟩, hnone⟩

theorem respects : codec.Respects LimitedAlike SameButKinds := by
  refine respects_record lawful_fields ⟨rfl, rfl, .nil⟩ ?_
  have htables := respects_list Table.steady_codec Table.respects
  have hcolumns := respects_list Column.steady_codec Column.respects
  have hrelations := respects_list Relation.steady_codec Relation.respects
  rw [List.forall₂_eq_eq_eq] at htables hcolumns
  refine .cons (.of_place htables ?_) <| .cons (.of_place hcolumns ?_) <|
    .cons (.of_place hrelations ?_) <| .cons (.of_limitedPlace ?_) .nil
  · rintro design twin _ _ hsame rfl
    exact ⟨rfl, hsame.columns, hsame.relations⟩
  · rintro design twin _ _ hsame rfl
    exact ⟨hsame.tables, rfl, hsame.relations⟩
  · intro design twin _ _ hsame hrelations
    exact ⟨hsame.tables, hsame.columns, hrelations⟩
  · rintro design twin _ ⟨htables, hcolumns, hrelations⟩
    exact ⟨⟨htables, hcolumns, hrelations⟩, htables, hcolumns, hrelations⟩

end Design

/-! ### Where kinds come from -/

theorem kindRead_of_put {ρ κ : Type} {default : κ} {ofName? : String → Option κ}
    {ofIndex? : Nat → Option κ} {key : String} {depth : Nat} {name : κ → String} {get : ρ → κ}
    {set : ρ → κ → ρ} (hset : ∀ record kind, get (set record kind) = kind) {stored : Option Value}
    (hstored : ∀ v ∈ stored, v.isWellFormed) {current next : ρ} (hget : get current = default)
    (hput : put (.of key (kind depth name (kindOf default ofName? ofIndex?)) get set) stored
      current = some next) :
    (∀ v ∈ stored, v.fits depth) ∧ KindRead default ofName? ofIndex? stored (get next) := by
  cases stored with
  | none =>
      rw [← Option.some.inj hput, hget]
      exact ⟨fun _ => nofun, kindRead_none⟩
  | some v =>
      rw [put_kind (hstored v rfl)] at hput
      split at hput
      case isTrue hfits =>
        rw [← Option.some.inj hput, hset]
        refine ⟨?_, kindRead_kindOf v⟩
        rintro _ ⟨⟩
        exact hfits
      case isFalse => cases hput

namespace Relation

def KindFrom (value : Value) (relation : Relation) : Prop :=
  KindRead .oneToOne RelationKind.ofName? RelationKind.ofIndex? (value.stored? "kind" 4)
    relation.kind

theorem kindFrom_of_reading {value : Value} {relation : Relation} (hvalue : value.isWellFormed)
    (hkeys : value.HasDistinctKeys) (hread : Reader.reading codec.fromText value = some relation) :
    KindFits value ∧ relation.KindFrom value := by
  have hothers : ∀ field ∈ fields.take 4, Keeps field Relation.kind := by
    simp only [fields, List.take, List.forall_mem_cons]
    refine ⟨.of ?_ _ _ _, .of ?_ _ _ _, .of ?_ _ _ _, .of ?_ _ _ _, List.forall_mem_nil _⟩
    all_goals exact fun _ _ => rfl
  have hlast : ∀ field ∈ ([] : List (RecordField Relation)), Keeps field Relation.kind :=
    List.forall_mem_nil _
  obtain ⟨current, next, hcurrent, hput, hkind⟩ :=
    exists_put_of_fill hothers hlast (fill_of_reading lawful_fields hvalue hkeys hread)
  rw [KindFrom, hkind]
  exact kindRead_of_put (fun _ _ => rfl) (isWellFormed_of_stored hvalue _ _) hcurrent hput

end Relation

namespace Design

structure KindsFrom (value : Value) (design : Design) : Prop where
  inheritance : KindRead .singleTable InheritanceKind.ofName? InheritanceKind.ofIndex?
    (value.stored? "tableInheritanceKind" 3) design.inheritance
  relations : List.Forall₂ Relation.KindFrom (listed (value.stored? "relations" 2)) design.relations

theorem relations_of_put {stored : Option Value} (hstored : ∀ v ∈ stored, v.isWellFormed)
    {design next : Design} (hempty : design.relations = [])
    (hput : put (.of "relations" (.list Relation.codec) Design.relations
      fun design relations => { design with relations := relations }) stored design = some next) :
    List.Forall₂ (fun item relation => Reader.reading Relation.codec.fromText item = some relation)
      (listed stored) next.relations := by
  cases stored with
  | none =>
      rw [← Option.some.inj hput, hempty]
      exact .nil
  | some v =>
      have hv := hstored v rfl
      rw [put, RecordField.reading_of] at hput
      obtain ⟨relations, hread, rfl⟩ := Option.map_eq_some_iff.mp hput
      by_cases hlist : ∃ items, v = .list items
      · obtain ⟨items, rfl⟩ := hlist
        rw [(reads_list Relation.steady_codec hv).reading_eq] at hread
        exact mapM_eq_some_iff.mp hread
      · rw [(reads_list_of_ne hv (not_exists.mp hlist)).reading_eq] at hread
        cases hread

section Read

variable {value : Value} {design : Design} (hvalue : value.isWellFormed)
  (hfill : fill value 0 fields (.empty .singleTable) = some design)

include hvalue hfill

theorem inheritance_of_fill :
    (∀ stored ∈ value.stored? "tableInheritanceKind" 3, stored.fits kindDepth) ∧
      KindRead .singleTable InheritanceKind.ofName? InheritanceKind.ofIndex?
        (value.stored? "tableInheritanceKind" 3) design.inheritance := by
  have hothers : ∀ field ∈ fields.take 3, Keeps field Design.inheritance := by
    simp only [fields, List.take, List.forall_mem_cons]
    refine ⟨.of ?_ _ _ _, .of ?_ _ _ _, .of ?_ _ _ _, List.forall_mem_nil _⟩
    all_goals exact fun _ _ => rfl
  have hlast : ∀ field ∈ ([] : List (RecordField Design)), Keeps field Design.inheritance :=
    List.forall_mem_nil _
  obtain ⟨current, next, hcurrent, hput, hkind⟩ := exists_put_of_fill hothers hlast hfill
  rw [hkind]
  exact kindRead_of_put (fun _ _ => rfl) (isWellFormed_of_stored hvalue _ _) hcurrent hput

theorem relations_of_fill :
    List.Forall₂ (fun item relation => Reader.reading Relation.codec.fromText item = some relation)
      (listed (value.stored? "relations" 2)) design.relations := by
  have hbefore : ∀ field ∈ fields.take 2, Keeps field Design.relations := by
    simp only [fields, List.take, List.forall_mem_cons]
    refine ⟨.of ?_ _ _ _, .of ?_ _ _ _, List.forall_mem_nil _⟩
    all_goals exact fun _ _ => rfl
  have hafter : ∀ field ∈ fields.drop 3, Keeps field Design.relations := by
    simp only [fields, List.drop, List.forall_mem_cons]
    refine ⟨.of ?_ _ _ _, List.forall_mem_nil _⟩
    exact fun _ _ => rfl
  obtain ⟨current, next, hcurrent, hput, hrelations⟩ :=
    exists_put_of_fill hbefore hafter hfill
  rw [hrelations]
  exact relations_of_put (isWellFormed_of_stored hvalue _ _) hcurrent hput

end Read

theorem isWellFormed_of_listed {stored : Option Value} (hstored : ∀ v ∈ stored, v.isWellFormed) :
    ∀ item ∈ listed stored, item.isWellFormed := by
  cases stored with
  | none => exact fun _ => nofun
  | some v =>
      cases v with
      | list items => exact (isWellFormed_list items).mp (hstored _ rfl)
      | null | flag | number | text | record => exact fun _ => nofun

theorem hasDistinctKeys_of_listed {stored other : Option Value}
    (halike : Option.Rel (AlikeList Relation.ReadAlike) stored other) :
    (∀ item ∈ listed stored, item.HasDistinctKeys) ∧
      ∀ item ∈ listed other, item.HasDistinctKeys := by
  cases halike with
  | none => exact ⟨fun _ => nofun, fun _ => nofun⟩
  | @some v w halike =>
      cases halike with
      | items halike =>
          constructor
          · intro item hitem
            obtain ⟨twin, _, h⟩ := exists_of_forall₂ halike hitem
            exact h.form.hasDistinctKeys.1
          · intro twin htwin
            obtain ⟨item, _, h⟩ := exists_of_forall₂ halike.flip htwin
            exact h.form.hasDistinctKeys.2
      | records => exact ⟨fun _ => nofun, fun _ => nofun⟩
      | scalar hscalar =>
          cases v with
          | list => exact absurd rfl hscalar
          | null | flag | number | text | record => exact ⟨fun _ => nofun, fun _ => nofun⟩

/-- A design is read only if its kinds fit, and each of them comes from its own member. -/
theorem kindsFrom_of_reading {value : Value} {design : Design} (hvalue : value.isWellFormed)
    (hkeys : value.HasDistinctKeys)
    (hitems : ∀ item ∈ listed (value.stored? "relations" 2), item.HasDistinctKeys)
    (hread : Reader.reading codec.fromText value = some design) :
    KindsFit value ∧ design.KindsFrom value := by
  have hfill := fill_of_reading lawful_fields hvalue hkeys hread
  obtain ⟨hfits, hinheritance⟩ := inheritance_of_fill hvalue hfill
  have hwell := isWellFormed_of_listed (isWellFormed_of_stored hvalue "relations" 2)
  have hrelations : List.Forall₂
      (fun item relation => Relation.KindFits item ∧ Relation.KindFrom item relation)
      (listed (value.stored? "relations" 2)) design.relations := by
    refine (forall₂_and_mem_zip (relations_of_fill hvalue hfill)).imp fun item relation h => ?_
    have hitem := (List.of_mem_zip h.2).1
    exact Relation.kindFrom_of_reading (hwell item hitem) (hitems item hitem) h.1
  refine ⟨⟨hfits, fun item hitem => ?_⟩, hinheritance, hrelations.imp fun _ _ h => h.2⟩
  obtain ⟨_, _, h⟩ := exists_of_forall₂ hrelations hitem
  exact h.1

/-- Alike values are both refused, or the designs read from them have the same tables, the same
columns and relations with the same ends, in the same order, unless a kind of one of them exceeds
the limits of the reader; that one is refused.  In any design that is read, each kind is the one
that its own member denotes, and the first of its sort if that denotes none. -/
theorem reading_alike {value other : Value} (hvalue : value.isWellFormed)
    (hother : other.isWellFormed) (halike : ReadAlike value other) (spacing spacing' : Spacing) :
    (KindsFit value → KindsFit other →
      Option.Rel SameButKinds (ofText (spacing.printed value)).toOption
        (ofText (spacing'.printed other)).toOption) ∧
      (∀ design, ofText (spacing.printed value) = .ok design →
        KindsFit value ∧ design.KindsFrom value) ∧
      ∀ design, ofText (spacing'.printed other) = .ok design →
        KindsFit other ∧ design.KindsFrom other := by
  have hread := steady_codec.toOption_printed hvalue spacing
  have hreadOther := steady_codec.toOption_printed hother spacing'
  have hstored := halike.stored
  simp only [places, List.zipIdx_cons, List.zipIdx_nil, List.forall_mem_cons] at hstored
  obtain ⟨-, -, hrelations, -, -⟩ := hstored
  have hkeys := halike.form.hasDistinctKeys
  have hitems := hasDistinctKeys_of_listed hrelations
  refine ⟨fun hfits hfitsOther => ?_, fun design hdesign => ?_, fun design hdesign => ?_⟩
  · have hsame := respects value other hvalue hother (limitedAlike halike hfits hfitsOther)
    rwa [← hread, ← hreadOther] at hsame
  · exact kindsFrom_of_reading hvalue hkeys.1 hitems.1
      (hread.symm.trans (congrArg Except.toOption hdesign))
  · exact kindsFrom_of_reading hother hkeys.2 hitems.2
      (hreadOther.symm.trans (congrArg Except.toOption hdesign))

def draft : Value :=
  .record
    [ ("tables", .list
        [ .record [("id", .text "author"), ("name", .text "Author"), ("posX", .ofNat 12)],
          .list [.text "book", .text "Book"] ]),
      ("columns", .list [.record [("id", .text "key"), ("tableId", .text "author")]]),
      ("relations", .list
        [ .record
            [ ("sourceTableId", .text "book"), ("targetTableId", .text "author"),
              ("kind", .text "InheritsFrom") ] ]),
      ("tableInheritanceKind", .ofNat 2) ]

/-- Members in another order, some that are not known, and two kinds that are none. -/
def copiedDraft : Value :=
  .record
    [ ("tableInheritanceKind", .list [.ofNat 2]),
      ("relations", .list
        [ .record
            [ ("kind", .record [("kind", .text "InheritsFrom")]), ("label", .text "is written by"),
              ("targetTableId", .text "author"), ("sourceTableId", .text "book") ] ]),
      ("columns", .list
        [ .record
            [ ("tableId", .text "author"), ("rank", .number ⟨false, ['1'], [], some 999⟩),
              ("id", .text "key") ] ]),
      ("tables", .list
        [ .record [("posX", .ofNat 12), ("name", .text "Author"), ("id", .text "author")],
          .list [.text "book", .text "Book"] ]) ]

theorem rel_alikeScalar_of_eq {stored other : Option Value} (h : stored = other) :
    Option.Rel AlikeScalar stored other := by
  subst h
  cases stored with
  | none => exact .none
  | some value => exact .some (.same value)

theorem draft_alike_copiedDraft : ReadAlike draft copiedDraft := by
  have hauthor : Table.ReadAlike
      (.record [("id", .text "author"), ("name", .text "Author"), ("posX", .ofNat 12)])
      (.record [("posX", .ofNat 12), ("name", .text "Author"), ("id", .text "author")]) := by
    refine ⟨.records (by decide) (by decide), ?_⟩
    simp only [List.zipIdx_cons, List.zipIdx_nil, List.forall_mem_cons]
    exact ⟨rel_alikeScalar_of_eq rfl, rel_alikeScalar_of_eq rfl, rel_alikeScalar_of_eq rfl,
      .none, .none, .none, nofun⟩
  have hbook : Table.ReadAlike (.list [.text "book", .text "Book"])
      (.list [.text "book", .text "Book"]) := by
    refine ⟨.lists Iff.rfl, ?_⟩
    simp only [List.zipIdx_cons, List.zipIdx_nil, List.forall_mem_cons]
    exact ⟨rel_alikeScalar_of_eq rfl, rel_alikeScalar_of_eq rfl, .none, .none, .none, .none, nofun⟩
  have hkey : Column.ReadAlike (.record [("id", .text "key"), ("tableId", .text "author")])
      (.record
        [ ("tableId", .text "author"), ("rank", .number ⟨false, ['1'], [], some 999⟩),
          ("id", .text "key") ]) := by
    refine ⟨.records (by decide) (by decide), ?_⟩
    simp only [List.zipIdx_cons, List.zipIdx_nil, List.forall_mem_cons]
    exact ⟨rel_alikeScalar_of_eq rfl, rel_alikeScalar_of_eq rfl, .none, .none, .none, .none, .none,
      .none, .none, nofun⟩
  have hauthorOfBook : Relation.ReadAlike
      (.record
        [ ("sourceTableId", .text "book"), ("targetTableId", .text "author"),
          ("kind", .text "InheritsFrom") ])
      (.record
        [ ("kind", .record [("kind", .text "InheritsFrom")]), ("label", .text "is written by"),
          ("targetTableId", .text "author"), ("sourceTableId", .text "book") ]) := by
    refine ⟨.records (by decide) (by decide), ?_⟩
    simp only [Relation.places, List.zipIdx_cons, List.zipIdx_nil, List.forall_mem_cons]
    exact ⟨rel_alikeScalar_of_eq rfl, .none, rel_alikeScalar_of_eq rfl, .none, trivial, nofun⟩
  refine ⟨.records (by decide) (by decide), ?_⟩
  simp only [places, List.zipIdx_cons, List.zipIdx_nil, List.forall_mem_cons]
  exact ⟨.some (.items (.cons hauthor (.cons hbook .nil))), .some (.items (.cons hkey .nil)),
    .some (.items (.cons hauthorOfBook .nil)), trivial, nofun⟩

theorem draft_and_copiedDraft_read :
    ∃ design twin, ofText draft.compact = .ok design ∧ ofText copiedDraft.pretty = .ok twin ∧
      design.SameButKinds twin ∧ design.KindsFrom draft ∧ twin.KindsFrom copiedDraft ∧
      design.inheritance = .concreteTable ∧ twin.inheritance = .singleTable := by
  obtain ⟨hsame, hdraft, hcopy⟩ :=
    reading_alike (by decide) (by decide) draft_alike_copiedDraft .compact .pretty
  have hrel := hsame (by decide) (by decide)
  rw [← compact_eq_printed] at hrel hdraft
  rw [← pretty_eq_printed] at hrel hcopy
  have hkind : (ofText draft.compact).toOption.map (·.inheritance) = some .concreteTable := by
    rw [ofText, Codec.ofText, Value.compact, Reader.whole, String.toList_ofList]
    decide +kernel
  cases hread : ofText draft.compact with
  | error fault =>
      rw [hread] at hkind
      cases hkind
  | ok design =>
      cases hreadCopy : ofText copiedDraft.pretty with
      | error fault =>
          rw [hread, hreadCopy] at hrel
          cases hrel
      | ok twin =>
          rw [hread, hreadCopy] at hrel
          rw [hread] at hkind
          cases hrel with
          | some hsame =>
              have hkinds := (hcopy twin hreadCopy).2
              refine ⟨design, twin, rfl, rfl, hsame, (hdraft design hread).2, hkinds,
                Option.some.inj hkind, hkinds.inheritance.otherwise ?_⟩
              rintro _ ⟨⟩ kind ⟨⟩

/-- The relation has a kind that is a number beyond the range. -/
def overstated : Value :=
  .record
    [ ("relations", .list
        [ .record
            [ ("sourceTableId", .text "a"), ("targetTableId", .text "b"),
              ("kind", .number ⟨false, ['1'], [], some 999⟩) ] ]) ]

def unstated : Value :=
  .record
    [("relations", .list [.record [("sourceTableId", .text "a"), ("targetTableId", .text "b")]])]

theorem overstated_alike_unstated : ReadAlike overstated unstated := by
  have hrelation : Relation.ReadAlike
      (.record
        [ ("sourceTableId", .text "a"), ("targetTableId", .text "b"),
          ("kind", .number ⟨false, ['1'], [], some 999⟩) ])
      (.record [("sourceTableId", .text "a"), ("targetTableId", .text "b")]) := by
    refine ⟨.records (by decide) (by decide), ?_⟩
    simp only [Relation.places, List.zipIdx_cons, List.zipIdx_nil, List.forall_mem_cons]
    exact ⟨rel_alikeScalar_of_eq rfl, .none, rel_alikeScalar_of_eq rfl, .none, trivial, nofun⟩
  refine ⟨.records (by decide) (by decide), ?_⟩
  simp only [places, List.zipIdx_cons, List.zipIdx_nil, List.forall_mem_cons]
  exact ⟨.none, .none, .some (.items (.cons hrelation .nil)), trivial, nofun⟩

theorem not_all_kinds_read :
    ¬∀ value other : Value, value.isWellFormed → other.isWellFormed → ReadAlike value other →
      ((ofText value.compact).toOption.isSome ↔ (ofText other.compact).toOption.isSome) := by
  intro h
  have hboth := h overstated unstated (by decide) (by decide) overstated_alike_unstated
  have hread : (ofText overstated.compact).toOption.isSome = false ∧
      (ofText unstated.compact).toOption.isSome = true := by
    decide +kernel
  rw [hread.1, hread.2] at hboth
  exact Bool.false_ne_true (hboth.mpr rfl)

end Design

end SchemaDesign
