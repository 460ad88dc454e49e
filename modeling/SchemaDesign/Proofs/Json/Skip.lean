import SchemaDesign.Proofs.Json.Nested

/-!
# Values that are not looked at

The value of a member that is not known is passed over whatever it is: its numbers have no range,
and its lists and records may be nested to any depth.  It is passed token by token, and what
encloses a token is the same before a value and after it.
-/

namespace SchemaDesign.Json.Reader

variable {spacing : Spacing} {depth : Nat} {enclosing enclosing' enclosing'' : List Bracket}
  {position position' position'' : Position} {blanks text more rest : List Char}

/-! ### Strings and numbers -/

theorem skipStringRest_short {letter c : Char} (hletter : shortEscape? letter = some c)
    (rest : List Char) : skipStringRest ('\\' :: letter :: rest) = skipStringRest rest := by
  rw [skipStringRest.eq_def]
  simp [hletter]

theorem skipStringRest_control {c : Char} (hc : c.toNat < 0x20) (rest : List Char) :
    skipStringRest
      ('\\' :: 'u' :: '0' :: '0' :: hexDigit (c.toNat / 16) :: hexDigit (c.toNat % 16) :: rest) =
        skipStringRest rest := by
  rw [skipStringRest]
  simp [shortEscape?, codeUnit?_of_lt hc]

theorem skipStringRest_plain {c : Char} (hquote : c ≠ '"') (hbackslash : c ≠ '\\')
    (hcontrol : ¬c.toNat < 0x20) (rest : List Char) :
    skipStringRest (c :: rest) = skipStringRest rest := by
  rw [skipStringRest.eq_def]
  simpa [hquote, hbackslash] using fun hlt => absurd hlt hcontrol

theorem skipStringRest_escaped (c : Char) (rest : List Char) :
    skipStringRest (escaped c ++ rest) = skipStringRest rest := by
  unfold escaped
  split_ifs with hquote hbackslash hb hf hn hr ht hcontrol
  · exact skipStringRest_short rfl rest
  · exact skipStringRest_short rfl rest
  · exact skipStringRest_short rfl rest
  · exact skipStringRest_short rfl rest
  · exact skipStringRest_short rfl rest
  · exact skipStringRest_short rfl rest
  · exact skipStringRest_short rfl rest
  · exact skipStringRest_control hcontrol rest
  · exact skipStringRest_plain hquote hbackslash hcontrol rest

theorem skipString_stringText (value : String) (rest : List Char) :
    skipString (stringText value ++ rest) = .ok ((), rest) := by
  have hrest : ∀ value : List Char,
      skipStringRest (value.flatMap escaped ++ '"' :: rest) = .ok rest := by
    intro value
    induction value with
    | nil =>
        rw [List.flatMap_nil, List.nil_append, skipStringRest.eq_def]
        simp
    | cons c value ih => rw [List.flatMap_cons, List.append_assoc, skipStringRest_escaped, ih]
  simp [skipString, stringText, hrest, Except.map]

theorem skipNumber_text {n : Numeral} (hn : n.WellFormed) (hrest : Stops rest) :
    skipNumber (n.text ++ rest) = .ok ((), rest) := by
  rw [skipNumber, numeral_of_wellFormed hn hrest]

/-! ### Tokens -/

/-- The text is passed over in at most as many rounds as it has characters. -/
def Passes (text : List Char) (enclosing : List Bracket) (position : Position)
    (enclosing' : List Bracket) (position' : Position) (rest : List Char) : Prop :=
  ∀ rounds, text.length ≤ rounds → ∃ left, rounds ≤ left + text.length ∧
    skipFrom rounds enclosing position (text ++ rest) = skipFrom left enclosing' position' rest

theorem Passes.append (h : Passes text enclosing position enclosing' position' (more ++ rest))
    (hmore : Passes more enclosing' position' enclosing'' position'' rest) :
    Passes (text ++ more) enclosing position enclosing'' position'' rest := by
  intro rounds hrounds
  rw [List.length_append] at hrounds ⊢
  obtain ⟨left, hleft, heq⟩ := h rounds (by omega)
  obtain ⟨left', hleft', heq'⟩ := hmore left (by omega)
  exact ⟨left', by omega, by rw [List.append_assoc, heq, heq']⟩

theorem skipFrom_succ (bound : Nat) (hopen : enclosing = [] → position = .after → False) {c : Char}
    (hblanks : Blank blanks) (hspace : isSpace c = false) (rest : List Char) :
    skipFrom (bound + 1) enclosing position (blanks ++ c :: rest) =
      (skipToken c enclosing position >>= fun next => skipFrom bound next.1 next.2)
        (c :: rest) := by
  rw [skipFrom, peek_bind hblanks hspace]
  exact hopen

theorem passes_token {c : Char} {tail : List Char}
    (hopen : enclosing = [] → position = .after → False) (hblanks : Blank blanks)
    (hspace : isSpace c = false)
    (htoken : skipToken c enclosing position (c :: (tail ++ rest)) =
      .ok ((enclosing', position'), rest)) :
    Passes (blanks ++ c :: tail) enclosing position enclosing' position' rest := by
  intro rounds hrounds
  simp only [List.length_append, List.length_cons] at hrounds ⊢
  obtain ⟨rounds, rfl⟩ : ∃ n, rounds = n + 1 := ⟨rounds - 1, by omega⟩
  refine ⟨rounds, by omega, ?_⟩
  rw [List.append_assoc, List.cons_append, skipFrom_succ rounds hopen hblanks hspace,
    bind_of_ok htoken]

/-- Before the first item there is nothing but the item. -/
theorem Passes.firstItem (hopens : Opens text) (hblanks : Blank blanks)
    (h : Passes (blanks ++ text) enclosing .start enclosing' position' rest) :
    Passes (blanks ++ text) enclosing .firstItem enclosing' position' rest := by
  intro rounds hrounds
  obtain ⟨left, hleft, heq⟩ := h rounds hrounds
  refine ⟨left, hleft, heq ▸ ?_⟩
  obtain ⟨c, tail, rfl, hspace, hne⟩ := hopens
  cases rounds with
  | zero => simp at hrounds
  | succ rounds =>
      have hsame : skipToken c enclosing .firstItem = skipToken c enclosing .start := if_neg hne
      rw [List.append_assoc, List.cons_append, skipFrom_succ rounds (by simp) hblanks hspace,
        skipFrom_succ rounds (by simp) hblanks hspace, hsame]

/-- A key with its colon is passed before the first member and before any other. -/
theorem passes_key (hposition : position = .firstKey ∨ position = .key) (hblanks : Blank blanks)
    (key : String) (rest : List Char) :
    Passes (blanks ++ (stringText key ++ [':'])) enclosing position enclosing .start rest := by
  have hstring := skipString_stringText key (':' :: rest)
  rw [stringText, List.cons_append] at hstring
  rw [stringText, List.cons_append]
  have hkeyed : skipToken.keyed '"' enclosing
      ('"' :: (key.toList.flatMap escaped ++ ['"'] ++ [':'] ++ rest)) =
        .ok ((enclosing, .start), rest) := by
    rw [skipToken.keyed, if_pos rfl]
    simp only [List.append_assoc, List.cons_append, List.nil_append] at hstring ⊢
    rw [bind_of_ok hstring, bind_of_ok (colon_cons rest)]
    rfl
  rcases hposition with rfl | rfl
  · exact passes_token (by simp) hblanks rfl hkeyed
  · exact passes_token (by simp) hblanks rfl hkeyed

theorem skipToken_scalar {v : Value} (hv : v.isWellFormed) (hscalar : ¬v.isNested)
    (hrest : Stops rest) {c : Char} {tail : List Char} (htext : scalarText v = c :: tail)
    (hlist : c ≠ '[') (hrecord : c ≠ '\x7b') :
    skipToken c enclosing .start (c :: (tail ++ rest)) = .ok ((enclosing, .after), rest) := by
  rw [skipToken, skipToken.opening, if_neg hlist, if_neg hrecord]
  cases v with
  | null =>
      obtain ⟨rfl, rfl⟩ := List.cons.inj htext
      rfl
  | flag value =>
      cases value with
      | false =>
          obtain ⟨rfl, rfl⟩ := List.cons.inj htext
          rfl
      | true =>
          obtain ⟨rfl, rfl⟩ := List.cons.inj htext
          rfl
  | number n =>
      have hn := (Value.isWellFormed_number n).mp hv
      obtain ⟨first, after, hfirst, hc⟩ := exists_text_eq_cons hn.toDigital
      have hnumber := skipNumber_text hn hrest
      rw [scalarText] at htext
      obtain rfl : first = c := (List.cons.inj (hfirst.symm.trans htext)).1
      have hquote : first ≠ '"' := by
        rintro rfl
        simp at hc
      rw [if_neg hquote, if_pos hc]
      rw [htext, List.cons_append] at hnumber
      rw [bind_of_ok hnumber]
      rfl
  | text value =>
      have hstring := skipString_stringText value rest
      obtain ⟨rfl, rfl⟩ := List.cons.inj htext
      rw [if_pos rfl]
      rw [stringText, List.cons_append] at hstring
      rw [bind_of_ok hstring]
      rfl
  | list items => exact absurd rfl hscalar
  | record members => exact absurd rfl hscalar

/-! ### Values -/

theorem passes_moreItems {items : List Value}
    (hitems : ∀ item ∈ items, ∀ blanks rest, Blank blanks → Stops rest →
      Passes (blanks ++ spacing.text (depth + 1) item) (.square :: enclosing) .start
        (.square :: enclosing) .after rest) (rest : List Char) :
    Passes (spacing.moreItems depth items) (.square :: enclosing) .after enclosing .after rest := by
  induction items with
  | nil => exact passes_token nofun (spacing.blank_before depth) rfl rfl
  | cons item items ih =>
      rw [List.forall_mem_cons] at hitems
      have hcomma : Passes ([] ++ [',']) (.square :: enclosing) .after (.square :: enclosing) .start
          (spacing.before (depth + 1) ++ spacing.text (depth + 1) item ++
            spacing.moreItems depth items ++ rest) :=
        passes_token nofun .nil rfl rfl
      have hitem := hitems.1 _ _ (spacing.blank_before (depth + 1))
        (spacing.stops_moreItems depth items rest)
      exact hcomma.append (hitem.append (ih hitems.2))

/-- The text of a member behind the blanks before its key. -/
theorem passes_member {member : String × Value}
    (hposition : position = .firstKey ∨ position = .key) (hblanks : Blank blanks)
    (hvalue : Passes (spacing.afterColon ++ spacing.text (depth + 1) member.2) enclosing .start
      enclosing .after rest) :
    Passes (blanks ++ (stringText member.1 ++ [':']) ++
      (spacing.afterColon ++ spacing.text (depth + 1) member.2)) enclosing position enclosing .after
        rest :=
  (passes_key hposition hblanks member.1 _).append hvalue

theorem passes_moreMembers {members : List (String × Value)}
    (hmembers : ∀ member ∈ members, ∀ blanks rest, Blank blanks → Stops rest →
      Passes (blanks ++ spacing.text (depth + 1) member.2) (.curly :: enclosing) .start
        (.curly :: enclosing) .after rest) (rest : List Char) :
    Passes (spacing.moreMembers depth members) (.curly :: enclosing) .after enclosing .after
      rest := by
  induction members with
  | nil => exact passes_token nofun (spacing.blank_before depth) rfl rfl
  | cons member members ih =>
      rw [List.forall_mem_cons] at hmembers
      have hcomma : ∀ more, Passes ([] ++ [',']) (.curly :: enclosing) .after
          (.curly :: enclosing) .key more :=
        fun more => passes_token nofun .nil rfl rfl
      have hvalue := hmembers.1 _ _ spacing.blank_afterColon
        (spacing.stops_moreMembers depth members rest)
      have hmember := passes_member (.inr rfl) (spacing.blank_before (depth + 1)) hvalue
      have hall := (hcomma _).append (hmember.append (ih hmembers.2))
      rw [Spacing.moreMembers]
      simpa using hall

theorem passes_list {items : List Value} (hwell : ∀ item ∈ items, item.isWellFormed)
    (hitems : ∀ item ∈ items, ∀ blanks rest, Blank blanks → Stops rest →
      Passes (blanks ++ spacing.text (depth + 1) item) (.square :: enclosing) .start
        (.square :: enclosing) .after rest) (hblanks : Blank blanks) (rest : List Char) :
    Passes (blanks ++ spacing.text depth (.list items)) enclosing .start enclosing .after rest := by
  have hopening : ∀ more, Passes (blanks ++ ['[']) enclosing .start (.square :: enclosing)
      .firstItem more :=
    fun more => passes_token nofun hblanks rfl rfl
  cases items with
  | nil =>
      have hclosing : Passes ([] ++ [']']) (.square :: enclosing) .firstItem enclosing .after
          rest :=
        passes_token nofun .nil rfl rfl
      simpa [Spacing.text] using (hopening _).append hclosing
  | cons item items =>
      rw [List.forall_mem_cons] at hwell hitems
      have hfirst := (hitems.1 _ _ (spacing.blank_before (depth + 1))
        (spacing.stops_moreItems depth items rest)).firstItem
          (spacing.opens_text (depth + 1) hwell.1) (spacing.blank_before (depth + 1))
      have hall := (hopening _).append (hfirst.append (passes_moreItems hitems.2 rest))
      rw [Spacing.text]
      simpa using hall

theorem passes_record {members : List (String × Value)}
    (hmembers : ∀ member ∈ members, ∀ blanks rest, Blank blanks → Stops rest →
      Passes (blanks ++ spacing.text (depth + 1) member.2) (.curly :: enclosing) .start
        (.curly :: enclosing) .after rest) (hblanks : Blank blanks) (rest : List Char) :
    Passes (blanks ++ spacing.text depth (.record members)) enclosing .start enclosing .after
      rest := by
  have hopening : ∀ more, Passes (blanks ++ ['\x7b']) enclosing .start (.curly :: enclosing)
      .firstKey more :=
    fun more => passes_token nofun hblanks rfl rfl
  cases members with
  | nil =>
      have hclosing : Passes ([] ++ ['\x7d']) (.curly :: enclosing) .firstKey enclosing .after
          rest :=
        passes_token nofun .nil rfl rfl
      simpa [Spacing.text] using (hopening _).append hclosing
  | cons member members =>
      rw [List.forall_mem_cons] at hmembers
      have hvalue := hmembers.1 _ _ spacing.blank_afterColon
        (spacing.stops_moreMembers depth members rest)
      have hfirst := passes_member (.inl rfl) (spacing.blank_before (depth + 1)) hvalue
      have hall := (hopening _).append (hfirst.append (passes_moreMembers hmembers.2 rest))
      rw [Spacing.text]
      simpa using hall

theorem passes_value {v : Value} (hv : v.isWellFormed) (spacing : Spacing) (depth : Nat)
    (enclosing : List Bracket) {blanks rest : List Char} (hblanks : Blank blanks)
    (hrest : Stops rest) :
    Passes (blanks ++ spacing.text depth v) enclosing .start enclosing .after rest := by
  induction v using Value.induction generalizing depth enclosing blanks rest with
  | scalar v hscalar =>
      obtain ⟨c, tail, htext, htoken, hspace, hlist, hrecord⟩ :=
        spacing.exists_first_of_scalar depth hv hscalar
      rw [htext]
      exact passes_token nofun hblanks hspace
        (skipToken_scalar hv hscalar hrest htoken hlist hrecord)
  | list items ih =>
      rw [Value.isWellFormed_list] at hv
      refine passes_list hv (fun item hitem blanks rest hblanks hrest => ?_) hblanks rest
      exact ih item hitem (hv item hitem) (depth + 1) (.square :: enclosing) hblanks hrest
  | record members ih =>
      rw [Value.isWellFormed_record] at hv
      refine passes_record (fun member hmember blanks rest hblanks hrest => ?_) hblanks rest
      exact ih member hmember (hv member hmember) (depth + 1) (.curly :: enclosing) hblanks hrest

/-- A value that is not looked at has no limits. -/
theorem skip_text {v : Value} (hv : v.isWellFormed) (spacing : Spacing) (depth : Nat) {bound : Nat}
    {blanks rest : List Char} (hblanks : Blank blanks) (hrest : Stops rest)
    (hbound : (blanks ++ spacing.text depth v).length ≤ bound) :
    skip bound (blanks ++ (spacing.text depth v ++ rest)) = .ok ((), rest) := by
  obtain ⟨left, _, hpasses⟩ := passes_value hv spacing depth [] hblanks hrest bound hbound
  rw [List.append_assoc] at hpasses
  rw [skip, hpasses]
  cases left <;> rfl

end SchemaDesign.Json.Reader
