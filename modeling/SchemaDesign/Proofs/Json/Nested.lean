import SchemaDesign.Proofs.Json.Scalar

/-!
# Lists and records

What comes after the opening bracket is read like what comes after a comma, so both loops are
followed from an item or a member to the closing bracket.  A loop fails with the first part that is
not read; otherwise it puts together what the parts are read as.

A value that fits the limits is read as itself.  A value that is not looked at has no limits.
-/

namespace SchemaDesign.Json.Reader

variable {α σ : Type} {spacing : Spacing} {depth : Nat}

/-! ### Items -/

theorem items_of_opens {blanks text rest : List Char} (hblanks : Blank blanks) (hopens : Opens text)
    (element : Reader α) (bound : Nat) :
    items bound element ('[' :: (blanks ++ (text ++ rest))) =
      (element >>= fun item => moreItems element bound >>= fun items => pure (item :: items))
        (text ++ rest) := by
  obtain ⟨c, tail, rfl, hspace, hne⟩ := hopens
  rw [items, advance_bind, List.cons_append, peek_bind hblanks hspace]
  simp

theorem moreItems_of_opens {blanks text rest : List Char} (hblanks : Blank blanks)
    (hopens : Opens text) (element : Reader α) (bound : Nat) :
    moreItems element (bound + 1) (',' :: (blanks ++ (text ++ rest))) =
      (element >>= fun item => moreItems element bound >>= fun items => pure (item :: items))
        (text ++ rest) := by
  obtain ⟨c, tail, rfl, hspace, hne⟩ := hopens
  rw [moreItems, peek_bind_cons rfl]
  simp only
  rw [advance_bind, List.cons_append, peek_bind hblanks hspace]
  simp

theorem moreItems_end {blanks rest : List Char} (hblanks : Blank blanks) (element : Reader α)
    (bound : Nat) : moreItems element (bound + 1) (blanks ++ ']' :: rest) = .ok ([], rest) := by
  rw [moreItems, peek_bind hblanks rfl]
  rfl

variable {element : Reader α} {decode : Value → Option α} {items : List Value}

theorem toOption_moreItems (hwell : ∀ item ∈ items, item.isWellFormed)
    (hitems : ∀ item ∈ items, element.Answers (spacing.text (depth + 1) item) (decode item))
    (rest : List Char) (rounds : Nat) (hrounds : (spacing.moreItems depth items).length ≤ rounds) :
    (moreItems element rounds (spacing.moreItems depth items ++ rest)).toOption =
      (items.mapM decode).map fun found => (found, rest) := by
  induction items generalizing rounds with
  | nil =>
      obtain ⟨rounds, rfl⟩ : ∃ n, rounds = n + 1 :=
        ⟨rounds - 1, by simp [Spacing.moreItems] at hrounds; omega⟩
      rw [Spacing.moreItems, List.append_assoc, List.singleton_append,
        moreItems_end (spacing.blank_before depth)]
      rfl
  | cons item items ih =>
      rw [List.forall_mem_cons] at hwell hitems
      rw [Spacing.moreItems] at hrounds ⊢
      simp only [List.length_cons, List.length_append] at hrounds
      obtain ⟨rounds, rfl⟩ : ∃ n, rounds = n + 1 := ⟨rounds - 1, by omega⟩
      have hitem := hitems.1 [] _ .nil (spacing.stops_moreItems depth items rest)
      have hmore := ih hwell.2 hitems.2 rounds (by omega)
      rw [List.nil_append] at hitem
      simp only [List.cons_append, List.append_assoc]
      rw [moreItems_of_opens (spacing.blank_before _) (spacing.opens_text _ hwell.1),
        toOption_bind hitem, List.mapM_cons]
      cases decode item with
      | none => rfl
      | some found =>
          rw [Option.bind_some, toOption_bind hmore]
          cases items.mapM decode <;> rfl

theorem toOption_items (hwell : ∀ item ∈ items, item.isWellFormed)
    (hitems : ∀ item ∈ items, element.Answers (spacing.text (depth + 1) item) (decode item))
    (rest : List Char) {bound : Nat} (hbound : (spacing.text depth (.list items)).length < bound) :
    (Reader.items bound element (spacing.text depth (.list items) ++ rest)).toOption =
      (items.mapM decode).map fun found => (found, rest) := by
  cases items with
  | nil => rfl
  | cons item items =>
      have hopens := spacing.opens_text (depth + 1) (hwell item List.mem_cons_self)
      rw [Spacing.text] at hbound ⊢
      simp only [List.length_cons, List.length_append] at hbound
      have hmore := toOption_moreItems hwell hitems rest (bound + 1)
      rw [Spacing.moreItems] at hmore
      simp only [List.length_cons, List.length_append, List.cons_append, List.append_assoc]
        at hmore ⊢
      rw [moreItems_of_opens (spacing.blank_before _) hopens] at hmore
      rw [items_of_opens (spacing.blank_before _) hopens]
      exact hmore (by omega)

/-! ### Members -/

theorem colon_cons (rest : List Char) : colon (':' :: rest) = .ok ((), rest) := by
  rw [colon, peek_bind_cons rfl]
  rfl

theorem members_of_key {blanks : List Char} (hblanks : Blank blanks) (key : String)
    (rest : List Char) (member : σ → String → Reader σ) (bound : Nat) (state : σ) :
    members bound member state ('\x7b' :: (blanks ++ (stringText key ++ rest))) =
      (member state key >>= fun state => moreMembers member bound state) rest := by
  have hkey := string_stringText key rest
  rw [stringText, List.cons_append] at hkey ⊢
  rw [members, advance_bind, peek_bind hblanks rfl]
  exact bind_of_ok hkey _

theorem moreMembers_of_key {blanks : List Char} (hblanks : Blank blanks) (key : String)
    (rest : List Char) (member : σ → String → Reader σ) (bound : Nat) (state : σ) :
    moreMembers member (bound + 1) state (',' :: (blanks ++ (stringText key ++ rest))) =
      (member state key >>= fun state => moreMembers member bound state) rest := by
  have hkey := string_stringText key rest
  rw [stringText, List.cons_append] at hkey ⊢
  rw [moreMembers, peek_bind_cons rfl]
  simp only
  rw [advance_bind, peek_bind hblanks rfl]
  exact bind_of_ok hkey _

theorem moreMembers_end {blanks : List Char} (hblanks : Blank blanks) (rest : List Char)
    (member : σ → String → Reader σ) (bound : Nat) (state : σ) :
    moreMembers member (bound + 1) state (blanks ++ '\x7d' :: rest) = .ok (state, rest) := by
  rw [moreMembers, peek_bind hblanks rfl]
  rfl

/-- What follows the key of a member changes the state in this way. -/
def AnswersMember (member : σ → String → Reader σ) (key : String) (text : List Char)
    (step : σ → Option σ) : Prop :=
  ∀ state rest, Stops rest →
    (member state key (':' :: (text ++ rest))).toOption =
      (step state).map fun next => (next, rest)

variable {member : σ → String → Reader σ} {step : σ → String × Value → Option σ}
  {members : List (String × Value)}

theorem toOption_moreMembers
    (hmembers : ∀ entry ∈ members, AnswersMember member entry.1
      (spacing.afterColon ++ spacing.text (depth + 1) entry.2) fun state => step state entry)
    (rest : List Char) (state : σ) (rounds : Nat)
    (hrounds : (spacing.moreMembers depth members).length ≤ rounds) :
    (moreMembers member rounds state (spacing.moreMembers depth members ++ rest)).toOption =
      (members.foldlM step state).map fun found => (found, rest) := by
  induction members generalizing state rounds with
  | nil =>
      obtain ⟨rounds, rfl⟩ : ∃ n, rounds = n + 1 :=
        ⟨rounds - 1, by simp [Spacing.moreMembers] at hrounds; omega⟩
      rw [Spacing.moreMembers, List.append_assoc, List.singleton_append,
        moreMembers_end (spacing.blank_before depth)]
      rfl
  | cons entry members ih =>
      rw [List.forall_mem_cons] at hmembers
      rw [Spacing.moreMembers] at hrounds ⊢
      simp only [List.length_cons, List.length_append] at hrounds
      obtain ⟨rounds, rfl⟩ : ∃ n, rounds = n + 1 := ⟨rounds - 1, by omega⟩
      have hentry := hmembers.1 state _ (spacing.stops_moreMembers depth members rest)
      simp only [List.cons_append, List.append_assoc] at hentry ⊢
      rw [moreMembers_of_key (spacing.blank_before _), toOption_bind hentry, List.foldlM_cons]
      cases step state entry with
      | none => rfl
      | some next => exact ih hmembers.2 next rounds (by omega)

theorem toOption_members
    (hmembers : ∀ entry ∈ members, AnswersMember member entry.1
      (spacing.afterColon ++ spacing.text (depth + 1) entry.2) fun state => step state entry)
    (rest : List Char) (state : σ) {bound : Nat}
    (hbound : (spacing.text depth (.record members)).length < bound) :
    (Reader.members bound member state (spacing.text depth (.record members) ++ rest)).toOption =
      (members.foldlM step state).map fun found => (found, rest) := by
  cases members with
  | nil => rfl
  | cons entry members =>
      rw [Spacing.text] at hbound ⊢
      simp only [List.length_cons, List.length_append] at hbound
      have hmore := toOption_moreMembers hmembers rest state (bound + 1)
      rw [Spacing.moreMembers] at hmore
      simp only [List.length_cons, List.length_append, List.cons_append, List.append_assoc]
        at hmore ⊢
      rw [moreMembers_of_key (spacing.blank_before _)] at hmore
      rw [members_of_key (spacing.blank_before _)]
      exact hmore (by omega)

/-! ### Values -/

theorem mapM_guard (p : Value → Bool) (items : List Value) :
    (items.mapM fun item => if p item then some item else none) =
      if items.all p then some items else none := by
  induction items with
  | nil => rfl
  | cons item items ih =>
      rw [List.mapM_cons, ih, List.all_cons]
      cases p item with
      | false => rfl
      | true => cases items.all p <;> rfl

theorem foldlM_guard (p : Value → Bool) (members found : List (String × Value)) :
    (members.foldlM (fun found entry => if p entry.2 then some (entry :: found) else none) found) =
      if members.all (fun entry => p entry.2) then some (members.reverse ++ found) else none := by
  induction members generalizing found with
  | nil => rfl
  | cons entry members ih =>
      rw [List.foldlM_cons, List.all_cons, List.reverse_cons, List.append_assoc]
      cases p entry.2 with
      | false => rfl
      | true => exact ih (entry :: found)

section Value

variable {bound limit : Nat}

theorem answers_scalar {v : Value} (hv : v.isWellFormed) (hscalar : ¬v.isNested)
    (spacing : Spacing) (depth bound limit : Nat) :
    (value bound limit).Answers (spacing.text depth v) (if v.fits limit then some v else none) := by
  intro blanks rest hblanks hrest
  have hread := scalar_scalarText hscalar hv hrest
  obtain ⟨c, tail, htext, htoken, hspace, hlist, hrecord⟩ :=
    spacing.exists_first_of_scalar depth hv hscalar
  rw [htoken, List.cons_append] at hread
  rw [htext, List.cons_append, Value.fits_of_not_isNested hscalar]
  have hvalue : value bound limit (blanks ++ c :: (tail ++ rest)) =
      scalar (c :: (tail ++ rest)) := by
    cases limit with
    | zero =>
        rw [value, peek_bind hblanks hspace]
        simp only [Option.some.injEq, hlist, imp_self, hrecord]
    | succ limit =>
        rw [value, peek_bind hblanks hspace]
        simp only [Option.some.injEq, hlist, imp_self, hrecord]
  rw [hvalue, hread]
  cases v.fits 0 <;> rfl

theorem answers_list (hwell : ∀ item ∈ items, item.isWellFormed)
    (hitems : ∀ item ∈ items, (value bound limit).Answers (spacing.text (depth + 1) item)
      (if item.fits limit then some item else none))
    (hbound : (spacing.text depth (.list items)).length < bound) :
    (value bound (limit + 1)).Answers (spacing.text depth (.list items))
      (if (Value.list items).fits (limit + 1) then some (.list items) else none) := by
  intro blanks rest hblanks _
  obtain ⟨tail, htext⟩ := spacing.text_list_eq_cons depth items
  have hread := toOption_items hwell hitems rest hbound
  rw [htext, List.cons_append] at hread ⊢
  rw [value, peek_bind hblanks rfl]
  simp only
  rw [toOption_bind hread, mapM_guard, Value.fits, Value.allFit_eq_all]
  cases items.all (·.fits limit) <;> rfl

theorem answers_record
    (hmembers : ∀ entry ∈ members, (value bound limit).Answers (spacing.text (depth + 1) entry.2)
      (if entry.2.fits limit then some entry.2 else none))
    (hbound : (spacing.text depth (.record members)).length < bound) :
    (value bound (limit + 1)).Answers (spacing.text depth (.record members))
      (if (Value.record members).fits (limit + 1) then some (.record members) else none) := by
  intro blanks rest hblanks _
  obtain ⟨tail, htext⟩ := spacing.text_record_eq_cons depth members
  have hmember : ∀ entry ∈ members, AnswersMember (fun found key => do
      colon
      return (key, ← value bound limit) :: found)
        entry.1 (spacing.afterColon ++ spacing.text (depth + 1) entry.2) fun found =>
          if entry.2.fits limit then some (entry :: found) else none := by
    intro entry hmem found rest hrest
    have hvalue := hmembers entry hmem spacing.afterColon rest spacing.blank_afterColon hrest
    beta_reduce
    rw [List.append_assoc, bind_of_ok (colon_cons _), toOption_bind hvalue]
    cases entry.2.fits limit <;> rfl
  have hread := toOption_members hmember rest [] hbound
  rw [htext, List.cons_append] at hread ⊢
  rw [value, peek_bind hblanks rfl]
  simp only
  rw [toOption_bind hread, foldlM_guard (·.fits limit), Value.fits, Value.membersFit_eq_all,
    List.append_nil]
  cases members.all (·.2.fits limit) with
  | false => rfl
  | true => simp [pure_apply, Except.toOption]

/-- A value that fits is read as itself. -/
theorem answers_value {v : Value} (hv : v.isWellFormed) (spacing : Spacing) (depth limit : Nat)
    (hbound : (spacing.text depth v).length < bound) :
    (value bound limit).Answers (spacing.text depth v) (if v.fits limit then some v else none) := by
  induction v using Value.induction generalizing depth limit with
  | scalar v hscalar => exact answers_scalar hv hscalar spacing depth bound limit
  | list items ih =>
      cases limit with
      | zero =>
          intro blanks rest hblanks _
          obtain ⟨tail, htext⟩ := spacing.text_list_eq_cons depth items
          rw [htext, value, List.cons_append, peek_bind hblanks rfl]
          rfl
      | succ limit =>
          rw [Value.isWellFormed_list] at hv
          refine answers_list hv (fun item hmem => ?_) hbound
          have hlength := spacing.length_text_lt_of_mem_items depth hmem
          exact ih item hmem (hv item hmem) (depth + 1) limit (by omega)
  | record members ih =>
      cases limit with
      | zero =>
          intro blanks rest hblanks _
          obtain ⟨tail, htext⟩ := spacing.text_record_eq_cons depth members
          rw [htext, value, List.cons_append, peek_bind hblanks rfl]
          rfl
      | succ limit =>
          rw [Value.isWellFormed_record] at hv
          refine answers_record (fun entry hmem => ?_) hbound
          have hlength := spacing.length_text_lt_of_mem_members depth hmem
          rw [List.length_append] at hlength
          exact ih entry hmem (hv entry hmem) (depth + 1) limit (by omega)

end Value

theorem reads_value {v : Value} (hv : v.isWellFormed) (limit : Nat) :
    Reads (fun bound => value bound limit) v (if v.fits limit then some v else none) :=
  fun spacing depth _ hbound => answers_value hv spacing depth limit hbound

end SchemaDesign.Json.Reader
