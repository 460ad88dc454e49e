import SchemaDesign.Proofs.Text.Parts
import SchemaDesign.TypeSignature

/-!
# Well-formed type signatures

A signature is well-formed when its parts are trimmed and can be told apart in its text: a name that
stands alone encloses nothing in parentheses, and where there are parameters, no part holds a
character that would end it too early.

Every text is read as a well-formed signature, and the well-formed signatures are those that are
read back from their own texts.
-/

namespace SchemaDesign.TypeSignature

open Text

variable {text name inner rest : List Char}

/-- The text lacks one kind of parenthesis, or its first closing one comes before its first opening
one. -/
def Unmatched (text : List Char) : Prop :=
  '(' ∉ text ∨ ')' ∉ text ∨ text.idxOf ')' < text.idxOf '('

inductive WellFormed : TypeSignature → Prop where
  | bare (name : String) (trimmed : Trimmed name.toList) (unmatched : Unmatched name.toList) :
      WellFormed ⟨name, none, none⟩
  | applied (name : String) (params : List String) (suffix : Option String)
      (name_trimmed : Trimmed name.toList)
      (name_plain : '(' ∉ name.toList ∧ ')' ∉ name.toList)
      (params_ne_nil : params ≠ [])
      (params_free : ∀ param ∈ params,
        Trimmed param.toList ∧ ',' ∉ param.toList ∧ ')' ∉ param.toList)
      (suffix_trimmed : ∀ text ∈ suffix, Trimmed text.toList ∧ text ≠ "") :
      WellFormed ⟨name, some params, suffix⟩

/-! ### Dividing a text -/

/-- The first opening parenthesis comes before the first closing one, and so they divide the
text. -/
structure Divides (text name inner rest : List Char) : Prop where
  text_eq : text = name ++ '(' :: (inner ++ ')' :: rest)
  name_plain : '(' ∉ name ∧ ')' ∉ name
  inner_free : ')' ∉ inner

theorem Divides.not_unmatched (h : Divides text name inner rest) : ¬Unmatched text := by
  obtain ⟨rfl, ⟨hopen, hclose⟩, hinner⟩ := h
  rintro (hnone | hnone | hbefore)
  · simp at hnone
  · simp at hnone
  · rw [List.idxOf_append_of_notMem hopen, List.idxOf_append_of_notMem hclose,
      List.idxOf_cons_self] at hbefore
    omega

theorem isParenthesis_eq_false_iff (c : Char) : isParenthesis c = false ↔ c ≠ '(' ∧ c ≠ ')' := by
  simp [isParenthesis]

theorem plain_iff (name : List Char) :
    (∀ c ∈ name, (!isParenthesis c) = true) ↔ '(' ∉ name ∧ ')' ∉ name := by
  constructor
  · intro hplain
    exact ⟨fun hmem => absurd (hplain _ hmem) (by decide),
      fun hmem => absurd (hplain _ hmem) (by decide)⟩
  · rintro ⟨hopen, hclose⟩ c hc
    rw [Bool.not_eq_true', isParenthesis_eq_false_iff]
    exact ⟨fun hsame => hopen (hsame ▸ hc), fun hsame => hclose (hsame ▸ hc)⟩

/-! ### Reading -/

theorem ofChars_of_divides (htrimmed : Trimmed text) (h : Divides text name inner rest) :
    ofChars text = ⟨trimmed name, some ((pieces ',' inner).map trimmed), someSuffix rest⟩ := by
  obtain ⟨rfl, hname, hinner⟩ := h
  have hopen : ∀ c ∈ ('(' :: (inner ++ ')' :: rest)).head?, (!isParenthesis c) = false := by
    simp [isParenthesis]
  have hclose : ∀ c ∈ (')' :: rest).head?, decide (c ≠ ')') = false := by simp
  rw [← plain_iff] at hname
  rw [← run_before_iff] at hinner
  simp only [ofChars, trim_eq_self htrimmed, dropWhile_run hname hopen, takeWhile_run hname hopen,
    dropWhile_run hinner hclose, takeWhile_run hinner hclose]

/-- The cases follow the search: for a first parenthesis, and behind an opening one for the first
closing one. -/
theorem ofChars_eq_bare_or_divides (htrimmed : Trimmed text) :
    (Unmatched text ∧ ofChars text = bare (String.ofList text)) ∨
      ∃ name inner rest, Divides text name inner rest := by
  obtain ⟨name, tail, rfl, hname, hstop⟩ := exists_run (!isParenthesis ·) text
  have hdrop := dropWhile_run hname hstop
  obtain ⟨hopen, hclose⟩ := (plain_iff name).mp hname
  cases tail with
  | nil =>
      refine .inl ⟨.inl (by simpa using hopen), ?_⟩
      simp only [ofChars, trim_eq_self htrimmed, hdrop]
  | cons c tail =>
      by_cases hc : c = '('
      · subst hc
        obtain ⟨inner, after, rfl, hinner, hend⟩ := exists_run (· ≠ ')') tail
        have hfree := run_before_iff.mp hinner
        cases after with
        | nil =>
            refine .inl ⟨.inr (.inl (by simp [hclose, hfree])), ?_⟩
            simp only [ofChars, trim_eq_self htrimmed, hdrop, dropWhile_run hinner hend]
        | cons d rest =>
            obtain rfl : d = ')' := stops_at_iff.mp hend d rfl
            exact .inr ⟨name, inner, rest, rfl, ⟨hopen, hclose⟩, hfree⟩
      · obtain rfl : c = ')' := by
          have hparenthesis : isParenthesis c = true := by simpa using hstop c rfl
          simpa [isParenthesis, hc] using hparenthesis
        refine .inl ⟨.inr (.inr ?_), ?_⟩
        · rw [List.idxOf_append_of_notMem hopen, List.idxOf_append_of_notMem hclose,
            List.idxOf_cons_self, List.idxOf_cons_ne _ (by decide)]
          omega
        · simp only [ofChars, trim_eq_self htrimmed, hdrop]
          rfl

theorem ofChars_of_unmatched (htrimmed : Trimmed text) (hunmatched : Unmatched text) :
    ofChars text = bare (String.ofList text) := by
  rcases ofChars_eq_bare_or_divides htrimmed with ⟨_, hbare⟩ | ⟨_, _, _, hdivides⟩
  · exact hbare
  · exact absurd hunmatched hdivides.not_unmatched

theorem ofChars_trim (text : List Char) : ofChars (trim text) = ofChars text := by
  rw [ofChars, ofChars, trim_eq_self (trimmed_trim text)]

theorem toList_trimmed (text : List Char) : (trimmed text).toList = trim text :=
  String.toList_ofList

theorem trimmed_toList {part : String} (h : Trimmed part.toList) : trimmed part.toList = part := by
  rw [trimmed, trim_eq_self h, String.ofList_toList]

theorem trimmed_of_mem_someSuffix {suffix : String} (h : suffix ∈ someSuffix text) :
    Trimmed suffix.toList ∧ suffix ≠ "" := by
  unfold someSuffix at h
  dsimp only at h
  split at h
  case isTrue => simp at h
  case isFalse hne =>
    obtain rfl : String.ofList (trim text) = suffix := by simpa using h
    refine ⟨by simpa using trimmed_trim text, fun hempty => hne ?_⟩
    have hnil := congrArg String.toList hempty
    simpa using hnil

theorem wellFormed_ofChars (text : List Char) : (ofChars text).WellFormed := by
  rw [← ofChars_trim]
  rcases ofChars_eq_bare_or_divides (trimmed_trim text) with ⟨hunmatched, hbare⟩ | h
  · rw [hbare]
    exact .bare _ (by simpa using trimmed_trim text) (by simpa using hunmatched)
  · obtain ⟨name, inner, rest, hdivides⟩ := h
    rw [ofChars_of_divides (trimmed_trim text) hdivides]
    have hparams : ∀ param ∈ (pieces ',' inner).map trimmed,
        Trimmed param.toList ∧ ',' ∉ param.toList ∧ ')' ∉ param.toList := by
      intro param hparam
      obtain ⟨piece, hpiece, rfl⟩ := List.mem_map.mp hparam
      obtain ⟨hcomma, hsub⟩ := free_of_mem_pieces hpiece
      rw [toList_trimmed]
      exact ⟨trimmed_trim piece, fun hmem => hcomma (trim_subset piece hmem),
        fun hmem => hdivides.inner_free (hsub (trim_subset piece hmem))⟩
    have hname : Trimmed (trimmed name).toList ∧
        '(' ∉ (trimmed name).toList ∧ ')' ∉ (trimmed name).toList := by
      rw [toList_trimmed]
      exact ⟨trimmed_trim name, fun hmem => hdivides.name_plain.1 (trim_subset name hmem),
        fun hmem => hdivides.name_plain.2 (trim_subset name hmem)⟩
    exact .applied _ _ _ hname.1 hname.2 (by simp [pieces_ne_nil]) hparams
      fun _ => trimmed_of_mem_someSuffix

/-! ### Writing -/

theorem toList_text (name : String) (params : List String) (suffix : Option String) :
    (⟨name, some params, suffix⟩ : TypeSignature).text.toList =
      name.toList ++ '(' :: ([',', ' '].intercalate (params.map String.toList) ++
        ')' :: (suffixText suffix).toList) := by
  simp [text, paramsText]

/-- A blank that follows the separator belongs to the next part. -/
theorem intercalate_blank (first : List Char) (others : List (List Char)) :
    [',', ' '].intercalate (first :: others) =
      [','].intercalate (first :: others.map (' ' :: ·)) := by
  induction others generalizing first with
  | nil => simp
  | cons next others ih =>
      rw [List.map_cons, List.intercalate_cons_cons, List.intercalate_cons_cons, ih]
      cases others <;> simp

theorem map_trimmed_pieces {params : List String} (hne : params ≠ [])
    (hparams : ∀ param ∈ params, Trimmed param.toList ∧ ',' ∉ param.toList) :
    (pieces ',' ([',', ' '].intercalate (params.map String.toList))).map trimmed = params := by
  obtain ⟨first, others, rfl⟩ := List.exists_cons_of_ne_nil hne
  obtain ⟨hfirst, hothers⟩ := List.forall_mem_cons.mp hparams
  have hfree : ∀ part ∈ first.toList :: (others.map String.toList).map (' ' :: ·), ',' ∉ part := by
    intro part hpart
    rcases List.mem_cons.mp hpart with rfl | hpart
    · exact hfirst.2
    · obtain ⟨_, hmem, rfl⟩ := List.mem_map.mp hpart
      obtain ⟨param, hparam, rfl⟩ := List.mem_map.mp hmem
      simp [(hothers param hparam).2]
  rw [List.map_cons, intercalate_blank, pieces_intercalate hfree (by simp), List.map_cons,
    trimmed_toList hfirst.1, List.map_map, List.map_map]
  congr 1
  refine (List.map_congr_left fun param hparam => ?_).trans (List.map_id others)
  have hblank : trim (' ' :: param.toList) = trim param.toList := trim_cons_of_blank rfl _
  simp only [Function.comp_apply, trimmed, hblank]
  exact trimmed_toList (hothers param hparam).1

theorem someSuffix_suffixText {suffix : Option String}
    (hsuffix : ∀ text ∈ suffix, Trimmed text.toList ∧ text ≠ "") :
    someSuffix (suffixText suffix).toList = suffix := by
  cases suffix with
  | none => rfl
  | some text =>
      obtain ⟨htrimmed, hne⟩ := hsuffix text rfl
      have hblank : trim (' ' :: text.toList) = text.toList := by
        rw [trim_cons_of_blank rfl, trim_eq_self htrimmed]
      simp [suffixText, someSuffix, hblank, hne]

theorem getLast?_suffixText {suffix : Option String}
    (hsuffix : ∀ text ∈ suffix, Trimmed text.toList ∧ text ≠ "") :
    ∀ c ∈ (suffixText suffix).toList.getLast?, isBlank c = false := by
  cases suffix with
  | none => simp [suffixText]
  | some text =>
      obtain ⟨htrimmed, hne⟩ := hsuffix text rfl
      cases hchars : text.toList with
      | nil => exact absurd (String.toList_eq_nil_iff.mp hchars) hne
      | cons d rest =>
          intro c hc
          apply htrimmed.finish
          simpa [suffixText, hchars] using hc

theorem WellFormed.parse_text {signature : TypeSignature} (h : signature.WellFormed) :
    parse signature.text = signature := by
  cases h with
  | bare name htrimmed hunmatched =>
      have htext : (⟨name, none, none⟩ : TypeSignature).text = name := by
        simp [text, paramsText, suffixText]
      rw [htext, parse, ofChars_of_unmatched htrimmed hunmatched, String.ofList_toList]
      rfl
  | applied name params suffix hname hplain hne hparams hsuffix =>
      have htrimmed : Trimmed (name.toList ++ '(' ::
          ([',', ' '].intercalate (params.map String.toList) ++ ')' ::
            (suffixText suffix).toList)) :=
        trimmed_of_ends hname.start rfl rfl (getLast?_suffixText hsuffix)
      have hinner : ')' ∉ [',', ' '].intercalate (params.map String.toList) := by
        intro hmem
        rcases mem_intercalate hmem with hmem | ⟨part, hpart, hmem⟩
        · simp at hmem
        · obtain ⟨param, hparam, rfl⟩ := List.mem_map.mp hpart
          exact (hparams param hparam).2.2 hmem
      rw [parse, toList_text, ofChars_of_divides htrimmed ⟨rfl, hplain, hinner⟩,
        trimmed_toList hname, someSuffix_suffixText hsuffix,
        map_trimmed_pieces hne fun param hparam =>
          ⟨(hparams param hparam).1, (hparams param hparam).2.1⟩]

/-- Every text is read as a well-formed signature, and a signature is well-formed exactly when it is
read back from its own text; so what was read once reads the same again. -/
theorem readings_of_type_signatures :
    (∀ text, (parse text).WellFormed) ∧
    (∀ signature : TypeSignature, signature.WellFormed ↔ parse signature.text = signature) ∧
    ∀ text, parse (parse text).text = parse text := by
  refine ⟨fun text => wellFormed_ofChars text.toList, ?_, ?_⟩
  · intro signature
    refine ⟨WellFormed.parse_text, fun h => ?_⟩
    rw [← h]
    exact wellFormed_ofChars _
  · intro text
    exact (wellFormed_ofChars text.toList).parse_text

example : (parse " TIME( 3 ,x)  WITH TIME ZONE").text = "TIME(3, x) WITH TIME ZONE" := by
  decide +kernel

end SchemaDesign.TypeSignature
