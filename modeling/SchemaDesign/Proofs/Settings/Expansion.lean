import SchemaDesign.Proofs.Related
import SchemaDesign.Proofs.Text.Parts
import SchemaDesign.Settings.Basic

/-!
# Readings of texts with variables

A reading divides a text from left to right into plain text, references in braces, bare references
and dollar signs that stand for themselves.  The rules of the division leave no choice, so every
text has one reading, and the segments of a text are that reading.

The expansion of a text puts together what the segments stand for.  It fails exactly when a segment
refers to a variable that is not set, and the error names the first one.
-/

namespace SchemaDesign

namespace Expansion

open Text

/-- The reading of a text, one rule for each kind of segment. -/
inductive Reads : List Char → List Segment → Prop where
  | done : Reads [] []
  /-- Plain text goes up to the next dollar sign. -/
  | literal {text rest : List Char} {reading : List Segment} (ne_nil : text ≠ [])
      (plain : '$' ∉ text) (stops : ∀ c ∈ rest.head?, c = '$') (after : Reads rest reading) :
      Reads (text ++ rest) (.literal text :: reading)
  /-- A name in braces goes up to the first closing brace. -/
  | braced {name rest : List Char} {reading : List Segment} (closes : '\x7d' ∉ name)
      (after : Reads rest reading) :
      Reads ('$' :: '\x7b' :: (name ++ '\x7d' :: rest)) (.braced name :: reading)
  /-- Without a closing brace the name goes up to the end. -/
  | unclosed {name : List Char} (never : '\x7d' ∉ name) :
      Reads ('$' :: '\x7b' :: name) [.braced name]
  /-- A bare name is a longest run of name characters. -/
  | bare {name rest : List Char} {reading : List Segment} (ne_nil : name ≠ [])
      (named : ∀ c ∈ name, isNameCharacter c = true)
      (stops : ∀ c ∈ rest.head?, isNameCharacter c = false) (after : Reads rest reading) :
      Reads ('$' :: (name ++ rest)) (.bare name :: reading)
  | dollar {rest : List Char} {reading : List Segment}
      (stops : ∀ c ∈ rest.head?, c ≠ '\x7b' ∧ isNameCharacter c = false)
      (after : Reads rest reading) : Reads ('$' :: rest) (.dollar :: reading)

variable {text name rest : List Char} {reading : List Segment}

/-! ### One reading for each text -/

/-- The name after an opening brace ends at a closing brace, or it goes up to the end. -/
theorem reads_braced (after : Reads (rest.dropWhile (· ≠ '\x7d')).tail reading)
    (hend : rest.dropWhile (· ≠ '\x7d') = [] → reading = []) :
    Reads ('$' :: '\x7b' :: rest) (.braced (rest.takeWhile (· ≠ '\x7d')) :: reading) := by
  obtain ⟨name, tail, rfl, hname, htail⟩ := exists_run (· ≠ '\x7d') rest
  rw [dropWhile_run hname htail] at after hend
  rw [takeWhile_run hname htail]
  rw [run_before_iff] at hname
  rw [stops_at_iff] at htail
  cases tail with
  | nil =>
      rw [hend rfl, List.append_nil]
      exact .unclosed hname
  | cons c tail =>
      obtain rfl : c = '\x7d' := htail c rfl
      exact .braced hname after

theorem reads_segments (text : List Char) : Reads text (segments text) := by
  fun_induction segments text with
  | case1 => exact .done
  | case2 c rest hc ih =>
      obtain ⟨run, tail, rfl, hrun, htail⟩ := exists_run (· ≠ '$') rest
      rw [dropWhile_run hrun htail] at ih ⊢
      rw [takeWhile_run hrun htail, ← List.cons_append]
      rw [run_before_iff] at hrun
      exact .literal (List.cons_ne_nil c run) (List.not_mem_cons_of_ne_of_not_mem hc.symm hrun)
        (stops_at_iff.mp htail) ih
  | case3 c rest hc hbrace ih =>
      obtain rfl : c = '$' := not_not.mp hc
      obtain ⟨tail, rfl⟩ := List.head?_eq_some_iff.mp hbrace
      refine reads_braced ih fun hend => ?_
      rw [List.tail_cons, hend, List.tail_nil, segments]
  | case4 c rest hc hbrace hname ih =>
      obtain rfl : c = '$' := not_not.mp hc
      obtain ⟨name, tail, rfl, hnamed, htail⟩ := exists_run isNameCharacter rest
      rw [takeWhile_run hnamed htail] at hname
      subst hname
      exact .dollar (fun d hd => ⟨fun heq => hbrace (heq ▸ hd), htail d hd⟩) ih
  | case5 c rest hc hbrace hname ih =>
      obtain rfl : c = '$' := not_not.mp hc
      obtain ⟨name, tail, rfl, hnamed, htail⟩ := exists_run isNameCharacter rest
      rw [dropWhile_run hnamed htail] at ih ⊢
      rw [takeWhile_run hnamed htail] at hname ⊢
      exact .bare hname hnamed htail ih

/-- A name character opens no braces. -/
theorem head?_ne_brace_of_named (ne_nil : name ≠ [])
    (named : ∀ c ∈ name, isNameCharacter c = true) : (name ++ rest).head? ≠ some '\x7b' := by
  obtain ⟨c, others, rfl⟩ := List.exists_cons_of_ne_nil ne_nil
  intro hbrace
  obtain rfl : c = '\x7b' := by simpa using hbrace
  exact absurd (named _ List.mem_cons_self) (by decide +kernel)

theorem Reads.eq_segments (h : Reads text reading) : reading = segments text := by
  induction h with
  | done => rw [segments]
  | @literal text rest reading ne_nil plain stops after ih =>
      obtain ⟨c, run, rfl⟩ := List.exists_cons_of_ne_nil ne_nil
      obtain ⟨hc, hrun⟩ := List.ne_and_not_mem_of_not_mem_cons plain
      rw [← run_before_iff] at hrun
      rw [← stops_at_iff] at stops
      rw [List.cons_append, segments, if_pos (Ne.symm hc), takeWhile_run hrun stops,
        dropWhile_run hrun stops, ih]
  | @braced name rest reading closes after ih =>
      rw [← run_before_iff] at closes
      have hstops : ∀ c ∈ ('\x7d' :: rest).head?, decide (c ≠ '\x7d') = false := by simp
      rw [segments, if_neg (not_not.mpr rfl), if_pos List.head?_cons, List.tail_cons,
        takeWhile_run closes hstops, dropWhile_run closes hstops, List.tail_cons, ih]
  | @unclosed name never =>
      rw [← run_before_iff] at never
      rw [segments, if_neg (not_not.mpr rfl), if_pos List.head?_cons, List.tail_cons,
        List.takeWhile_eq_self_iff.mpr never, List.dropWhile_eq_nil_iff.mpr never, List.tail_nil,
        segments]
  | @bare name rest reading ne_nil named stops after ih =>
      rw [segments, if_neg (not_not.mpr rfl), if_neg (head?_ne_brace_of_named ne_nil named),
        takeWhile_run named stops, dropWhile_run named stops, if_neg ne_nil, ih]
  | @dollar rest reading stops after ih =>
      have hbrace : rest.head? ≠ some '\x7b' := fun hbrace => (stops _ hbrace).1 rfl
      have hname : rest.takeWhile isNameCharacter = [] := by
        rw [← List.nil_append rest]
        exact takeWhile_run (List.forall_mem_nil _) fun c hc => (stops c hc).2
      rw [segments, if_neg (not_not.mpr rfl), if_neg hbrace, if_pos hname, ih]

theorem reads_iff : Reads text reading ↔ reading = segments text :=
  ⟨Reads.eq_segments, fun h => h ▸ reads_segments text⟩

/-! ### What segments stand for -/

/-- The text that takes the place of a segment.  The value of a variable is taken as it is. -/
inductive StandsFor (environment : String → Option String) : Segment → String → Prop where
  | literal (text : List Char) : StandsFor environment (.literal text) (String.ofList text)
  | dollar : StandsFor environment .dollar "$"
  | reference {segment : Segment} {name value : String} (names : segment.name? = some name)
      (set : environment name = some value) : StandsFor environment segment value

/-- The segment refers to a variable that is not set. -/
def Unset (environment : String → Option String) (segment : Segment) (name : String) : Prop :=
  segment.name? = some name ∧ environment name = none

section Values

variable {environment : String → Option String} {segment : Segment} {name value : String}

theorem valueOf_eq_ok_iff :
    Segment.value.valueOf environment name = .ok value ↔ environment name = some value := by
  rw [Segment.value.valueOf]
  cases environment name <;> simp

theorem valueOf_eq_error_iff {missing : String} :
    Segment.value.valueOf environment name = .error missing ↔
      name = missing ∧ environment name = none := by
  rw [Segment.value.valueOf]
  cases environment name <;> simp

theorem value_eq_valueOf (h : segment.name? = some name) :
    segment.value environment = Segment.value.valueOf environment name := by
  cases segment <;> cases h <;> rfl

theorem value_eq_ok_iff :
    segment.value environment = .ok value ↔ StandsFor environment segment value := by
  constructor
  · intro h
    cases segment with
    | literal text =>
        obtain rfl := Except.ok.inj h
        exact .literal text
    | braced name => exact .reference rfl (valueOf_eq_ok_iff.mp h)
    | bare name => exact .reference rfl (valueOf_eq_ok_iff.mp h)
    | dollar =>
        obtain rfl := Except.ok.inj h
        exact .dollar
  · intro h
    cases h with
    | literal text => rfl
    | dollar => rfl
    | reference names set => exact (value_eq_valueOf names).trans (valueOf_eq_ok_iff.mpr set)

theorem value_eq_error_iff :
    segment.value environment = .error name ↔ Unset environment segment name := by
  constructor
  · intro h
    cases segment with
    | literal text => cases h
    | braced other | bare other =>
        obtain ⟨rfl, hnone⟩ := valueOf_eq_error_iff.mp h
        exact ⟨rfl, hnone⟩
    | dollar => cases h
  · rintro ⟨hname, hnone⟩
    exact (value_eq_valueOf hname).trans (valueOf_eq_error_iff.mpr ⟨rfl, hnone⟩)

/-- A segment stands for something unless it refers to a variable that is not set. -/
theorem exists_value_iff :
    (∃ value, segment.value environment = .ok value) ↔
      ∀ name, ¬ Unset environment segment name := by
  simp only [← value_eq_error_iff]
  cases segment.value environment <;> simp

end Values

/-! ### Expansions -/

section Expansions

variable {environment : String → Option String} {text : String}

theorem expand_eq_ok_iff {result : String} :
    expand environment text = .ok result ↔
      ∃ values, List.Forall₂ (StandsFor environment) (segments text.toList) values ∧
        result = String.join values := by
  have hvalues (values : List String) :
      (segments text.toList).mapM (Segment.value environment) = .ok values ↔
        List.Forall₂ (StandsFor environment) (segments text.toList) values := by
    simp only [mapM_eq_ok_iff, value_eq_ok_iff]
  constructor
  · intro h
    obtain ⟨values, hall, rfl⟩ := exists_of_map_eq_ok h
    exact ⟨values, (hvalues values).mp hall, rfl⟩
  · rintro ⟨values, hall, rfl⟩
    rw [expand, (hvalues values).mpr hall]
    rfl

/-- The error names the first reference to a variable that is not set. -/
theorem expand_eq_error_iff {name : String} :
    expand environment text = .error name ↔
      ∃ before reference after, segments text.toList = before ++ reference :: after ∧
        (∀ earlier ∈ before, ∀ other, ¬ Unset environment earlier other) ∧
          Unset environment reference name := by
  rw [expand, map_eq_error_iff, mapM_eq_error_iff]
  simp only [value_eq_error_iff, exists_value_iff]

theorem exists_expand_error_iff :
    (∃ name, expand environment text = .error name) ↔
      ∃ reference ∈ segments text.toList, ∃ name, Unset environment reference name := by
  constructor
  · rintro ⟨name, hname⟩
    obtain ⟨before, reference, after, hsegments, -, hunset⟩ := expand_eq_error_iff.mp hname
    exact ⟨reference, hsegments ▸ List.mem_append_cons_self, name, hunset⟩
  · rintro ⟨reference, hmem, name, hunset⟩
    cases hresult : expand environment text with
    | error name => exact ⟨name, rfl⟩
    | ok result =>
        obtain ⟨values, hvalues, -⟩ := expand_eq_ok_iff.mp hresult
        obtain ⟨value, -, hvalue⟩ := exists_of_forall₂ hvalues hmem
        have hset := exists_value_iff.mp ⟨value, value_eq_ok_iff.mpr hvalue⟩
        exact absurd hunset (hset name)

end Expansions

end Expansion

/-! ### The expansion of a setting -/

namespace Settings

open Expansion

/-- The expansion of a text is what its one reading says: the plain parts, the dollar signs and the
values of the variables put together, or the first variable that is not set. -/
theorem expansions_of_texts (environment : String → Option String) (text : String) :
    ∃ segments, (∀ reading, Reads text.toList reading ↔ reading = segments) ∧
      (∀ result, expand environment text = .ok result ↔
        ∃ values, List.Forall₂ (StandsFor environment) segments values ∧
          result = String.join values) ∧
      (∀ error, expand environment text = .error error ↔
        ∃ before reference after name, segments = before ++ reference :: after ∧
          (∀ earlier ∈ before, ∀ other, ¬ Unset environment earlier other) ∧
          Unset environment reference name ∧ error = .missingVariable name) ∧
      ((∃ error, expand environment text = .error error) ↔
        ∃ reference ∈ segments, ∃ name, Unset environment reference name) := by
  refine ⟨Expansion.segments text.toList, fun _ => reads_iff, fun result => ?_, fun error => ?_, ?_⟩
  · rw [expand, mapError_eq_ok_iff, expand_eq_ok_iff]
  · rw [expand, mapError_eq_error_iff]
    constructor
    · rintro ⟨name, hname, rfl⟩
      obtain ⟨before, reference, after, hparts, hset, hunset⟩ := expand_eq_error_iff.mp hname
      exact ⟨before, reference, after, name, hparts, hset, hunset, rfl⟩
    · rintro ⟨before, reference, after, name, hparts, hset, hunset, rfl⟩
      exact ⟨name, expand_eq_error_iff.mpr ⟨before, reference, after, hparts, hset, hunset⟩, rfl⟩
  · rw [← exists_expand_error_iff]
    simp only [expand, mapError_eq_error_iff]
    constructor
    · rintro ⟨_, name, hname, -⟩
      exact ⟨name, hname⟩
    · rintro ⟨name, hname⟩
      exact ⟨_, name, hname, rfl⟩

example : expand (fun _ => some "$b") "a$$b-${b}$" = .ok "a$$b-$b$" := by decide +kernel

end Settings

end SchemaDesign
