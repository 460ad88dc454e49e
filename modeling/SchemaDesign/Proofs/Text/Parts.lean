import SchemaDesign.Text.Blank
import Mathlib.Data.List.DropRight

/-!
# Parts of texts

A text is cut after a longest run of characters of some kind, so the run is found again in front of
any text that does not go on with it.

A text is trimmed when no blank character stands at either end.  Trimming gives a trimmed text, and
it changes no text that is trimmed already.

The pieces of a text are free of the separator, and they hold no characters but those of the text.
Pieces that are put together with the separator between them are found again.
-/

namespace SchemaDesign.Text

variable {text : List Char}

/-! ### Runs -/

section Runs

variable {p : Char → Bool} {run rest : List Char}

theorem takeWhile_run (hrun : ∀ c ∈ run, p c = true) (hrest : ∀ c ∈ rest.head?, p c = false) :
    (run ++ rest).takeWhile p = run := by
  rw [List.takeWhile_append_of_pos hrun]
  cases rest with
  | nil => simp
  | cons c rest => rw [List.takeWhile_cons_of_neg (by simp [hrest c rfl]), List.append_nil]

theorem dropWhile_run (hrun : ∀ c ∈ run, p c = true) (hrest : ∀ c ∈ rest.head?, p c = false) :
    (run ++ rest).dropWhile p = rest := by
  rw [List.dropWhile_append_of_pos hrun]
  cases rest with
  | nil => rfl
  | cons c rest => rw [List.dropWhile_cons_of_neg (by simp [hrest c rfl])]

/-- What follows a longest run does not go on with it. -/
theorem not_of_mem_head?_dropWhile {c : Char} (h : c ∈ (text.dropWhile p).head?) : p c = false := by
  have hnot := List.head?_dropWhile_not p text
  rwa [Option.mem_def.mp h] at hnot

theorem exists_run (p : Char → Bool) (text : List Char) :
    ∃ run rest, text = run ++ rest ∧ (∀ c ∈ run, p c = true) ∧ ∀ c ∈ rest.head?, p c = false :=
  ⟨text.takeWhile p, text.dropWhile p, List.takeWhile_append_dropWhile.symm,
    fun _ hc => List.mem_takeWhile_imp hc, fun _ hc => not_of_mem_head?_dropWhile hc⟩

section Ends

variable {stop : Char}

/-- The runs that go up to a character are those without it. -/
theorem run_before_iff : (∀ c ∈ text, decide (c ≠ stop) = true) ↔ stop ∉ text := by
  simp only [decide_eq_true_eq]
  exact ⟨fun h hmem => h stop hmem rfl, fun h c hc heq => h (heq ▸ hc)⟩

theorem stops_at_iff :
    (∀ c ∈ text.head?, decide (c ≠ stop) = false) ↔ ∀ c ∈ text.head?, c = stop := by
  simp only [decide_eq_false_iff_not, not_not]

end Ends

end Runs

/-! ### Trimmed texts -/

/-- No blank character stands at the beginning or at the end. -/
structure Trimmed (text : List Char) : Prop where
  start : ∀ c ∈ text.head?, isBlank c = false
  finish : ∀ c ∈ text.getLast?, isBlank c = false

theorem trimStart_eq_self (h : Trimmed text) : trimStart text = text := by
  cases text with
  | nil => rfl
  | cons c rest => exact List.dropWhile_cons_of_neg (by simp [h.start c rfl])

theorem trim_eq_self (h : Trimmed text) : trim text = text := by
  rw [trim, trimStart_eq_self h]
  refine List.rdropWhile_eq_self_iff.mpr fun hne => ?_
  rw [h.finish _ (List.getLast?_eq_some_getLast hne)]
  simp

theorem trimmed_trim (text : List Char) : Trimmed (trim text) := by
  constructor
  · intro c hc
    obtain ⟨rest, hrest⟩ := List.rdropWhile_prefix isBlank (trimStart text)
    have hstart : c ∈ (trimStart text).head? := by
      rw [← hrest, List.head?_append]
      exact Option.or_eq_some_iff.mpr (.inl hc)
    exact not_of_mem_head?_dropWhile hstart
  · intro c hc
    obtain ⟨hne, rfl⟩ := List.mem_getLast?_eq_getLast hc
    exact Bool.eq_false_iff.mpr (List.rdropWhile_last_not isBlank (trimStart text) hne)

/-- Only the characters at the two ends count. -/
theorem trimmed_of_ends {front back middle : List Char} {opening closing : Char}
    (hfront : ∀ c ∈ front.head?, isBlank c = false) (hopening : isBlank opening = false)
    (hclosing : isBlank closing = false) (hback : ∀ c ∈ back.getLast?, isBlank c = false) :
    Trimmed (front ++ opening :: (middle ++ closing :: back)) := by
  constructor
  · intro c hc
    rw [List.head?_append] at hc
    rcases Option.or_eq_some_iff.mp hc with hc | ⟨_, hc⟩
    · exact hfront c hc
    · obtain rfl : opening = c := by simpa using hc
      exact hopening
  · intro c hc
    have hwhole : front ++ opening :: (middle ++ closing :: back) =
        ((front ++ opening :: middle) ++ [closing]) ++ back := by simp
    rw [hwhole, List.getLast?_append, List.getLast?_concat] at hc
    rcases Option.or_eq_some_iff.mp hc with hc | ⟨_, hc⟩
    · exact hback c hc
    · rwa [← Option.some.inj hc]

theorem trim_cons_of_blank {c : Char} (hc : isBlank c = true) (text : List Char) :
    trim (c :: text) = trim text := by
  rw [trim, trimStart, List.dropWhile_cons_of_pos hc]
  rfl

theorem trim_subset (text : List Char) : trim text ⊆ text := by
  intro c hc
  have hstart : c ∈ trimStart text := (List.rdropWhile_prefix isBlank _).subset hc
  exact List.dropWhile_subset _ hstart

/-! ### Pieces -/

variable {separator : Char}

theorem pieces_eq_splitOn (separator : Char) (text : List Char) :
    pieces separator text = text.splitOn separator := by
  induction text with
  | nil => rfl
  | cons c rest ih =>
      rw [List.splitOn_cons_eq_if_modifyHead, pieces, ih]
      by_cases hc : c = separator
      · simp [hc]
      · obtain ⟨piece, others, hsplit⟩ :=
          List.exists_cons_of_ne_nil (List.splitOn_ne_nil separator rest)
        simp [hc, hsplit]

theorem mem_intercalate {c : Char} {between : List Char} {parts : List (List Char)}
    (h : c ∈ between.intercalate parts) : c ∈ between ∨ ∃ part ∈ parts, c ∈ part := by
  induction parts with
  | nil => simp at h
  | cons part others ih =>
      cases others with
      | nil => exact .inr ⟨part, by simp, by simpa using h⟩
      | cons next others =>
          rw [List.intercalate_cons_cons, List.mem_append, List.mem_append] at h
          rcases h with (h | h) | h
          · exact .inr ⟨part, List.mem_cons_self, h⟩
          · exact .inl h
          · rcases ih h with h | ⟨other, hother, hc⟩
            · exact .inl h
            · exact .inr ⟨other, List.mem_cons_of_mem _ hother, hc⟩

theorem pieces_intercalate {parts : List (List Char)}
    (hparts : ∀ part ∈ parts, separator ∉ part) (hne : parts ≠ []) :
    pieces separator ([separator].intercalate parts) = parts := by
  rw [pieces_eq_splitOn, List.splitOn_intercalate separator hparts hne]

theorem free_of_mem_pieces {piece : List Char} (h : piece ∈ pieces separator text) :
    separator ∉ piece ∧ piece ⊆ text := by
  induction text generalizing piece with
  | nil =>
      rw [List.mem_singleton.mp h]
      simp
  | cons c rest ih =>
      obtain ⟨first, others, hrest⟩ := List.exists_cons_of_ne_nil (pieces_ne_nil separator rest)
      rw [hrest] at ih
      obtain ⟨hfree, hsub⟩ := ih List.mem_cons_self
      rw [pieces, hrest] at h
      by_cases hc : c = separator
      · rw [if_pos hc] at h
        rcases List.mem_cons.mp h with rfl | h
        · simp
        · exact ⟨(ih h).1, List.subset_cons_of_subset c (ih h).2⟩
      · rw [if_neg hc] at h
        rcases List.mem_cons.mp h with rfl | h
        · exact ⟨by simp [Ne.symm hc, hfree], List.cons_subset_cons c hsub⟩
        · have hother := ih (List.mem_cons_of_mem _ h)
          exact ⟨hother.1, List.subset_cons_of_subset c hother.2⟩

end SchemaDesign.Text
