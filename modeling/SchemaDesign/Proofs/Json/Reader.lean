import SchemaDesign.Json.Printer
import SchemaDesign.Json.Reader
import Mathlib.Data.List.Basic

/-!
# Readers

A reader answers a text if what it makes of the text does not depend on the surroundings: either it
always fails, or it always finds the same and stops right behind the text, whatever blanks come
before and whatever comes after.  Only a number could go on with what comes after, so this must not
start like the rest of a number.

Strings are found as they are printed: every escape stands for the character it was made from.
-/

namespace SchemaDesign.Json

def Blank (text : List Char) : Prop :=
  ∀ c ∈ text, Reader.isSpace c

/-- No number goes on with this text. -/
def Stops (text : List Char) : Prop :=
  ∀ c ∈ text.head?, c.isDigit = false ∧ c ≠ '.' ∧ c ≠ 'e' ∧ c ≠ 'E'

/-- A value starts neither with a blank nor with the end of a list. -/
def Opens (text : List Char) : Prop :=
  ∃ c rest, text = c :: rest ∧ Reader.isSpace c = false ∧ c ≠ ']'

theorem Blank.nil : Blank [] := by
  simp [Blank]

theorem stops_nil : Stops [] := by
  simp [Stops]

theorem Blank.stops {blanks rest : List Char} (hblanks : Blank blanks) (hrest : Stops rest) :
    Stops (blanks ++ rest) := by
  cases blanks with
  | nil => exact hrest
  | cons c blanks =>
      have hspace := hblanks c List.mem_cons_self
      simp only [Reader.isSpace, Bool.or_eq_true, decide_eq_true_eq] at hspace
      rcases hspace with ((rfl | rfl) | rfl) | rfl <;> simp [Stops]

namespace Reader

variable {α β : Type} {blanks rest text : List Char}

theorem pure_apply (x : α) (text : List Char) : (pure x : Reader α) text = .ok (x, text) := rfl

theorem bind_of_ok {reader : Reader α} {x : α} (hreader : reader text = .ok (x, rest))
    (next : α → Reader β) : (reader >>= next) text = next x rest := by
  simp [bind, StateT.bind, Except.bind, hreader]

theorem bind_of_error {reader : Reader α} {fault : Fault} (hreader : reader text = .error fault)
    (next : α → Reader β) : (reader >>= next) text = .error fault := by
  simp [bind, StateT.bind, Except.bind, hreader]

theorem peek_of_blank (hblanks : Blank blanks) {c : Char} (hc : isSpace c = false) :
    peek (blanks ++ c :: rest) = .ok (some c, c :: rest) := by
  have hdrop : (blanks ++ c :: rest).dropWhile isSpace = c :: rest := by
    rw [List.dropWhile_append_of_pos hblanks, List.dropWhile_cons_of_neg (by simp [hc])]
  simp [peek, hdrop]

theorem peek_bind (hblanks : Blank blanks) {c : Char} (hc : isSpace c = false)
    (next : Option Char → Reader β) :
    (peek >>= next) (blanks ++ c :: rest) = next (some c) (c :: rest) :=
  bind_of_ok (peek_of_blank hblanks hc) next

theorem peek_bind_cons {c : Char} (hc : isSpace c = false) (next : Option Char → Reader β) :
    (peek >>= next) (c :: rest) = next (some c) (c :: rest) :=
  peek_bind .nil hc next

theorem advance_bind (c : Char) (next : Unit → Reader β) :
    (advance >>= next) (c :: rest) = next () rest :=
  bind_of_ok rfl next

theorem toOption_bind {reader : Reader α} {found : Option α}
    (hreader : (reader text).toOption = found.map fun x => (x, rest)) (next : α → Reader β) :
    ((reader >>= next) text).toOption = found.bind fun x => (next x rest).toOption := by
  cases hresult : reader text with
  | error fault =>
      rw [hresult] at hreader
      rw [bind_of_error hresult, Option.map_eq_none_iff.mp hreader.symm]
      rfl
  | ok result =>
      rw [hresult] at hreader
      obtain ⟨x, rfl, hx⟩ := Option.map_eq_some_iff.mp hreader.symm
      rw [bind_of_ok (hresult.trans (congrArg Except.ok hx.symm))]
      rfl

/-- What follows is a fault in any case. -/
theorem toOption_bind_fail (reader : Reader α) (fault : Fault) (text : List Char) :
    ((reader >>= fun _ => fail fault : Reader β) text).toOption = none := by
  cases hresult : reader text with
  | error fault' => rw [bind_of_error hresult]; rfl
  | ok result =>
      obtain ⟨x, rest⟩ := result
      rw [bind_of_ok hresult]
      rfl

/-- What the reader makes of the text does not depend on what stands before and behind it. -/
def Answers (reader : Reader α) (text : List Char) (found : Option α) : Prop :=
  ∀ blanks rest, Blank blanks → Stops rest →
    (reader (blanks ++ (text ++ rest))).toOption = found.map fun x => (x, rest)

theorem Answers.map {reader : Reader α} {found : Option α} (hreader : reader.Answers text found)
    (f : α → β) : (do return f (← reader) : Reader β).Answers text (found.map f) := by
  intro blanks rest hblanks hrest
  rw [toOption_bind (hreader blanks rest hblanks hrest)]
  cases found <;> rfl

theorem toOption_whole {reader : Nat → Reader α} {found : Option α}
    (hreader : (reader (text.length + 1)).Answers text found) :
    (whole reader (String.ofList text)).toOption = found := by
  have htext := hreader [] [] .nil stops_nil
  rw [List.nil_append, List.append_nil] at htext
  unfold whole
  rw [String.toList_ofList]
  cases hresult : reader (text.length + 1) text with
  | error fault =>
      rw [hresult] at htext
      simp only [hresult]
      exact (Option.map_eq_none_iff.mp htext.symm).symm
  | ok result =>
      rw [hresult] at htext
      obtain ⟨x, rfl, rfl⟩ := Option.map_eq_some_iff.mp htext.symm
      simp only [hresult]
      rfl

/-! ### Strings -/

theorem codeUnit?_of_lt {code : Nat} (hcode : code < 0x20) :
    codeUnit? '0' '0' (hexDigit (code / 16)) (hexDigit (code % 16)) = some code := by
  revert code
  decide

theorem stringRest_control (taken : List Char) {c : Char} (hc : c.toNat < 0x20) (rest : List Char) :
    stringRest taken
      ('\\' :: 'u' :: '0' :: '0' :: hexDigit (c.toNat / 16) :: hexDigit (c.toNat % 16) :: rest) =
        stringRest (c :: taken) rest := by
  have hleading : isLeading c.toNat = false := by
    simp [isLeading]
    omega
  have htrailing : isTrailing c.toNat = false := by
    simp [isTrailing]
    omega
  rw [stringRest]
  simp [shortEscape?, codeUnit?_of_lt hc, hleading, htrailing]

theorem stringRest_short (taken : List Char) {letter c : Char}
    (hletter : shortEscape? letter = some c) (rest : List Char) :
    stringRest taken ('\\' :: letter :: rest) = stringRest (c :: taken) rest := by
  rw [stringRest.eq_def]
  simp [hletter]

theorem stringRest_plain (taken : List Char) {c : Char} (hquote : c ≠ '"') (hbackslash : c ≠ '\\')
    (hcontrol : ¬c.toNat < 0x20) (rest : List Char) :
    stringRest taken (c :: rest) = stringRest (c :: taken) rest := by
  rw [stringRest.eq_def]
  simpa [hquote, hbackslash] using fun hlt => absurd hlt hcontrol

theorem stringRest_escaped (taken : List Char) (c : Char) (rest : List Char) :
    stringRest taken (escaped c ++ rest) = stringRest (c :: taken) rest := by
  unfold escaped
  split_ifs with hquote hbackslash hb hf hn hr ht hcontrol
  · rw [hquote]
    exact stringRest_short taken rfl rest
  · rw [hbackslash]
    exact stringRest_short taken rfl rest
  · rw [hb]
    exact stringRest_short taken rfl rest
  · rw [hf]
    exact stringRest_short taken rfl rest
  · rw [hn]
    exact stringRest_short taken rfl rest
  · rw [hr]
    exact stringRest_short taken rfl rest
  · rw [ht]
    exact stringRest_short taken rfl rest
  · exact stringRest_control taken hcontrol rest
  · exact stringRest_plain taken hquote hbackslash hcontrol rest

theorem stringRest_stringText (taken value rest : List Char) :
    stringRest taken (value.flatMap escaped ++ '"' :: rest) =
      .ok (taken.reverse ++ value, rest) := by
  induction value generalizing taken with
  | nil =>
      rw [List.flatMap_nil, List.nil_append, stringRest.eq_def]
      simp
  | cons c value ih =>
      rw [List.flatMap_cons, List.append_assoc, stringRest_escaped, ih]
      simp

theorem string_stringText (value : String) (rest : List Char) :
    string (stringText value ++ rest) = .ok (value, rest) := by
  simp [string, stringText, stringRest_stringText, Except.map]

end Reader

end SchemaDesign.Json
