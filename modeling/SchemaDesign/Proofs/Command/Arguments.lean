import SchemaDesign.Command.Arguments

/-!
# Arguments that choose everything

A file and a value for each choice are read as the command with these choices.
-/

namespace SchemaDesign.Arguments

variable {verb : Verb} {verbose : Bool} {words : List String} {word value file : String}
variable {found later : Found} {choice : Choice}

/-! ### Single words -/

theorem readWord_of_isValue (h : isValue word) (verb : Option Verb) (found : Found) :
    readWord verb word found = .ok (found, some .argument) := by
  by_cases hdash : word = "-"
  · subst hdash
    rfl
  · have hhead : word.toList.head? ≠ some '-' := by simpa [isValue, hdash] using h
    unfold readWord
    split
    case h_1 hword => simp [hword] at hhead
    case h_2 hword => simp [hword] at hhead
    case h_3 hword => simp [hword] at hhead
    case h_4 => rfl

theorem readCommand_of_isValue (h : isValue word)
    (htake : found.takeArgument verb word = .ok later) :
    readCommand verb verbose (word :: words) found = readCommand verb verbose words later := by
  rw [readCommand, readWord_of_isValue h]
  change (found.takeArgument verb word >>= _) = _
  rw [htake]
  rfl

theorem readCommand_of_choice
    (hword : readWord (some verb) word found = .ok (found, some (.choiceOf choice)))
    (hvalue : isValue value) (hchoose : found.choose choice value = .ok later) :
    readCommand verb verbose (word :: value :: words) found =
      readCommand verb verbose words later := by
  rw [readCommand, hword]
  change (if isValue value then _ else _) = _
  rw [if_pos hvalue, hchoose]
  rfl

theorem readCommand_file (hverb : verb ≠ .types) (hvalue : isValue file) (hfile : file ≠ "")
    (spoken : Bool) (choices : Choices) :
    readCommand verb verbose (file :: words) ⟨spoken, choices, none⟩ =
      readCommand verb verbose words ⟨spoken, choices, some (.file file)⟩ := by
  apply readCommand_of_isValue hvalue
  simp [Found.takeArgument, hverb, hfile]
  rfl

/-! ### Choices -/

section Choices

variable (spoken : Bool) (argument : Option Argument)

theorem readCommand_dialect (dialect : Dialect) (kind : Option InheritanceKind)
    (format : Option OutputFormat) :
    readCommand .compile verbose ("-d" :: dialect.name :: words)
        ⟨spoken, ⟨none, kind, format⟩, argument⟩ =
      readCommand .compile verbose words ⟨spoken, ⟨some dialect, kind, format⟩, argument⟩ := by
  apply readCommand_of_choice rfl <;> cases dialect <;> rfl

theorem readCommand_inheritance (hverb : verb = .compile ∨ verb = .normalize)
    {kind : InheritanceKind} (hvalue : (value, kind) ∈ inheritanceValues)
    (dialect : Option Dialect) (format : Option OutputFormat) :
    readCommand verb verbose ("-i" :: value :: words)
        ⟨spoken, ⟨dialect, none, format⟩, argument⟩ =
      readCommand verb verbose words ⟨spoken, ⟨dialect, some kind, format⟩, argument⟩ := by
  have hword (found : Found) :
      readWord (some verb) "-i" found = .ok (found, some (.choiceOf .inheritance)) := by
    rcases hverb with rfl | rfl <;> rfl
  simp only [inheritanceValues, List.mem_cons, Prod.mk.injEq, List.not_mem_nil, or_false] at hvalue
  rcases hvalue with ⟨rfl, rfl⟩ | ⟨rfl, rfl⟩ | ⟨rfl, rfl⟩ <;>
    exact readCommand_of_choice (hword _) rfl rfl

theorem readCommand_format (format : OutputFormat) (dialect : Option Dialect)
    (kind : Option InheritanceKind) :
    readCommand .compile verbose ("-o" :: format.name :: words)
        ⟨spoken, ⟨dialect, kind, none⟩, argument⟩ =
      readCommand .compile verbose words ⟨spoken, ⟨dialect, kind, some format⟩, argument⟩ := by
  apply readCommand_of_choice rfl <;> cases format <;> rfl

end Choices

/-! ### Commands with all choices -/

theorem parse_compile (hvalue : isValue file) (hfile : file ≠ "") (dialect : Dialect)
    {kind : InheritanceKind} (hkind : (value, kind) ∈ inheritanceValues) (format : OutputFormat) :
    parse ["compile", file, "-d", dialect.name, "-i", value, "-o", format.name] =
      .ok (.perform false (.compile file ⟨some dialect, some kind, some format⟩)) := by
  change readCommand .compile false _ ⟨false, ⟨none, none, none⟩, none⟩ = _
  rw [readCommand_file (by decide) hvalue hfile, readCommand_dialect,
    readCommand_inheritance _ _ (.inl rfl) hkind, readCommand_format]
  rfl

theorem parse_normalize (hvalue : isValue file) (hfile : file ≠ "") {kind : InheritanceKind}
    (hkind : (value, kind) ∈ inheritanceValues) :
    parse ["normalize", file, "-i", value] =
      .ok (.perform false (.normalize file (some kind))) := by
  change readCommand .normalize false _ ⟨false, ⟨none, none, none⟩, none⟩ = _
  rw [readCommand_file (by decide) hvalue hfile, readCommand_inheritance _ _ (.inr rfl) hkind]
  rfl

end SchemaDesign.Arguments
