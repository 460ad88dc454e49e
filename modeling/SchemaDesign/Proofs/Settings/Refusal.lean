import SchemaDesign.Proofs.Related
import SchemaDesign.Settings.Basic

/-!
# Refused settings

Settings are refused when they name a dialect or an inheritance kind that is not known, and the
error repeats the name.  So the text of the error tells for which name they are refused.
-/

namespace SchemaDesign

/-! ### Errors -/

/-- The error is about a name that is not known. -/
inductive SettingsError.IsRefusal : SettingsError → Prop where
  | dialect (name : String) : IsRefusal (.unsupportedDialect name)
  | inheritance (name : String) : IsRefusal (.unknownInheritance name)

@[simp]
theorem SettingsError.message_unsupportedDialect (name : String) :
    (unsupportedDialect name).message = "Unsupported dialect: " ++ name :=
  rfl

@[simp]
theorem SettingsError.message_missingVariable (name : String) :
    (missingVariable name).message = "Missing environment variable: " ++ name :=
  rfl

@[simp]
theorem SettingsError.message_unknownInheritance (name : String) :
    (unknownInheritance name).message = "Unknown inheritance kind: " ++ name :=
  rfl

theorem SettingsError.IsRefusal.message_inj {error error' : SettingsError} (h : error.IsRefusal)
    (h' : error'.IsRefusal) (hsame : error.message = error'.message) : error = error' := by
  rw [← String.toList_inj] at hsame
  cases h with
  | dialect name =>
      cases h' with
      | dialect name' => simpa [String.toList_inj] using hsame
      | inheritance name' => simp at hsame
  | inheritance name =>
      cases h' with
      | dialect name' => simp at hsame
      | inheritance name' => simpa [String.toList_inj] using hsame

/-! ### Results -/

/-- Both results are accepted, or both are refused for the same reason. -/
def RefusedAlike {α : Type} (result result' : Except SettingsError α) : Prop :=
  ∀ error, result = .error error ↔ result' = .error error

theorem RefusedAlike.exists_ok {α : Type} {result result' : Except SettingsError α} {a : α}
    (h : RefusedAlike result result') (hresult : result = .ok a) : ∃ a', result' = .ok a' := by
  cases hresult' : result' with
  | error error =>
      rw [(h error).mpr hresult'] at hresult
      cases hresult
  | ok a' => exact ⟨a', rfl⟩

/-- Only refusals need to be compared when there is no other way to fail. -/
theorem refusedAlike_of_refusals {α : Type} {result result' : Except SettingsError α}
    (hrefusal : ∀ error, result = .error error → error.IsRefusal)
    (hrefusal' : ∀ error, result' = .error error → error.IsRefusal)
    (h : ∀ error : SettingsError, error.IsRefusal →
      (result = .error error ↔ result' = .error error)) :
    RefusedAlike result result' := by
  intro error
  constructor
  · intro hresult
    exact (h error (hrefusal error hresult)).mp hresult
  · intro hresult'
    exact (h error (hrefusal' error hresult')).mpr hresult'

namespace Settings

variable {settings settings' : Settings} {error : SettingsError}

theorem isRefusal_of_dialect (h : settings.dialect = .error error) : error.IsRefusal := by
  unfold dialect at h
  split at h
  · cases h
  · cases h
    exact .dialect _

theorem isRefusal_of_inheritance (h : settings.inheritance = .error error) : error.IsRefusal := by
  unfold inheritance at h
  split at h
  · cases h
  · split at h
    · cases h
    · cases h
      exact .inheritance _

theorem isRefusal_of_compileOptions (h : settings.compileOptions = .error error) :
    error.IsRefusal := by
  change settings.dialect.bind _ = _ at h
  cases hdialect : settings.dialect with
  | error other =>
      rw [hdialect] at h
      cases h
      exact isRefusal_of_dialect hdialect
  | ok dialect =>
      rw [hdialect] at h
      exact isRefusal_of_inheritance (map_eq_error_iff.mp h)

theorem outputDirectory_congr (h : settings.directory = settings'.directory)
    (environment : String → Option String) :
    settings.outputDirectory environment = settings'.outputDirectory environment := by
  rw [outputDirectory, h, outputDirectory]

theorem missingVariable_of_outputDirectory {environment : String → Option String}
    (h : settings.outputDirectory environment = .error error) :
    ∃ name, error = .missingVariable name := by
  unfold outputDirectory at h
  split at h
  · cases h
  · rw [map_eq_error_iff, expand, mapError_eq_error_iff] at h
    obtain ⟨name, _, rfl⟩ := h
    exact ⟨name, rfl⟩

end Settings

end SchemaDesign
