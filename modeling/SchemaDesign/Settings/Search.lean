import SchemaDesign.Settings.Document
import SchemaDesign.Files.Path
import SchemaDesign.Host

/-!
# Finding the settings

The settings are those of the file that a variable of the environment names.  If the variable is
not set they are those of the first file that there is among the one in the working directory and
the one of the user, and without any file they are the standard ones.
-/

namespace SchemaDesign.Settings

variable {m : Type → Type} [Monad m]

def fileVariable : String := "SCHEMAFORGE_CONFIG"

def localFile : String := "schemaforge.toml"

/-- The path of the user's settings file, given the variables for the directory of all settings
and for the home directory.  The former counts only when it is an absolute path. -/
def userFile? (configuration home : Option String) : Option String :=
  let directory := (configuration.filter Path.isAbsolute).orElse fun _ =>
    (home.filter (!·.isEmpty)).map (Path.join · ".config")
  directory.map fun directory => Path.join (Path.join directory "schemaforge") "config.toml"

def read (host : Host m) (path : String) : m (Except SettingsError Settings) := do
  match ← host.readFile path with
  | .ok text => return ofText text
  | .error fault =>
    return .error (if fault.isAbsence then .fileNotFound path else .unreadable fault)

def readFirst (host : Host m) : List String → m (Except SettingsError Settings)
  | [] => return .ok standard
  | path :: paths => do
    match ← read host path with
    | .error (.fileNotFound _) => readFirst host paths
    | result => return result

def find (host : Host m) : m (Except SettingsError Settings) := do
  match ← host.environment fileVariable with
  | some path => read host path
  | none => do
    let configuration ← host.environment "XDG_CONFIG_HOME"
    let home ← host.environment "HOME"
    readFirst host (localFile :: (userFile? configuration home).toList)

end SchemaDesign.Settings
