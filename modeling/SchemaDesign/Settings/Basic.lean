import SchemaDesign.Compilation
import SchemaDesign.Files.Fault
import SchemaDesign.Settings.Expansion

/-!
# Settings

Settings say how designs are compiled when a command does not, and where the script goes.  They
hold names and texts as they were written; whether a name is known is found out only when it is
needed, so settings that a command does not use cannot stop it.
-/

namespace SchemaDesign

inductive OutputFormat where
  | plain
  /-- With a heading, and a comment line above each statement. -/
  | annotated
deriving Repr, DecidableEq, Inhabited

namespace OutputFormat

def all : List OutputFormat := [.plain, .annotated]

def name : OutputFormat → String
  | .plain => "sql"
  | .annotated => "verbose"

def ofName? (text : String) : Option OutputFormat :=
  all.find? fun format => format.name == text

end OutputFormat

structure Settings where
  dialectName : String
  /-- Stands in for the inheritance kind of every design. -/
  inheritanceName : Option String
  format : OutputFormat
  /-- Where scripts are written, with references to variables of the environment. -/
  directory : Option String
  separator : String
deriving Repr, DecidableEq

inductive SettingsError where
  | fileNotFound (path : String)
  | unreadable (fault : FileFault)
  /-- The file is no settings file, or a setting has the wrong type. -/
  | malformed
  | missingVariable (name : String)
  | unsupportedDialect (name : String)
  | unknownInheritance (name : String)
deriving Repr, DecidableEq

def SettingsError.message : SettingsError → String
  | .fileNotFound path => "Config file not found: " ++ path
  | .unreadable fault => "Failed to read config file: " ++ fault.message
  | .malformed => "Failed to parse config file"
  | .missingVariable name => "Missing environment variable: " ++ name
  | .unsupportedDialect name => "Unsupported dialect: " ++ name
  | .unknownInheritance name => "Unknown inheritance kind: " ++ name

namespace Settings

def standard : Settings where
  dialectName := Dialect.sqlite.name
  inheritanceName := none
  format := .plain
  directory := none
  separator := "\n\n"

def dialect (settings : Settings) : Except SettingsError Dialect :=
  match Dialect.ofName? settings.dialectName with
  | some dialect => .ok dialect
  | none => .error (.unsupportedDialect settings.dialectName)

def inheritance (settings : Settings) : Except SettingsError (Option InheritanceKind) :=
  match settings.inheritanceName with
  | none => .ok none
  | some name =>
    match InheritanceKind.ofName? name with
    | some kind => .ok (some kind)
    | none => .error (.unknownInheritance name)

def compileOptions (settings : Settings) : Except SettingsError CompileOptions := do
  let dialect ← settings.dialect
  return ⟨dialect, ← settings.inheritance⟩

def expand (environment : String → Option String) (text : String) : Except SettingsError String :=
  (Expansion.expand environment text).mapError .missingVariable

def outputDirectory (environment : String → Option String) (settings : Settings) :
    Except SettingsError (Option String) :=
  match settings.directory with
  | none => .ok none
  | some directory => (expand environment directory).map some

end Settings

end SchemaDesign
