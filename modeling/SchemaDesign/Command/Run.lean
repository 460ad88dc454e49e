import SchemaDesign.Command.Arguments
import SchemaDesign.Compilation.File
import SchemaDesign.Design.Issue
import SchemaDesign.Settings.Search

/-!
# Running the program

The program reads its arguments, finds the settings, and performs a command.  A command gives the
text to print, or the text that says why it failed.  What is chosen in the arguments stands in for
the settings; settings that a command looks at are still refused when they name nothing known.
-/

namespace SchemaDesign

structure Outcome where
  exitCode : UInt32
  output : String
  errors : String
deriving Repr, DecidableEq

namespace Command

variable {m : Type → Type} [Monad m]

/-- A step that fails with a text for the one who called the program. -/
abbrev Action (m : Type → Type) := ExceptT String m

/-- The result of a step; its failure is put under a heading. -/
def orFail {α ε : Type} (heading : String) (message : ε → String) (result : m (Except ε α)) :
    Action m α :=
  .mk do return (← result).mapError fun error => heading ++ ": " ++ message error

def orMisconfigured {α : Type} (result : m (Except SettingsError α)) : Action m α :=
  orFail "Configuration error" SettingsError.message result

def loadDesign (host : Host m) (file : String) : Action m Design :=
  orFail "Error" DesignFileError.message (Design.load host file)

/-- The values of the variables that a text refers to. -/
def variablesOf (host : Host m) (text : String) : m (String → Option String) := do
  let values ← (Expansion.names text).mapM fun name => do
    return (name, ← host.environment name)
  return fun name => (values.lookup name).join

/-- The script of a compiled design, with a heading that says where it comes from if it is
annotated. -/
def presented (compiled : Compiled) (file : String) (format : OutputFormat) (separator : String) :
    String :=
  match format with
  | .plain => compiled.script separator
  | .annotated =>
    "-- SchemaForge Compiled SQL\n-- Source: " ++ file ++
      "\n-- Dialect: " ++ compiled.dialect.name ++
      "\n-- Inheritance: " ++ compiled.normal.inheritance.name ++
      "\n\n" ++ compiled.annotatedScript separator

def scriptPath (directory file : String) (dialect : Dialect) : String :=
  let stem := ((Path.fileName? file).map Path.withoutExtension).getD "design"
  Path.join directory (stem ++ "." ++ dialect.name ++ ".sql")

def writeScript (host : Host m) (directory file : String) (dialect : Dialect) (script : String) :
    Action m String := do
  let path := scriptPath directory file dialect
  let heading := "Error writing '" ++ path ++ "'"
  orFail heading FileFault.message (host.createDirectories directory)
  orFail heading FileFault.message (host.writeFile path script)
  return "Wrote " ++ path ++ "\n"

def compileFile (host : Host m) (ids : IdSupply) (settings : Settings) (file : String)
    (choices : Choices) : Action m String := do
  let standing ← orMisconfigured (pure settings.compileOptions)
  let options : CompileOptions :=
    ⟨choices.dialect.getD standing.dialect, choices.inheritance <|> standing.inheritance⟩
  let design ← loadDesign host file
  host.log (design.compilationReport ids options)
  let compiled ← orFail "Compilation error" CompilationError.message
    (pure ((design.compile ids options).mapError .normalization))
  let script :=
    presented compiled file (choices.format.getD settings.format) settings.separator
  let directory ← orMisconfigured do
    return settings.outputDirectory (← variablesOf host (settings.directory.getD ""))
  match directory with
  | some directory => writeScript host directory file compiled.dialect script
  | none => return script ++ "\n"

def normalizeFile (host : Host m) (ids : IdSupply) (settings : Settings) (file : String)
    (inheritance : Option InheritanceKind) : Action m String := do
  let design ← loadDesign host file
  let standing ← orMisconfigured (pure settings.inheritance)
  let chosen := design.withInheritance (inheritance <|> standing)
  host.log (chosen.normalizationReport ids)
  let normal ← orFail "Normalization error" InheritanceCycle.message
    (pure (chosen.normalize ids))
  return normal.pretty ++ "\n"

def validateFile (host : Host m) (file : String) : Action m String := do
  let design ← loadDesign host file
  match design.issues with
  | [] =>
    return "OK: " ++ file ++ " is valid (" ++ toString design.tables.length ++ " tables, " ++
      toString design.columns.length ++ " columns, " ++
      toString design.relations.length ++ " relations)\n"
  | issues =>
    throw ("Validation errors in " ++ file ++ ":" ++
      String.join (issues.map fun issue => "\n  " ++ issue.text))

def listTypes (dialect : Dialect) : String :=
  "Data types for " ++ dialect.name ++ ":\n" ++
    String.join (dialect.typeTemplates.map fun signature => "  " ++ signature.text ++ "\n")

def perform (host : Host m) (ids : IdSupply) (settings : Settings) : Command → Action m String
  | .compile file choices => compileFile host ids settings file choices
  | .normalize file inheritance => normalizeFile host ids settings file inheritance
  | .validate file => validateFile host file
  | .types dialect => return listTypes dialect

end Command

namespace Outcome

def ofResult : Except String String → Outcome
  | .ok text => ⟨0, text, ""⟩
  | .error text => ⟨1, "", text ++ "\n"⟩

def ofUsageError (error : UsageError) : Outcome :=
  ⟨2, "", "error: " ++ error.message ++ "\n\nTry '--help'.\n"⟩

end Outcome

namespace Request

def versionText : String := "schemaforge 0.1.0\n"

def helpText : String :=
  "Compiles entity-relationship designs to SQL.\n\n" ++
  "  schemaforge compile FILE     print the CREATE TABLE statements of a design\n" ++
  "  schemaforge normalize FILE   print the normal form of a design\n" ++
  "  schemaforge validate FILE    check a design for structural problems\n" ++
  "  schemaforge types DIALECT    list the types of a dialect\n" ++
  "  schemaforge help             print this text\n\n" ++
  "  -d, --dialect DIALECT        sqlite, postgres, mysql or tsql (compile)\n" ++
  "  -i, --inheritance KIND       single-table, class-table or concrete-table\n" ++
  "                               (compile, normalize)\n" ++
  "  -o, --output FORMAT          sql or verbose (compile)\n" ++
  "  -v, --verbose                log every step\n" ++
  "  -h, --help                   print this text\n" ++
  "  -V, --version                print the version\n"

end Request

def run {m : Type → Type} [Monad m] (host : Host m) (ids : IdSupply) (arguments : List String) :
    m Outcome := do
  match Arguments.parse arguments with
  | .error error => return .ofUsageError error
  | .ok .help => return ⟨0, Request.helpText, ""⟩
  | .ok .version => return ⟨0, Request.versionText, ""⟩
  | .ok (.perform verbose command) => do
    let host := if verbose then host else host.withWarningsOnly
    let action : Command.Action m String := do
      let settings ← Command.orMisconfigured (Settings.find host)
      command.perform host ids settings
    return .ofResult (← action.run)

end SchemaDesign
