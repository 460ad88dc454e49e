import SchemaDesign.Log.Report
import SchemaDesign.Design.File

/-!
# Compilation of design files

A design file is compiled by loading it first, so there are two ways to fail.  What a compilation
reports is logged, whether or not it succeeds.
-/

namespace SchemaDesign

inductive CompilationError where
  | normalization (cycle : InheritanceCycle)
  | file (error : DesignFileError)

def CompilationError.message : CompilationError → String
  | .normalization cycle => "Normalization error: " ++ cycle.message
  | .file error => "Design file error: " ++ error.message

namespace Design

variable {m : Type → Type} [Monad m]

def compileFile (host : Host m) (ids : IdSupply) (options : CompileOptions) (path : String) :
    m (Except CompilationError Compiled) := do
  match ← load host path with
  | .error error => return .error (.file error)
  | .ok design => do
    host.log (design.compilationReport ids options)
    return (design.compile ids options).mapError .normalization

end Design

end SchemaDesign
