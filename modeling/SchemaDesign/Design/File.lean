import SchemaDesign.Design.Exchange
import SchemaDesign.Host

/-!
# Design files

A design file holds the exchange form of a design, and is written over several lines.
-/

namespace SchemaDesign

inductive DesignFileError where
  | unreadable (path : String) (fault : FileFault)
  | unwritable (path : String) (fault : FileFault)
  /-- The text of the file is not that of a design. -/
  | malformed (fault : Json.Fault)
deriving Repr, DecidableEq

def DesignFileError.message : DesignFileError → String
  | .unreadable path fault => "Failed to read design file " ++ path ++ ": " ++ fault.message
  | .unwritable path fault => "Failed to write design file " ++ path ++ ": " ++ fault.message
  | .malformed _ => "Invalid design JSON"

namespace Design

variable {m : Type → Type} [Monad m]

def load (host : Host m) (path : String) : m (Except DesignFileError Design) := do
  match ← host.readFile path with
  | .ok text => return (ofText text).mapError .malformed
  | .error fault => return .error (.unreadable path fault)

def save (host : Host m) (path : String) (design : Design) :
    m (Except DesignFileError Unit) := do
  return (← host.writeFile path design.pretty).mapError (.unwritable path)

end Design

end SchemaDesign
