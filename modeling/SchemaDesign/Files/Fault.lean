/-!
# Faults of files

Whatever goes wrong with a file is named by its cause, and the message is the one that the system
has for it.
-/

namespace SchemaDesign

inductive FileFault where
  | missing
  | alreadyExists
  | notDirectory
  | isDirectory
  | nameTooLong
  /-- The path holds a character that no path may hold. -/
  | malformedPath
  | other (text : String)
deriving Repr, DecidableEq

namespace FileFault

def message : FileFault → String
  | .missing => "No such file or directory (os error 2)"
  | .alreadyExists => "File exists (os error 17)"
  | .notDirectory => "Not a directory (os error 20)"
  | .isDirectory => "Is a directory (os error 21)"
  | .nameTooLong => "File name too long (os error 36)"
  | .malformedPath => "file name contained an unexpected NUL byte"
  | .other text => text

def isAbsence : FileFault → Bool
  | .missing => true
  | .notDirectory => true
  | .nameTooLong => true
  | .malformedPath => true
  | _ => false

end FileFault

end SchemaDesign
