import SchemaDesign.Text.Blank

/-!
# Paths

A path is a text of names with slashes between them.  Empty names do not count, a single dot stands
for the directory that has been reached, and a path that begins with a slash starts at the top.
-/

namespace SchemaDesign.Path

def isAbsolute (path : String) : Bool :=
  path.toList.head? = some '/'

def endsInSlash (path : String) : Bool :=
  path.toList.getLast? = some '/'

def names (path : String) : List String :=
  ((Text.pieces '/' path.toList).filter (· ≠ [])).map String.ofList

/-- The names that lead to the directory above, listed from the last one on. -/
def above (names : List String) : List String :=
  (names.reverse.dropWhile (· = ".")).tail

def join (directory name : String) : String :=
  if directory.isEmpty || endsInSlash directory then directory ++ name
  else directory ++ "/" ++ name

def fileName? (path : String) : Option String :=
  ((names path).filter (· ≠ ".")).getLast?.filter (· ≠ "..")

/-- A name without its last extension.  A dot at the beginning begins no extension. -/
def withoutExtension (name : String) : String :=
  match (name.toList.reverse).dropWhile (· ≠ '.') with
  | [] => name
  | _ :: before => if before = [] then name else String.ofList before.reverse

end SchemaDesign.Path
