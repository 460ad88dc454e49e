import SchemaDesign.Files.Fault
import SchemaDesign.Files.Path

/-!
# An in-memory store of files

A tree holds files and directories by their place, which is the list of names that leads to them
from the top.  The top is always a directory.  Relative paths start at the working directory.

A path is followed name by name, and every name but the last must be that of a directory.  One dot
stays there, and two dots lead back to the directory above.
-/

namespace SchemaDesign

abbrev Place := List String

inductive FileEntry where
  | directory
  | file (text : String)
deriving Repr, DecidableEq

structure FileTree where
  entries : List (Place × FileEntry)
  workingDirectory : Place
deriving Repr, DecidableEq

namespace FileTree

def entry? (tree : FileTree) (place : Place) : Option FileEntry :=
  if place = [] then some .directory else tree.entries.lookup place

def isDirectory (tree : FileTree) (place : Place) : Bool :=
  tree.entry? place = some .directory

def put (tree : FileTree) (place : Place) (entry : FileEntry) : FileTree :=
  if (tree.entries.lookup place).isSome then
    { tree with entries := tree.entries.map fun (other, old) =>
        (other, if other = place then entry else old) }
  else { tree with entries := tree.entries ++ [(place, entry)] }

def nameLimit : Nat := 255

def pathLimit : Nat := 4095

/-- The place that some names lead to from a place; there need not be anything at it. -/
def follow (tree : FileTree) (place : Place) : List String → Except FileFault Place
  | [] => .ok place
  | name :: names =>
    match tree.entry? place with
    | none => .error .missing
    | some (.file _) => .error .notDirectory
    | some .directory =>
      if name = "." then tree.follow place names
      else if name = ".." then tree.follow place.dropLast names
      else if name.utf8ByteSize > nameLimit then .error .nameTooLong
      else tree.follow (place ++ [name]) names

def start (tree : FileTree) (path : String) : Place :=
  if Path.isAbsolute path then [] else tree.workingDirectory

def check (path : String) : Except FileFault Unit :=
  if '\x00' ∈ path.toList then .error .malformedPath
  else if path.isEmpty then .error .missing
  else if path.utf8ByteSize > pathLimit then .error .nameTooLong
  else .ok ()

def resolve (tree : FileTree) (path : String) : Except FileFault Place := do
  check path
  tree.follow (tree.start path) (Path.names path)

def read (tree : FileTree) (path : String) : Except FileFault String := do
  match tree.entry? (← tree.resolve path) with
  | none => .error .missing
  | some .directory => .error .isDirectory
  | some (.file text) => if Path.endsInSlash path then .error .notDirectory else .ok text

/-- Puts a text into a file.  A path that ends in a slash cannot be one of a file, which shows as
soon as the directory above has been reached; the last name is not looked at. -/
def write (tree : FileTree) (path text : String) : Except FileFault FileTree := do
  check path
  if Path.endsInSlash path then
    let _ ← tree.follow (tree.start path) ((Path.names path).dropLast ++ ["."])
    .error .isDirectory
  else
    let place ← tree.follow (tree.start path) (Path.names path)
    if tree.isDirectory place then .error .isDirectory
    else .ok (tree.put place (.file text))

def makeDirectory (tree : FileTree) (place : Place) (names : List String) :
    Except FileFault FileTree := do
  let target ← tree.follow place names
  if (tree.entry? target).isSome then .error .alreadyExists else .ok (tree.put target .directory)

def ensureDirectory (tree : FileTree) (place : Place) (names : List String) :
    Except FileFault FileTree :=
  match tree.makeDirectory place names with
  | .ok made => .ok made
  | .error fault =>
    match tree.follow place names with
    | .ok target => if tree.isDirectory target then .ok tree else .error fault
    | .error _ => .error fault

/-- Makes a directory and those above it; the names are listed from the last one on. -/
def ensureDirectories (tree : FileTree) (place : Place) : List String → Except FileFault FileTree
  | [] => .ok tree
  | name :: above =>
    if name = "." then tree.ensureDirectories place above
    else
      match tree.ensureDirectory place (name :: above).reverse with
      | .ok made => .ok made
      | .error .missing => do
        let made ← tree.ensureDirectories place above
        made.ensureDirectory place (name :: above).reverse
      | .error fault => .error fault

/-- Makes the directory that a path leads to.  The directory itself is named as the path names it,
so a dot at the end asks for a directory that is already there. -/
def createDirectories (tree : FileTree) (path : String) : Except FileFault FileTree :=
  if path.isEmpty then .ok tree
  else do
    check path
    let place := tree.start path
    let names := Path.names path
    match tree.ensureDirectory place names with
    | .ok made => .ok made
    | .error .missing => do
      let made ← tree.ensureDirectories place (Path.above names)
      made.ensureDirectory place names
    | .error fault => .error fault

end FileTree

end SchemaDesign
