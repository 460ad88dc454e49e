import SchemaDesign.Settings.Basic
import SchemaDesign.Toml.Reader

/-!
# Settings files

A settings file has a section on compilation and one on output.  Sections, settings and whole files
may be absent, and keys that are not known do not matter as long as their numbers can be
represented.  A section may also be a list with the values of its settings in their declared order,
of which only so many items are looked at as there are settings, or a date, which gives none.
-/

namespace SchemaDesign.Settings

open Toml (Node Members)

def textOf? : Node → Option String
  | .text value => some value
  | _ => none

def isEmptyNode : Node → Bool
  | .table _ [] => true
  | .list [] => true
  | _ => false

/-- A format is given by its name, or by an empty table or list of that name. -/
def formatOf? : Node → Option OutputFormat
  | .text name => OutputFormat.ofName? name
  | .table _ [(name, node)] => if isEmptyNode node then OutputFormat.ofName? name else none
  | _ => none

/-- The nodes of some keys, in the order of the keys; all other nodes have to be sound. -/
def nodesOf? (keys : List String) (members : Members) : Option (List (Option Node)) :=
  if members.all fun (key, node) => key ∈ keys || node.isSound then
    some (keys.map fun key => members.lookup key)
  else none

/-- The nodes of a section's settings, in the order of their keys. -/
def settingNodes? (keys : List String) : Node → Option (List (Option Node))
  | .table _ members => nodesOf? keys members
  | .scalar .moment => some (keys.map fun _ => none)
  | .list items => some (keys.zipIdx.map fun (_, position) => items[position]?)
  | .tables latest former =>
    let items := (latest :: former).reverse.map (Node.table .header)
    some (keys.zipIdx.map fun (_, position) => items[position]?)
  | _ => none

/-- A setting, which keeps its value when it is absent. -/
def setting? {α : Type} (read : Node → Option α) (standing : α) : Option Node → Option α
  | none => some standing
  | some node => read node

def readCompilation (settings : Settings) (node : Node) : Option Settings := do
  match ← settingNodes? ["dialect", "inheritance"] node with
  | [dialect, inheritance] =>
    let dialectName ← setting? textOf? settings.dialectName dialect
    let inheritanceName ←
      setting? (fun node => (textOf? node).map some) settings.inheritanceName inheritance
    return { settings with dialectName, inheritanceName }
  | _ => none

def readOutput (settings : Settings) (node : Node) : Option Settings := do
  match ← settingNodes? ["format", "directory", "statement_separator"] node with
  | [format, directory, separator] =>
    let format ← setting? formatOf? settings.format format
    let directory ← setting? (fun node => (textOf? node).map some) settings.directory directory
    let separator ← setting? textOf? settings.separator separator
    return { settings with format, directory, separator }
  | _ => none

def readSection (read : Settings → Node → Option Settings) (settings : Settings) :
    Option Node → Option Settings
  | none => some settings
  | some node => read settings node

def ofMembers? (members : Members) : Option Settings := do
  match ← nodesOf? ["compile", "output"] members with
  | [compilation, output] =>
    let settings ← readSection readCompilation standard compilation
    readSection readOutput settings output
  | _ => none

def ofText (text : String) : Except SettingsError Settings :=
  match (Toml.Members.ofText? text).bind ofMembers? with
  | some settings => .ok settings
  | none => .error .malformed

end SchemaDesign.Settings
