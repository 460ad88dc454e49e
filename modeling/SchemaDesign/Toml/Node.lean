import SchemaDesign.Toml.Scalar

/-!
# Tables of a settings file

Settings are written in TOML.  A file is one table whose members are given line by line, so a table
comes about in several ways, and how it came about decides what later lines may add to it.  A table
with a header is complete when its lines end, and a table between braces is complete at once; a
table that only stands on the path to a header, or that was made by a dotted key, is not.

Only texts are told apart from each other.  Whether a number can be represented is noted where it
is read and matters where it is looked at.
-/

namespace SchemaDesign.Toml

/-- How a table came about. -/
inductive Origin where
  /-- By a header of its own. -/
  | header
  /-- On the path to a header. -/
  | implied
  /-- On the path of a dotted key. -/
  | dotted
  /-- Between braces. -/
  | inline
deriving Repr, DecidableEq

inductive Node where
  | text (value : String)
  | scalar (value : Scalar)
  | list (items : List Node)
  | table (origin : Origin) (members : List (String × Node))
  /-- Tables that share a repeated header, the last one first. -/
  | tables (latest : List (String × Node)) (former : List (List (String × Node)))
deriving Inhabited

abbrev Members := List (String × Node)

mutual

/-- Whether all numbers in a node can be represented. -/
def Node.isSound : Node → Bool
  | .text _ => true
  | .scalar value => value.isSound
  | .list items => Node.areSound items
  | .table _ members => Members.areSound members
  | .tables latest former => Members.areSound latest && Members.allSound former

def Node.areSound : List Node → Bool
  | [] => true
  | node :: nodes => node.isSound && Node.areSound nodes

def Members.areSound : List (String × Node) → Bool
  | [] => true
  | (_, node) :: members => node.isSound && Members.areSound members

def Members.allSound : List (List (String × Node)) → Bool
  | [] => true
  | members :: tables => Members.areSound members && Members.allSound tables

end

/-- The keys that lead to a value: those of tables, and the key in the last of these tables. -/
structure KeyPath where
  parents : List String
  last : String

namespace KeyPath

def keys (path : KeyPath) : List String := path.parents ++ [path.last]

end KeyPath

namespace Members

/-- Changes the node of a key; there may be none yet. -/
def alter (key : String) (change : Option Node → Option Node) : Members → Option Members
  | [] => (change none).map fun node => [(key, node)]
  | (other, node) :: members =>
    if other = key then (change (some node)).map fun node => (other, node) :: members
    else (alter key change members).map fun members => (other, node) :: members

/-- Changes the table that some keys lead to.  Missing tables are made on the way; the path of a
dotted key does not lead through a table with a header, and no path leads into braces. -/
def within (dotted : Bool) (change : Origin → Members → Option Members) :
    List String → Origin → Members → Option Members
  | [], origin, members => change origin members
  | key :: path, _, members =>
    alter key (fun
      | none =>
        let origin := if dotted then .dotted else .implied
        (within dotted change path origin []).map (.table origin)
      | some (.table origin inner) =>
        if origin = .inline ∨ (dotted ∧ origin = .header) then none
        else (within dotted change path origin inner).map (.table origin)
      | some (.tables latest former) =>
        (within dotted change path .header latest).map (.tables · former)
      | some _ => none) members

def add (key : String) (value : Node) : Members → Option Members :=
  alter key fun
    | none => some value
    | some _ => none

/-- Adds the value of a key, which may be dotted; a dotted key adds only to tables that dotted keys
have made. -/
def assign (path : KeyPath) (value : Node) (members : Members) : Option Members :=
  within true (fun origin members =>
    if path.parents ≠ [] ∧ origin ≠ .dotted then none else add path.last value members)
    path.parents .header members

def openTable (path : KeyPath) (members : Members) : Option Members :=
  within false (fun _ => alter path.last fun
    | none => some (.table .header [])
    | some (.table .implied inner) => some (.table .header inner)
    | some _ => none)
    path.parents .header members

/-- Begins another table under a repeated header. -/
def openElement (path : KeyPath) (members : Members) : Option Members :=
  within false (fun _ => alter path.last fun
    | none => some (.tables [] [])
    | some (.tables latest former) => some (.tables [] (latest :: former))
    | some _ => none)
    path.parents .header members

end Members

end SchemaDesign.Toml
