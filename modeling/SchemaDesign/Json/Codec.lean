import SchemaDesign.Json.Reader

/-!
# Codecs

A codec ties a type to its form in the exchange format: it writes a value of the type and reads one
from a text.  A text that is refused is told by its first fault in reading order.

A record is read member by member.  Members that are absent keep the value of a given default,
members that are not known are passed over, and a known member must not be repeated.  Instead of a
record there may also be a list with the values of the members in their declared order, of which
the last ones may be missing.
-/

namespace SchemaDesign.Json

structure Codec (α : Type) where
  /-- The written form; nothing is written for a value that stands for absence. -/
  write : α → Option Value
  /-- Reads from a text whose length is below the bound. -/
  fromText : Nat → Reader α

namespace Codec

variable {α : Type}

def scalar (write : α → Option Value) (decode : Value → Option α) : Codec α where
  write := write
  fromText _ := do
    match ← Reader.peek with
    | some '[' => Reader.fail .mismatched
    | some '\x7b' => Reader.fail .mismatched
    | _ => do
      let value ← Reader.scalar
      match decode value with
      | some found => return found
      | none => Reader.fail .mismatched

def text : Codec String :=
  scalar (fun value => some (.text value)) fun
    | .text value => some value
    | _ => none

def flag : Codec Bool :=
  scalar (fun value => some (.flag value)) fun
    | .flag value => some value
    | _ => none

def number : Codec Float :=
  scalar (fun value => some (.ofFloat value)) fun
    | .number value => some value.scaled
    | _ => none

/-- A text that may be absent; absence may also be written out as the empty value. -/
def optionalText : Codec (Option String) :=
  scalar (fun value => value.map .text) fun
    | .text value => some (some value)
    | .null => some none
    | _ => none

/-- One of a few kinds.  Any value that can be read is accepted, nested at most `depth` deep, and
what names no kind stands for the default. -/
def kind (depth : Nat) (name : α → String) (decode : Value → α) : Codec α where
  write value := some (.text (name value))
  fromText bound := do return decode (← Reader.value bound depth)

def list (element : Codec α) : Codec (List α) where
  write values := some (.list (values.filterMap element.write))
  fromText bound := do
    match ← Reader.peek with
    | some '[' => Reader.items bound (element.fromText bound)
    | _ => Reader.unexpected

end Codec

/-- A field of a record type, and the member that stands for it in a record. -/
structure RecordField (ρ : Type) where
  key : String
  write : ρ → Option Value
  /-- Reads the member's value and puts it into a record. -/
  fromText : Nat → ρ → Reader ρ

def RecordField.of {ρ α : Type} (key : String) (codec : Codec α) (get : ρ → α)
    (set : ρ → α → ρ) : RecordField ρ where
  key := key
  write record := codec.write (get record)
  fromText bound record := do return set record (← codec.fromText bound)

namespace Codec

variable {ρ : Type}

def writeFields (fields : List (RecordField ρ)) (record : ρ) : List (String × Value) :=
  fields.filterMap fun field => (field.write record).map fun value => (field.key, value)

/-- Reads one member; the state holds the known keys seen so far and the record. -/
def readMember (fields : List (RecordField ρ)) (bound : Nat) (state : List String × ρ)
    (key : String) : Reader (List String × ρ) :=
  match fields.find? (·.key == key) with
  | some field =>
    if key ∈ state.1 then Reader.fail .mismatched
    else do
      Reader.colon
      return (key :: state.1, ← field.fromText bound state.2)
  | none => do
    Reader.colon
    Reader.skip bound
    return state

/-- The closing bracket of a list that has all members. -/
def listEnd : Reader Unit := do
  match ← Reader.peek with
  | none => Reader.fail .truncated
  | some ']' => Reader.advance
  | some _ => Reader.fail .malformed

/-- Reads the members in their declared order; `separated` tells that a comma comes first. -/
def readListed (bound : Nat) : List (RecordField ρ) → Bool → ρ → Reader ρ
  | [], _, record => do listEnd; return record
  | field :: fields, separated, record => do
    match ← Reader.peek with
    | none => Reader.fail .truncated
    | some ']' => do Reader.advance; return record
    | some c =>
      if !separated then do
        let record ← field.fromText bound record
        readListed bound fields true record
      else if c = ',' then do
        Reader.advance
        match ← Reader.peek with
        | none => Reader.fail .truncated
        | some ']' => Reader.fail .malformed
        | some _ => do
          let record ← field.fromText bound record
          readListed bound fields true record
      else Reader.fail .malformed

def record (default : ρ) (fields : List (RecordField ρ)) : Codec ρ where
  write record := some (.record (writeFields fields record))
  fromText bound := do
    match ← Reader.peek with
    | some '\x7b' => do
      let (_, record) ← Reader.members bound (readMember fields bound) ([], default)
      return record
    | some '[' => do
      Reader.advance
      readListed bound fields false default
    | _ => Reader.unexpected

def ofText {α : Type} (codec : Codec α) (text : String) : Except Fault α :=
  Reader.whole codec.fromText text

def toValue {α : Type} (codec : Codec α) (value : α) : Value :=
  (codec.write value).getD .null

end Codec

end SchemaDesign.Json
