import SchemaDesign.Decimal.Shortest

/-!
# Values of the exchange format

Designs are exchanged as JSON.  A value keeps the order of the members of a record, members that
share a key, and the numeral of a number, since the meaning of a number can depend on how it is
written.
-/

namespace SchemaDesign.Json

inductive Value where
  | null
  | flag (value : Bool)
  | number (value : Numeral)
  | text (value : String)
  | list (items : List Value)
  | record (members : List (String × Value))
deriving Inhabited

/-- Why a text or a value is not accepted. -/
inductive Fault where
  /-- The text breaks the grammar. -/
  | malformed
  /-- A value has another type than its place asks for. -/
  | mismatched
  | truncated
deriving Repr, DecidableEq

/-- Numbers are written out up to sixteen digits before the point and five places after it. -/
def layout : Decimal.Layout := ⟨-4, 16⟩

namespace Value

/-- A number that the format can express, otherwise the empty value. -/
def ofFloat (value : Float) : Value :=
  if Decimal.isFinite value then .number (layout.ofFloat value) else .null

def ofNat (value : Nat) : Value :=
  .number (.ofNat value)

def member? (key : String) : Value → Option Value
  | .record members => members.lookup key
  | _ => none

def text? : Value → Option String
  | .text value => some value
  | _ => none

end Value

end SchemaDesign.Json
