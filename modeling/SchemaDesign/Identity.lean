import SchemaDesign.Text.Hexadecimal

/-!
# Identities

Tables and columns are referred to by id, never by name.  An id is any text; records that arrive
without one share the nil id.  Records made by the library take their ids from a supply that the
caller hands in, so what is made is a function of the supply.  A supply can be split into two that
have no position in common, one for each of two steps that both make records.

Ids made by a program on its own are version 4 identifiers: 122 free bits, written in lower-case
hexadecimal digits with four hyphens.
-/

namespace SchemaDesign

abbrev TableId := String

abbrev ColumnId := String

/-- The id of a record that arrives without one. -/
def nilId : String := "00000000-0000-0000-0000-000000000000"

/-- Ids for new records, one for each position. -/
abbrev IdSupply := Nat → String

namespace IdSupply

def left (ids : IdSupply) : IdSupply := fun position => ids (2 * position)

def right (ids : IdSupply) : IdSupply := fun position => ids (2 * position + 1)

end IdSupply

namespace Identifier

/-- The last `count` hexadecimal digits of a number. -/
def hexDigits : Nat → Nat → List Char
  | 0, _ => []
  | count + 1, value => hexDigits count (value / 16) ++ [Nat.digitChar (value % 16)]

/-- The version 4 identifier with the given free bits, of which the last 122 count. -/
def ofBits (bits : Nat) : String :=
  let node := bits % Nat.pow 2 48
  let sequence := Nat.pow 2 15 + bits / Nat.pow 2 48 % Nat.pow 2 14
  let version := 4 * Nat.pow 2 12 + bits / Nat.pow 2 62 % Nat.pow 2 12
  let middle := bits / Nat.pow 2 74 % Nat.pow 2 16
  let start := bits / Nat.pow 2 90 % Nat.pow 2 32
  String.ofList (hexDigits 8 start ++ '-' :: hexDigits 4 middle ++ '-' :: hexDigits 4 version ++
    '-' :: hexDigits 4 sequence ++ '-' :: hexDigits 12 node)

def isLowerHexDigit (c : Char) : Bool :=
  c.isDigit || ('a' ≤ c && c ≤ 'f')

/-- Whether a text matches a picture in which `x` stands for any hexadecimal digit, in lower case
only where that is asked for, `y` for one of the four digits that begin the clock sequence, and
everything else for itself. -/
def matchesPicture (lowerCase : Bool) : List Char → List Char → Bool
  | [], [] => true
  | p :: picture, c :: text =>
    (if p = 'x' then isLowerHexDigit c || (!lowerCase && (Text.hexValue? c).isSome)
      else if p = 'y' then c = '8' || c = '9' || c = 'a' || c = 'b'
      else c = p) && matchesPicture lowerCase picture text
  | _, _ => false

/-- The form of every identifier, whatever its version and the case of its digits. -/
def isIdentifier (text : List Char) : Bool :=
  matchesPicture false "xxxxxxxx-xxxx-xxxx-xxxx-xxxxxxxxxxxx".toList text

/-- The form of the identifiers that are made here. -/
def isVersionFour (text : List Char) : Bool :=
  matchesPicture true "xxxxxxxx-xxxx-4xxx-yxxx-xxxxxxxxxxxx".toList text

end Identifier

end SchemaDesign
