import SchemaDesign.Json.Value

/-!
# Writing values

A value is written either on one line or over several, with two more columns of indentation for
each enclosing list or record.  Inside a string only the quote, the backslash and the control
characters are escaped; an empty list or record has nothing between its brackets.
-/

namespace SchemaDesign.Json

def hexDigit (value : Nat) : Char :=
  (Nat.digitChar value)

def escaped (c : Char) : List Char :=
  if c = '"' then ['\\', '"']
  else if c = '\\' then ['\\', '\\']
  else if c = '\x08' then ['\\', 'b']
  else if c = '\x0c' then ['\\', 'f']
  else if c = '\n' then ['\\', 'n']
  else if c = '\r' then ['\\', 'r']
  else if c = '\t' then ['\\', 't']
  else if c.toNat < 0x20 then
    ['\\', 'u', '0', '0', hexDigit (c.toNat / 16), hexDigit (c.toNat % 16)]
  else [c]

def stringText (value : String) : List Char :=
  '"' :: (value.toList.flatMap escaped ++ ['"'])

def scalarText : Value → List Char
  | .null => "null".toList
  | .flag true => "true".toList
  | .flag false => "false".toList
  | .number value => value.text
  | .text value => stringText value
  | .list _ => []
  | .record _ => []

mutual

def compactText : Value → List Char
  | .list items => '[' :: (compactItems items ++ [']'])
  | .record members => '\x7b' :: (compactMembers members ++ ['\x7d'])
  | value => scalarText value

def compactItems : List Value → List Char
  | [] => []
  | [item] => compactText item
  | item :: items => compactText item ++ ',' :: compactItems items

def compactMembers : List (String × Value) → List Char
  | [] => []
  | [(key, value)] => stringText key ++ ':' :: compactText value
  | (key, value) :: members =>
    stringText key ++ ':' :: (compactText value ++ ',' :: compactMembers members)

end

/-- A new line with the indentation of a nesting depth. -/
def lineStart (depth : Nat) : List Char :=
  '\n' :: List.replicate (2 * depth) ' '

mutual

/-- The value over several lines; `depth` counts the enclosing lists and records. -/
def prettyText (depth : Nat) : Value → List Char
  | .list [] => ['[', ']']
  | .list (item :: items) =>
    '[' :: (prettyItems (depth + 1) (item :: items) ++ lineStart depth ++ [']'])
  | .record [] => ['\x7b', '\x7d']
  | .record (entry :: members) =>
    '\x7b' :: (prettyMembers (depth + 1) (entry :: members) ++ lineStart depth ++ ['\x7d'])
  | value => scalarText value

def prettyItems (depth : Nat) : List Value → List Char
  | [] => []
  | [item] => lineStart depth ++ prettyText depth item
  | item :: items => lineStart depth ++ prettyText depth item ++ ',' :: prettyItems depth items

def prettyMembers (depth : Nat) : List (String × Value) → List Char
  | [] => []
  | [(key, value)] => lineStart depth ++ stringText key ++ ':' :: ' ' :: prettyText depth value
  | (key, value) :: members =>
    lineStart depth ++ stringText key ++ ':' :: ' ' :: prettyText depth value ++
      ',' :: prettyMembers depth members

end

namespace Value

def compact (value : Value) : String :=
  String.ofList (compactText value)

def pretty (value : Value) : String :=
  String.ofList (prettyText 0 value)

end Value

end SchemaDesign.Json
