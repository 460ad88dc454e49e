import SchemaDesign.Text.Blank
import SchemaDesign.Text.Hexadecimal
import SchemaDesign.Decimal.Shortest

/-!
# Scalars of a settings file

No setting is a number, a flag or a date, but a file may hold them under keys that do not matter,
and there they have to be well formed.  Dates and times are limited to those of the calendar and
the clock.

A number is judged in two steps.  When the file is read its spelling is checked, and that leaves
some room: digits may be absent after the mark of a base, and a whole number whose digits are
grouped with underscores only needs digits of some base next to the underscores.  Whether the
number can be represented, as a whole number of 128 bits or a binary64 number, matters only where
it is looked at.
-/

namespace SchemaDesign.Toml

inductive Scalar where
  | flag
  /-- A date, a time or both. -/
  | moment
  | number (representable : Bool)
deriving Repr, DecidableEq

namespace Scalar

/-- A scalar that stands for a value. -/
def isSound : Scalar → Bool
  | .number representable => representable
  | _ => true

def valueIn (base : Nat) (text : List Char) : Nat :=
  (text.filterMap Text.hexValue?).foldl (fun value digit => base * value + digit) 0

def isOctalDigit (c : Char) : Bool := '0' ≤ c && c ≤ '7'

def isBinaryDigit (c : Char) : Bool := c = '0' || c = '1'

def isHexDigit (c : Char) : Bool := (Text.hexValue? c).isSome

def splitSign (text : List Char) : Option Char × List Char :=
  match text with
  | c :: rest => if c = '+' ∨ c = '-' then (some c, rest) else (none, text)
  | [] => (none, [])

/-- Whether every underscore has a digit before it and after it.  The text may follow something
that an underscore may stand after. -/
def isGrouped (isDigit : Char → Bool) : Bool → List Char → Bool
  | _, [] => true
  | afterDigit, c :: rest =>
    if c = '_' then afterDigit && rest.head?.any isDigit && isGrouped isDigit false rest
    else isGrouped isDigit (isDigit c) rest

def withoutUnderscores (text : List Char) : List Char :=
  text.filter (· ≠ '_')

/-- A whole number in a base other than ten, which takes no sign. -/
def based? (base : Nat) (isDigit : Char → Bool) (text : List Char) : Option Scalar :=
  let digits := withoutUnderscores text
  if digits.all isDigit ∧ isGrouped isDigit false text then
    some (.number (digits ≠ [] && valueIn base digits < Nat.pow 2 128))
  else none

def whole? (negative signed : Bool) (text : List Char) : Option Scalar :=
  let digits := withoutUnderscores text
  let value := valueIn 10 digits
  if (text.head? ≠ some '0' ∨ text.length = 1) ∧ isGrouped isHexDigit signed text then
    some (.number (digits.all Char.isDigit &&
      (if negative then value ≤ Nat.pow 2 127 else value < Nat.pow 2 128)))
  else none

/-- Takes digits and underscores, with at least one digit, and gives them without underscores. -/
def digits? (text : List Char) : Option (List Char × List Char) :=
  let belongs (c : Char) : Bool := c.isDigit || c = '_'
  let digits := withoutUnderscores (text.takeWhile belongs)
  if digits = [] then none else some (digits, text.dropWhile belongs)

/-- The fraction after a point, which may be left out. -/
def fraction? (text : List Char) : Option (List Char × List Char) :=
  match text with
  | '.' :: rest => digits? rest
  | _ => some ([], text)

/-- The exponent at the end of a number, which may be left out. -/
def exponent? (text : List Char) : Option (Option Int) :=
  match text with
  | [] => some none
  | mark :: rest =>
    if mark = 'e' ∨ mark = 'E' then
      let (sign, rest) := splitSign rest
      match digits? rest with
      | some (digits, []) =>
        let value : Int := valueIn 10 digits
        some (some (if sign = some '-' then -value else value))
      | _ => none
    else none

/-- A number with a point, an exponent or both. -/
def numeral? (negative signed : Bool) (text : List Char) : Option Numeral := do
  let (whole, rest) ← digits? text
  let (fraction, rest) ← fraction? rest
  let exponent ← exponent? rest
  if (text.head? = some '0' ∧ whole.length > 1) ∨ !isGrouped Char.isDigit signed text then none
  else return ⟨negative, whole, fraction, exponent⟩

def isPointOrMark (c : Char) : Bool := c = '.' || c = 'e' || c = 'E'

def number? (text : List Char) : Option Scalar :=
  let (sign, body) := splitSign text
  let negative := sign = some '-'
  if body = "inf".toList ∨ body = "nan".toList then some (.number true)
  else
    match sign, body with
    | none, '0' :: 'x' :: digits => based? 16 isHexDigit digits
    | none, '0' :: 'o' :: digits => based? 8 isOctalDigit digits
    | none, '0' :: 'b' :: digits => based? 2 isBinaryDigit digits
    | _, _ =>
      let rest := body.dropWhile Char.isDigit
      if body = [] ∨ ' ' ∈ rest then none
      else if rest.any isPointOrMark then
        (numeral? negative sign.isSome body).map fun found =>
          .number (Decimal.isFinite found.nearest)
      else if rest = [] ∨ rest.head? = some '_' then whole? negative sign.isSome body
      else none

/-- The number that two digits write. -/
def twoDigits? (first second : Char) : Option Nat :=
  if first.isDigit ∧ second.isDigit then some (valueIn 10 [first, second]) else none

def isLeapYear (year : Nat) : Bool :=
  year % 4 = 0 && (year % 100 ≠ 0 || year % 400 = 0)

def daysIn (year month : Nat) : Nat :=
  if month = 2 then (if isLeapYear year then 29 else 28)
  else if month ∈ [4, 6, 9, 11] then 30
  else 31

def afterDate? (text : List Char) : Option (List Char) :=
  match text with
  | c :: d :: e :: f :: '-' :: g :: h :: '-' :: i :: j :: rest => do
    let year := 100 * (← twoDigits? c d) + (← twoDigits? e f)
    let month ← twoDigits? g h
    let day ← twoDigits? i j
    if 1 ≤ month ∧ month ≤ 12 ∧ 1 ≤ day ∧ day ≤ daysIn year month then some rest else none
  | _ => none

def afterMinutes? (text : List Char) : Option (List Char) :=
  match text with
  | a :: b :: ':' :: c :: d :: rest => do
    let hour ← twoDigits? a b
    let minute ← twoDigits? c d
    if hour ≤ 23 ∧ minute ≤ 59 then some rest else none
  | _ => none

/-- Seconds and a fraction of them, which may both be left out. -/
def afterSeconds? (text : List Char) : Option (List Char) :=
  match text with
  | ':' :: a :: b :: rest => do
    let second ← twoDigits? a b
    if second > 60 then none
    else
      match rest with
      | '.' :: rest =>
        if rest.takeWhile Char.isDigit = [] then none else some (rest.dropWhile Char.isDigit)
      | _ => some rest
  | _ => some text

def afterTime? (text : List Char) : Option (List Char) :=
  (afterMinutes? text).bind afterSeconds?

/-- The distance of a clock from the one at Greenwich, which may be left out. -/
def isOffset (text : List Char) : Bool :=
  match text with
  | [] => true
  | [mark] => mark = 'Z' || mark = 'z'
  | sign :: rest => (sign = '+' || sign = '-') && afterMinutes? rest = some []

/-- A date, a time, or both with one of three marks between them. -/
def isMoment (text : List Char) : Bool :=
  afterTime? text = some [] ||
    match afterDate? text with
    | none => false
    | some [] => true
    | some (mark :: rest) =>
      (mark = 'T' || mark = 't' || mark = ' ') && (afterTime? rest).any isOffset

def ofText? (text : List Char) : Option Scalar :=
  if text = "true".toList ∨ text = "false".toList then some .flag
  else if isMoment text then some .moment
  else number? text

end Scalar

end SchemaDesign.Toml
