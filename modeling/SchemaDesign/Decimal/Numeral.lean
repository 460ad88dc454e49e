/-!
# Numerals

A numeral is a decimal number as it is written: a sign, the digits before the point, the digits
after it, and possibly an exponent.  Two numerals may have the same value, and the difference is
kept because a whole number and a number with a point mean different things where an index is
expected.

The binary64 number nearest to a numeral is found exactly.  A numeral whose leading digit stands far
above or far below the range of binary64 is recognised by its size alone, so that the exponent
never decides how much work is done.
-/

namespace SchemaDesign

structure Numeral where
  negative : Bool
  whole : List Char
  fraction : List Char
  exponent : Option Int
deriving Repr, DecidableEq

namespace Numeral

def digitsValue (digits : List Char) : Nat :=
  digits.foldl (fun value digit => 10 * value + (digit.toNat - '0'.toNat)) 0

/-- The digits on both sides of the point, read as one number. -/
def significand (n : Numeral) : Nat :=
  digitsValue (n.whole ++ n.fraction)

/-- The power of ten that the significand is multiplied by. -/
def scale (n : Numeral) : Int :=
  n.exponent.getD 0 - n.fraction.length

/-- The number of digits from the first one that is not zero. -/
def significantLength (n : Numeral) : Nat :=
  ((n.whole ++ n.fraction).dropWhile (· == '0')).length

/-- The nearest number without its sign.  A value of at least `10 ^ 310` lies beyond the range and
one below `10 ^ (-330)` is nearest to zero, whatever its digits are. -/
def magnitude (n : Numeral) : Float :=
  let size := n.scale + n.significantLength
  if n.significand = 0 then 0.0
  else if size > 310 then Float.ofScientific 1 false 400
  else if size < -330 then 0.0
  else if n.scale < 0 then Float.ofScientific n.significand true n.scale.natAbs
  else Float.ofScientific n.significand false n.scale.natAbs

/-- The nearest binary64 number; a numeral beyond the range gives an infinity. -/
def nearest (n : Numeral) : Float :=
  if n.negative then -n.magnitude else n.magnitude

/-- The number written, if it is written as a natural number: no sign, point or exponent. -/
def natural? (n : Numeral) : Option Nat :=
  if n.negative || !n.fraction.isEmpty || n.exponent.isSome then none
  else some (digitsValue n.whole)

def exponentText (exponent : Int) : List Char :=
  'e' :: (if exponent < 0 then '-' else '+') :: (Nat.toDigits 10 exponent.natAbs)

/-- The written form: an exponent always has a sign, and a point stands only before digits. -/
def text (n : Numeral) : List Char :=
  (if n.negative then ['-'] else []) ++ n.whole ++
    (if n.fraction.isEmpty then [] else '.' :: n.fraction) ++
    (n.exponent.map exponentText).getD []

def ofNat (value : Nat) : Numeral :=
  ⟨false, Nat.toDigits 10 value, [], none⟩

end Numeral

end SchemaDesign
