import SchemaDesign.Decimal.Numeral

/-!
# Reading by scaling

The positions of a design are read in a few rounded steps.  The leading digits of a numeral are
gathered into a whole number as long as it stays below `2 ^ 64`; digits before the point that do not
fit count as zeros, and after the first digit behind the point that does not fit no more are
gathered.  The number is rounded to binary64, and then multiplied or divided by the power of ten
that is missing, which is itself rounded.

With up to fifteen digits and a power of ten up to `10 ^ 22` the number and the power are exact, so
the result is the nearest binary64 number.  Otherwise it may be a few units in the last place away.
-/

namespace SchemaDesign.Numeral

/-- Gathers digits as long as the number they write stays below `2 ^ 64`, and gives the number and
the digits that are left. -/
def gather : Nat → List Char → Nat × List Char
  | value, [] => (value, [])
  | value, digit :: digits =>
    let next := 10 * value + (digit.toNat - '0'.toNat)
    if next < Nat.pow 2 64 then gather next digits else (value, digit :: digits)

/-- The number that the leading digits write, and the power of ten that is missing. -/
def leading (n : Numeral) : Nat × Int :=
  let (whole, zeros) := gather 0 n.whole
  let (found, dropped) := gather whole n.fraction
  (found, n.exponent.getD 0 + zeros.length + dropped.length - n.fraction.length)

def greatestPower : Nat := 308

def powerOfTen (exponent : Nat) : Float :=
  Float.ofScientific 1 false exponent

/-- Multiplies by a power of ten.  Beyond the greatest one only zero stays within the range. -/
def scaleUp (value : Float) (exponent : Nat) : Float :=
  if exponent ≤ greatestPower then value * powerOfTen exponent
  else if value == 0.0 then value
  else 1.0 / 0.0

/-- Divides by a power of ten, in two steps when there is no such power in the range.  Divided twice
by the greatest power, every number below `2 ^ 64` becomes zero. -/
def scaleDown (value : Float) (exponent : Nat) : Float :=
  if exponent ≤ greatestPower then value / powerOfTen exponent
  else if exponent ≤ 2 * greatestPower then
    value / powerOfTen greatestPower / powerOfTen (exponent - greatestPower)
  else 0.0

/-- The number read by scaling; a numeral beyond the range gives an infinity. -/
def scaled (n : Numeral) : Float :=
  let (found, exponent) := n.leading
  let value := found.toUInt64.toFloat
  let magnitude :=
    if exponent < 0 then scaleDown value exponent.natAbs else scaleUp value exponent.natAbs
  if n.negative then -magnitude else magnitude

end SchemaDesign.Numeral
