import SchemaDesign.Decimal.Numeral

/-!
# The fewest digits that read back

A finite binary64 number stands for all reals that round to it: an interval around the number,
which contains its ends exactly when the significand is even.  The number is written with the
fewest digits such that the decimal lies in the interval.  On each decimal grid the only candidates
are the two neighbours of the number, so the search goes from coarse grids to fine ones and stops
at the first grid with a candidate inside; of two candidates the nearer is taken, and of two
equally near ones the even one.  All comparisons are between natural numbers.

How the digits are laid out is a separate decision, made by whoever writes the number: the record
`Layout` says between which places the decimal point is written out.
-/

namespace SchemaDesign.Decimal

/-- A finite binary64 number without its sign, `significand * 2 ^ exponent`. -/
structure Binary where
  significand : Nat
  exponent : Int
  /-- The next number below is half as far away as the next one above. -/
  narrowBelow : Bool

namespace Binary

def ofBits (bits : UInt64) : Binary :=
  let biased := ((bits >>> 52) &&& 0x7FF).toNat
  let stored := (bits &&& 0xFFFFFFFFFFFFF).toNat
  if biased = 0 then ⟨stored, -1074, false⟩
  else ⟨Nat.pow 2 52 + stored, (biased : Int) - 1075, stored == 0 && biased > 1⟩

/-- A real number as a fraction of naturals, `factor * 2 ^ power`. -/
def scaled (factor : Nat) (power : Int) : Nat × Nat :=
  if power < 0 then (factor, Nat.pow 2 power.natAbs) else (factor * Nat.pow 2 power.natAbs, 1)

/-- How the decimal `digits * 10 ^ place` compares with a fraction. -/
def compareDecimal (digits : Nat) (place : Int) (fraction : Nat × Nat) : Ordering :=
  if place < 0 then compare (digits * fraction.2) (fraction.1 * Nat.pow 10 place.natAbs)
  else compare (digits * Nat.pow 10 place.natAbs * fraction.2) fraction.1

/-- Whether the decimal `digits * 10 ^ place` rounds to the number. -/
def readsBack (x : Binary) (digits : Nat) (place : Int) : Bool :=
  let low := scaled (4 * x.significand - (if x.narrowBelow then 1 else 2)) (x.exponent - 2)
  let high := scaled (4 * x.significand + 2) (x.exponent - 2)
  let closed := x.significand % 2 == 0
  let aboveLow := match compareDecimal digits place low with
    | .gt => true
    | .eq => closed
    | .lt => false
  let belowHigh := match compareDecimal digits place high with
    | .lt => true
    | .eq => closed
    | .gt => false
  aboveLow && belowHigh

/-- The multiple of `10 ^ place` that is at most the number. -/
def floorAt (x : Binary) (place : Int) : Nat :=
  let value := scaled x.significand x.exponent
  if place < 0 then value.1 * Nat.pow 10 place.natAbs / value.2
  else value.1 / (value.2 * Nat.pow 10 place.natAbs)

/-- A place above all digits of the number: the number is less than `10 ^ top`.  It comes from the
binary logarithm, with `30103 / 100000` for the logarithm of two. -/
def top (x : Binary) : Int :=
  (x.exponent + (x.significand.log2 : Int) + 1) * 30103 / 100000 + 1

/-- The candidate on one grid, if a neighbour of the number rounds to it. -/
def candidate (x : Binary) (place : Int) : Option Nat :=
  let below := x.floorAt place
  let above := below + 1
  match x.readsBack below place, x.readsBack above place with
  | false, false => none
  | true, false => some below
  | false, true => some above
  | true, true =>
    match compareDecimal (below + above) place (scaled (2 * x.significand) x.exponent) with
    | .gt => some below
    | .lt => some above
    | .eq => some (if below % 2 = 0 then below else above)

/-- The first grid with a candidate, going down from `place` over at most `grids` places. -/
def search (x : Binary) : Nat → Int → Nat × Int
  | 0, place => (x.floorAt place, place)
  | grids + 1, place =>
    match x.candidate place with
    | some digits => (digits, place)
    | none => x.search grids (place - 1)

/-- The fewest digits that read back, and the place of the last one.  Seventeen digits always
suffice, and the first grid may lie up to two places above the leading digit. -/
def shortest (x : Binary) : Nat × Int :=
  x.search 20 (x.top - 1)

end Binary

/-- Where the decimal point may stand, counted from the left of the leading digit, for a number to
be written without an exponent. -/
structure Layout where
  least : Int
  greatest : Int

/-- The numeral for digits that end at a place: written out when the point stands where the layout
allows, otherwise with one digit before the point and an exponent. -/
def Layout.numeral (layout : Layout) (negative : Bool) (digits : List Char) (place : Int) :
    Numeral :=
  let point := place + digits.length
  if layout.least ≤ point && point ≤ layout.greatest then
    if place ≥ 0 then ⟨negative, digits ++ List.replicate place.natAbs '0', ['0'], none⟩
    else if point > 0 then
      ⟨negative, digits.take point.natAbs, digits.drop point.natAbs, none⟩
    else ⟨negative, ['0'], List.replicate point.natAbs '0' ++ digits, none⟩
  else ⟨negative, digits.take 1, digits.drop 1, some (point - 1)⟩

/-- The numeral of a finite number; the sign of zero is written. -/
def Layout.ofFloat (layout : Layout) (value : Float) : Numeral :=
  let bits := value.toBits
  let negative := bits >>> 63 == 1
  let x := Binary.ofBits bits
  if x.significand = 0 then ⟨negative, ['0'], ['0'], none⟩
  else
    let (digits, place) := x.shortest
    layout.numeral negative (Nat.toDigits 10 digits) place

def isFinite (value : Float) : Bool :=
  (value.toBits >>> 52) &&& 0x7FF != 0x7FF

end SchemaDesign.Decimal
