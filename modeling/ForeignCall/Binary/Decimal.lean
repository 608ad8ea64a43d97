import ForeignCall.Binary.Format

/-!
# Floating-point numbers as decimals

`Decimal.shortest` finds the fewest digits that read back as the same double: among the numbers
with that many digits that round to it, the one nearest to it, and the upper one of two equally
near. `describe` writes it the way values are shown: positional from 1e-4 up to 1e16, with a point
always, and otherwise with an exponent.
-/

namespace ForeignCall.Binary

/-- A number `digits · 10 ^ exponent`. -/
structure Decimal where
  digits : Nat
  exponent : Int
  deriving DecidableEq, Repr

/-- The numbers that round to a double, as multiples of `2 ^ exponent`: from `low` to `high`, around
`value`; the ends belong to it when `closed`. -/
structure Interval where
  low : Nat
  value : Nat
  high : Nat
  exponent : Int
  closed : Bool

namespace Interval

/-- The numbers that round to `mantissa · 2 ^ exponent`. Below a power of two the next double is
half as far away, unless the power is the least normal one. -/
def around (mantissa : Nat) (exponent : Int) : Interval :=
  let narrowBelow := mantissa == 1 <<< double.fraction && double.least < exponent
  { low := if narrowBelow then 4 * mantissa - 1 else 4 * mantissa - 2
    value := 4 * mantissa
    high := 4 * mantissa + 2
    exponent := exponent - 2
    closed := mantissa % 2 == 0 }

/-- The grid of multiples of `10 ^ place`, scaled with the interval to whole numbers: the step of
the grid and the factor of the interval. -/
def scale (i : Interval) (place : Int) : Nat × Nat :=
  let step := Nat.pow 10 place.toNat <<< (-i.exponent).toNat
  let factor := Nat.pow 10 (-place).toNat <<< i.exponent.toNat
  (step, factor)

/-- The multiple of `10 ^ place` in the interval that is nearest to its value. -/
def nearest? (i : Interval) (place : Int) : Option Nat :=
  let (step, factor) := i.scale place
  let inside (n : Nat) : Bool :=
    if i.closed then i.low * factor ≤ n * step && n * step ≤ i.high * factor
    else i.low * factor < n * step && n * step < i.high * factor
  let below := i.value * factor / step
  let above := below + 1
  match inside below, inside above with
  | true, true =>
    some (if i.value * factor - below * step < above * step - i.value * factor then below
      else above)
  | true, false => some below
  | false, true => some above
  | false, false => none

/-- The coarsest grid from `place` down, at most `fuel` steps of it, that meets the interval. -/
def search (i : Interval) : Nat → Int → Decimal
  | 0, place => ⟨0, place⟩
  | fuel + 1, place =>
    match i.nearest? place with
    | some n => ⟨n, place⟩
    | none => i.search fuel (place - 1)

end Interval

namespace Decimal

/-- The number of places from above the greatest double to below the least one. -/
def places : Nat := 640

/-- The shortest decimal that reads back as `mantissa · 2 ^ exponent`. -/
def shortest (mantissa : Nat) (exponent : Int) : Decimal :=
  (Interval.around mantissa exponent).search places 309

/-- The text of a decimal with its point in place, and at least one digit behind it. -/
def positional (d : Decimal) : String :=
  let digits := toString d.digits
  if 0 ≤ d.exponent then
    digits ++ String.ofList (List.replicate d.exponent.toNat '0') ++ ".0"
  else
    let behind := (-d.exponent).toNat
    let padded := String.ofList (List.replicate (behind + 1 - digits.length) '0') ++ digits
    String.ofList (padded.toList.take (padded.length - behind)) ++ "." ++
      String.ofList (padded.toList.drop (padded.length - behind))

/-- The text of a decimal with one digit before the point and an exponent. -/
def scientific (d : Decimal) : String :=
  let digits := (toString d.digits).toList
  let exponent := d.exponent + (digits.length - 1 : Nat)
  let fraction := if digits.length ≤ 1 then "" else "." ++ String.ofList digits.tail
  String.ofList (digits.take 1) ++ fraction ++ s!"e{exponent}"

/-- The exponent of the first digit. -/
def magnitude (d : Decimal) : Int := d.exponent + ((toString d.digits).length - 1 : Nat)

end Decimal

/-- The text of a double. -/
def describe (bits : UInt64) : String :=
  match double.decode bits.toNat with
  | .nan .. => "NaN"
  | .infinite negative => if negative then "-inf" else "inf"
  | .finite negative mantissa exponent =>
    let sign := if negative then "-" else ""
    if mantissa = 0 then sign ++ "0.0"
    else
      let d := Decimal.shortest mantissa exponent
      sign ++ if -4 ≤ d.magnitude ∧ d.magnitude < 16 then d.positional else d.scientific

end ForeignCall.Binary
