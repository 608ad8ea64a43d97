/-!
# Binary floating-point formats

Bit patterns of IEEE 754 binary numbers, as natural numbers. A finite pattern stands for
`mantissa · 2 ^ exponent` with a sign (`Format.decode`). `Format.round` gives the pattern nearest to
such a number, ties to the even one, and infinity from half a unit above the greatest finite number
on. Conversions between the formats and from integers are that rounding.

Patterns that are not a number keep their sign and the high bits of their payload when the format
changes, and become quiet.
-/

namespace ForeignCall.Binary

/-- A format: the bits of the fraction and of the exponent. -/
structure Format where
  fraction : Nat
  exponent : Nat
  deriving DecidableEq, Repr

/-- Single precision. -/
def single : Format := ⟨23, 8⟩

/-- Double precision. -/
def double : Format := ⟨52, 11⟩

/-- What a bit pattern stands for. -/
inductive Number where
  | nan (negative : Bool) (payload : Nat)
  | infinite (negative : Bool)
  | finite (negative : Bool) (mantissa : Nat) (exponent : Int)
  deriving DecidableEq, Repr

namespace Format

/-- The exponent of the last place of the smallest numbers. -/
def least (f : Format) : Int := 2 - (1 <<< (f.exponent - 1) : Nat) - f.fraction

/-- The pattern of infinity without a sign. -/
def infinity (f : Format) : Nat := (1 <<< f.exponent - 1) <<< f.fraction

/-- The sign bit. -/
def sign (f : Format) (negative : Bool) : Nat :=
  if negative then 1 <<< (f.fraction + f.exponent) else 0

/-- The number that a pattern stands for. -/
def decode (f : Format) (bits : Nat) : Number :=
  let negative := bits >>> (f.fraction + f.exponent) % 2 == 1
  let exponent := bits >>> f.fraction % 1 <<< f.exponent
  let fraction := bits % 1 <<< f.fraction
  if exponent = 1 <<< f.exponent - 1 then
    if fraction = 0 then .infinite negative else .nan negative fraction
  else if exponent = 0 then .finite negative fraction f.least
  else .finite negative (1 <<< f.fraction + fraction) (f.least + exponent - 1)

/-- `n / 2 ^ shift` rounded to the nearest number, ties to the even one. -/
def shiftRight (n shift : Nat) : Nat :=
  let unit := 1 <<< shift
  let quotient := n / unit
  let double := 2 * (n % unit)
  if unit < double ∨ (double = unit ∧ quotient % 2 = 1) then quotient + 1 else quotient

/-- The pattern nearest to `mantissa · 2 ^ exponent`, ties to the even one. -/
def round (f : Format) (negative : Bool) (mantissa : Nat) (exponent : Int) : Nat :=
  if mantissa = 0 then f.sign negative
  else
    let top := exponent + Nat.log2 mantissa
    let unit := max (top - f.fraction) f.least
    let scaled :=
      if unit ≤ exponent then mantissa <<< (exponent - unit).toNat
      else shiftRight mantissa (unit - exponent).toNat
    let magnitude := scaled + (unit - f.least).toNat <<< f.fraction
    f.sign negative + min magnitude f.infinity

/-- The quiet pattern that is not a number, with a sign and the high bits of a payload. -/
def quiet (f : Format) (negative : Bool) (payload : Nat) : Nat :=
  let half := 1 <<< (f.fraction - 1)
  f.sign negative + f.infinity + half + payload % half

end Format

/-- The pattern of `f` for a pattern of `g`. -/
def convert (g f : Format) (bits : Nat) : Nat :=
  match g.decode bits with
  | .finite negative mantissa exponent => f.round negative mantissa exponent
  | .infinite negative => f.sign negative + f.infinity
  | .nan negative payload =>
    f.quiet negative (payload <<< f.fraction >>> g.fraction)

/-- The single-precision pattern nearest to a double. -/
def narrow (bits : UInt64) : UInt32 := UInt32.ofNat (convert double single bits.toNat)

/-- The double of a single-precision pattern. -/
def widen (bits : UInt32) : UInt64 := UInt64.ofNat (convert single double bits.toNat)

/-- The double nearest to an integer. -/
def ofInt (i : Int) : UInt64 := UInt64.ofNat (double.round (i < 0) i.natAbs 0)

/-- Whether a double is not a number. -/
def isNaN (bits : UInt64) : Bool :=
  match double.decode bits.toNat with
  | .nan .. => true
  | _ => false

/-- Whether two doubles are equal as numbers: nothing equals a pattern that is not a number, and
the two zeros are equal. -/
def equal (a b : UInt64) : Bool :=
  !isNaN a && !isNaN b && (a == b || (a ||| b) == 0x8000000000000000)

example : ofInt 9007199254740993 = 0x4340000000000000 := by decide
example : ofInt (-170141183460469231731687303715884105728) = 0xc7e0000000000000 := by decide
example : narrow 0x3fb999999999999a = 0x3dcccccd := by decide
example : narrow 0x7e37e43c8800759c = 0x7f800000 := by decide
example : widen 0x3dcccccd = 0x3fb99999a0000000 := by decide
example : narrow 0x7ff8000000000000 = 0x7fc00000 := by decide
example : narrow 1 = 0 := by decide +kernel
example : widen 1 = 0x36a0000000000000 := by decide

end ForeignCall.Binary
