/-!
# The host platform

The facts of the host that every other module relies on: 64-bit little-endian words, the width of
an address and of a C `long`, the page size, and the rounding of a size up to an alignment.

Sizes, offsets and addresses are natural numbers below `wordLimit`. An operation that the machine
does in words says itself what happens at the limit: it wraps (`wrap`), or it refuses
(`addWords`, `mulWords`, `alignUp`).
-/

namespace ForeignCall

/-! ## Words -/

/-- One past the largest machine word. -/
def wordLimit : Nat := 0x10000000000000000

/-- One past the largest signed machine word. -/
def signedLimit : Nat := 0x8000000000000000

/-- A number reduced to a machine word. -/
def wrap (n : Nat) : Nat := n % wordLimit

/-- The sum of two words, unless it leaves the word. -/
def addWords (a b : Nat) : Option Nat :=
  if a + b < wordLimit then some (a + b) else none

/-- The product of two words, unless it leaves the word. -/
def mulWords (a b : Nat) : Option Nat :=
  if a * b < wordLimit then some (a * b) else none

theorem addWords_eq_some {a b c : Nat} :
    addWords a b = some c ↔ c = a + b ∧ a + b < wordLimit := by
  unfold addWords
  split <;> simp_all [eq_comm]

theorem mulWords_eq_some {a b c : Nat} :
    mulWords a b = some c ↔ c = a * b ∧ a * b < wordLimit := by
  unfold mulWords
  split <;> simp_all [eq_comm]

/-- A word read as a signed number in two's complement. -/
def signedWord (n : Nat) : Int :=
  if n < signedLimit then n else (n : Int) - wordLimit

/-- The word of a signed number in two's complement. -/
def wordOfInt (i : Int) : Nat := (i % (wordLimit : Int)).toNat

/-! ## Widths -/

/-- Bytes in a native address. -/
def addressSize : Nat := 8

/-- Bytes in the host's C `long`. -/
def longSize : Nat := 8

/-- The alignment that every owned allocation is given. -/
def bufferAlign : Nat := 8

/-- Bytes in one page of virtual memory. -/
def pageSize : Nat := 4096

/-! ## Byte order -/

/-- An order of the bytes of a number in memory. -/
inductive Endian where
  | little
  | big
  deriving DecidableEq, Repr

/-- The name of an order. -/
def Endian.name : Endian → String
  | .little => "Little"
  | .big => "Big"

/-- The order in which the host itself stores numbers. -/
def Endian.host : Endian := .little

/-- A requested byte order; `native` stands for the host's. -/
inductive ByteOrder where
  | big
  | little
  | native
  deriving DecidableEq, Repr

/-- The request of a name. -/
def ByteOrder.ofName? : String → Option ByteOrder
  | "big" => some .big
  | "little" => some .little
  | "native" => some .native
  | _ => none

/-- The order that a request means. -/
def ByteOrder.resolve : ByteOrder → Endian
  | .big => .big
  | .little => .little
  | .native => .host

/-! ## Rounding up -/

/-- The least multiple of `align` that is not below `value`, for a positive `align`. -/
def roundUp (value align : Nat) : Nat := (value + align - 1) / align * align

theorem le_roundUp (value : Nat) {align : Nat} (h : 0 < align) : value ≤ roundUp value align := by
  unfold roundUp
  have h1 := Nat.div_add_mod (value + align - 1) align
  have h2 := Nat.mod_lt (value + align - 1) h
  have h3 := Nat.mul_comm ((value + align - 1) / align) align
  omega

theorem dvd_roundUp (value align : Nat) : align ∣ roundUp value align :=
  Nat.dvd_mul_left ..

theorem roundUp_lt (value : Nat) {align : Nat} (h : 0 < align) :
    roundUp value align < value + align := by
  unfold roundUp
  have h1 := Nat.div_mul_le_self (value + align - 1) align
  omega

/--
`value` rounded up to a multiple of `align`; an alignment of 0 or 1 changes nothing.

The sum `value + align` is formed in a word first, so the rounding is refused as soon as that sum
leaves the word.
-/
def alignUp (value align : Nat) : Option Nat :=
  if align ≤ 1 then some value
  else if value + align < wordLimit then some (roundUp value align)
  else none

theorem alignUp_of_le_one {value align : Nat} (h : align ≤ 1) :
    alignUp value align = some value := by
  simp [alignUp, h]

theorem alignUp_eq_some {value align r : Nat} (h : 1 < align) :
    alignUp value align = some r ↔ r = roundUp value align ∧ value + align < wordLimit := by
  unfold alignUp
  rw [if_neg (by omega)]
  split <;> simp_all [eq_comm]

end ForeignCall
