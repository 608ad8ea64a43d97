import ForeignCall.Memory.Scalar
import ForeignCall.Text.Utf8

/-!
# C strings in memory

A C string is read up to its terminating zero byte: within a given length, else to the end of the
view, and through a view without known end as far as the zero byte is. It is written with one zero
byte behind it.
-/

namespace ForeignCall

namespace Memory

/-- The bytes before the first zero byte. -/
def untilNul (bytes : List UInt8) : List UInt8 := bytes.takeWhile (· != 0)

/-- How far a string at `offset` may reach: as given, else to the end of a view that has one. -/
def stringLimit (v : View) (offset : Nat) (maxLength : Option Nat) : Option Nat :=
  match maxLength with
  | some length => some length
  | none => if v.isUnbounded then none else some (v.size - offset)

/-- The bytes of the C string at `offset`. -/
def readString (m : Memory) (v : View) (offset : Nat) (maxLength : Option Nat) :
    Checked (List UInt8) :=
  match stringLimit v offset maxLength with
  | some limit => do
    let bytes ← m.readBytes v offset limit
    return untilNul bytes
  | none => do
    let address ← m.check v offset 0 .read
    return m.heap.cString address

/-- The memory with a C string written at `offset`. -/
def writeString (m : Memory) (v : View) (offset : Nat) (bytes : List UInt8) : Checked Memory :=
  m.writeBytes v offset (bytes ++ [0])

/-- The bytes of the C string at an address, and nothing at the null address. -/
def stringAt (m : Memory) (address : Nat) : Option (List UInt8) :=
  if address = 0 then none else some (m.heap.cString address)

/--
The texts of an array of string addresses from its entry `index` on. With a count the array ends
there, and a null entry is no text; without one it ends at the first null entry.
-/
def readStringsFrom (m : Memory) (v : View) (offset : Nat) (count : Option Nat) (index : Nat) :
    Outcome (List (Option String)) :=
  if count.any fun n => n ≤ index then .ok []
  else if offset + index * addressSize < wordLimit then do
    let address ← (m.readAddress v (offset + index * addressSize)).outcome
    if address = 0 ∧ count.isNone then return []
    let rest ← m.readStringsFrom v offset count (index + 1)
    return (m.stringAt address).map Utf8.lossy :: rest
  else .error .overflow
termination_by wordLimit - (offset + index * addressSize)
decreasing_by
  simp only [addressSize] at *
  omega

/-- The texts of an array of string addresses at `offset`. -/
def readStrings (m : Memory) (v : View) (offset : Nat) (count : Option Nat) :
    Outcome (List (Option String)) :=
  m.readStringsFrom v offset count 0

end Memory

end ForeignCall
