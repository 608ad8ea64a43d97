import ForeignCall.Bytes
import ForeignCall.Kind
import ForeignCall.Memory.View

/-!
# Numbers in memory

Numbers are read and written as bit patterns of a fixed width. A view in the byte order that is not
the host's holds them with their bytes reversed. An array access is checked as a whole before its
first element is touched; its elements stand at addresses of their own, and addresses are words.
-/

namespace ForeignCall

/-- The heap with pieces of a width written one after another from an address on. -/
def Heap.storeEach (h : Heap) (address width : Nat) : List (List UInt8) → Heap
  | [] => h
  | piece :: rest => (h.store address piece).storeEach (wrap (address + width)) width rest

@[simp] theorem Heap.next_storeEach (h : Heap) (a width : Nat) (pieces : List (List UInt8)) :
    (h.storeEach a width pieces).next = h.next := by
  induction pieces generalizing h a with
  | nil => rfl
  | cons piece rest ih => simp [storeEach, ih]

namespace View

/-- The bytes of a bit pattern, in the byte order of the view. -/
def encode (v : View) (width bits : Nat) : List UInt8 :=
  if v.swapped then (Bytes.ofNat width bits).reverse else Bytes.ofNat width bits

/-- The bit pattern of bytes, in the byte order of the view. -/
def decode (v : View) (bytes : List UInt8) : Nat :=
  Bytes.toNat (if v.swapped then bytes.reverse else bytes)

theorem length_encode (v : View) (width bits : Nat) : (v.encode width bits).length = width := by
  unfold encode
  split <;> simp

theorem decode_encode (v : View) (width bits : Nat) :
    v.decode (v.encode width bits) = bits % Bytes.limit width := by
  unfold encode decode
  split <;> simp [Bytes.toNat_ofNat]

end View

namespace Memory

/-- The size of `count` numbers. -/
def arrayWidth (width count : Nat) : Checked Nat :=
  match mulWords count width with
  | some size => .ok size
  | none => .error .oversized

/-- The bit pattern of `width` bytes at `offset`. -/
def readBits (m : Memory) (v : View) (offset width : Nat) : Checked Nat := do
  let bytes ← m.readBytes v offset width
  return v.decode bytes

/-- The memory with a bit pattern of `width` bytes written at `offset`. -/
def writeBits (m : Memory) (v : View) (offset width bits : Nat) : Checked Memory :=
  m.writeBytes v offset (v.encode width bits)

/-- The bit patterns of `count` numbers from `offset` on. -/
def readBitsArray (m : Memory) (v : View) (offset width count : Nat) : Checked (List Nat) := do
  let size ← arrayWidth width count
  let address ← m.check v offset size .read
  return (List.range count).map fun i =>
    v.decode (m.heap.load (wrap (address + i * width)) width)

/-- The memory with bit patterns written one after another from `offset` on. -/
def writeBitsArray (m : Memory) (v : View) (offset width : Nat) (values : List Nat) :
    Checked Memory := do
  let size ← arrayWidth width values.length
  let address ← m.check v offset size .write
  return { m with heap := m.heap.storeEach address width (values.map (v.encode width)) }

/-! ## Integers and addresses -/

/-- The integer of a kind at `offset`. -/
def readInt (m : Memory) (v : View) (offset : Nat) (k : IntKind) : Checked Int := do
  let bits ← m.readBits v offset k.bytes
  return k.ofBits bits

/-- The memory with the low bytes of an integer written at `offset`. -/
def writeInt (m : Memory) (v : View) (offset : Nat) (k : IntKind) (i : Int) : Checked Memory :=
  m.writeBits v offset k.bytes (k.toBits i)

/-- The address stored at `offset`. -/
def readAddress (m : Memory) (v : View) (offset : Nat) : Checked Nat :=
  m.readBits v offset addressSize

/-- The memory with an address stored at `offset`. -/
def writeAddress (m : Memory) (v : View) (offset address : Nat) : Checked Memory :=
  m.writeBits v offset addressSize address

/-- The address stored at `offset`, as a view without known end. -/
def readPointer (m : Memory) (v : View) (offset : Nat) : Checked View := do
  let address ← m.readAddress v offset
  return View.pointer address

end Memory

end ForeignCall
