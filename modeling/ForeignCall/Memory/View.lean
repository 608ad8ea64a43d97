import ForeignCall.Fault
import ForeignCall.Memory.Heap

/-!
# Views of memory

A view is a region of native memory: an address and a size, with the permission to read or write,
the byte order of its numbers, and the origin that keeps the region alive. Views made from a bare
address have no origin and no known end (`unbounded`).

Every access goes through `Memory.check`. It looks, in this order, at the null address, at an
origin that has released the region, at the permission, and at the bounds, and answers with the
address of the access. Nothing is read or written before it has succeeded.
-/

namespace ForeignCall

/-! ## Owners of regions -/

/-- What owns a region of memory. -/
inductive OwnerKind where
  /-- A block of the native heap. -/
  | allocation
  /-- A block of the managed heap, lent to native code. -/
  | buffer
  /-- Memory of someone else, with a function that releases it. -/
  | foreign (label : String)
  deriving DecidableEq, Repr

/-- The owner of a region. -/
structure Owner where
  kind : OwnerKind
  address : Nat
  size : Nat
  /-- Whether the region is released when nothing holds it any more. -/
  autorelease : Bool
  released : Bool
  deriving DecidableEq, Repr

/-- What keeps the bytes behind a view alive. -/
inductive Origin where
  /-- The owner of a region, by its position in the table of owners. -/
  | owner (id : Nat)
  /-- A callback, whose code the view points at. -/
  | callback (id : Nat)
  /-- A library, whose code the view points at. -/
  | library (id : Nat)
  deriving DecidableEq, Repr

/-- The native memory: its bytes and the owners of its regions. -/
structure Memory where
  heap : Heap
  owners : Array Owner

namespace Memory

/-- Whether an origin has not released its region; only owners ever do. -/
def isLive (m : Memory) : Origin → Bool
  | .owner id => (m.owners[id]?.map fun o => !o.released).getD true
  | _ => true

end Memory

/-! ## Views -/

/-- What an access does. -/
inductive Mode where
  | read
  | write
  deriving DecidableEq, Repr

/-- What a view permits. -/
structure Access where
  read : Bool
  write : Bool
  deriving DecidableEq, Repr

namespace Access

/-- Reading and writing. -/
def readWrite : Access := ⟨true, true⟩

/-- Reading only. -/
def readOnly : Access := ⟨true, false⟩

/-- The permissions of two bits, 1 to read and 2 to write. -/
def ofBits (bits : Nat) : Access := ⟨bits.testBit 0, bits.testBit 1⟩

/-- The name of permissions. -/
def name : Access → String
  | ⟨true, true⟩ => "rw"
  | ⟨true, false⟩ => "r"
  | ⟨false, true⟩ => "w"
  | ⟨false, false⟩ => "none"

/-- Whether a mode is permitted. -/
def allows (a : Access) : Mode → Bool
  | .read => a.read
  | .write => a.write

end Access

/-- The size of a view whose end is not known. -/
def unbounded : Nat := wordLimit - 1

/-- A view of a region of native memory. -/
structure View where
  address : Nat
  size : Nat
  /-- The size of one element. -/
  typeSize : Nat
  access : Access
  /-- Whether numbers are stored in the order that is not the host's. -/
  swapped : Bool
  origin : Option Origin
  deriving DecidableEq, Repr

namespace View

/-- A view with all permissions in the host's byte order. -/
def ofParts (address size typeSize : Nat) (origin : Option Origin) : View :=
  ⟨address, size, Nat.max typeSize 1, .readWrite, false, origin⟩

/-- A bare address of unknown extent. -/
def pointer (address : Nat) : View := ofParts address unbounded 1 none

/-- A bare address with a known size. -/
def sized (address size : Nat) : View := ofParts address size 1 none

/-- The null address. -/
def null : View := pointer 0

/-- Whether the view is at the null address. -/
def isNull (v : View) : Bool := v.address == 0

/-- Whether the end of the view is not known. -/
def isUnbounded (v : View) : Bool := v.size == unbounded

/-- The byte order of the numbers in the view. -/
def endian (v : View) : Endian := if v.swapped then .big else .little

/-! ## Derived views -/

/-- The same region with other permissions. -/
def withAccess (v : View) (access : Access) : View := { v with access }

/-- The same region, to be read only. -/
def readOnly (v : View) : View := v.withAccess .readOnly

/-- The same region in a byte order. -/
def order (v : View) (order : ByteOrder) : View :=
  { v with swapped := order.resolve != Endian.host }

/-- The same region in elements of another size; a size of 0 counts as 1. -/
def typed (v : View) (typeSize : Nat) : View := { v with typeSize := Nat.max typeSize 1 }

/-- The same kind of view at another address and size. -/
def derive (v : View) (address size : Nat) : View := { v with address, size }

/-- The view from `delta` bytes further on. Only a view without known end can be moved back. -/
def offset (v : View) (delta : Int) : Outcome View :=
  if v.isUnbounded then .ok (v.derive (wordOfInt (v.address + delta)) unbounded)
  else if delta < 0 ∨ (v.size : Int) < delta then refuse (.bounds delta 0 v.size)
  else do
    let address ← orOverflow (addWords v.address delta.toNat)
    return v.derive address (v.size - delta.toNat)

/-- The view of `size` bytes from `offset` on. -/
def slice (v : View) (offset size : Nat) : Outcome View :=
  if offset + size < wordLimit ∧ offset + size ≤ v.size then do
    let address ← orOverflow (addWords v.address offset)
    return v.derive address size
  else refuse (.outside offset size v.size)

/-- The view of one element. -/
def index (v : View) (index : Nat) : Outcome View :=
  match mulWords index v.typeSize with
  | some offset => v.slice offset v.typeSize
  | none => refuse (.bounds (signedLimit - 1 : Nat) v.typeSize v.size)

end View

/-! ## Lent buffers -/

/-- What native code is lent a buffer for. -/
inductive Direction where
  | input
  | output
  | both
  deriving DecidableEq, Repr

/-- The name of a direction. -/
def Direction.name : Direction → String
  | .input => "In"
  | .output => "Out"
  | .both => "InOut"

/-- The direction of a name in small letters. -/
def Direction.ofName? : String → Option Direction
  | "in" => some .input
  | "out" => some .output
  | "inout" => some .both
  | _ => none

/-! ## Checked access -/

namespace Memory

/-- The address of an access of `width` bytes at `offset`, if the view admits it. -/
def check (m : Memory) (v : View) (offset width : Nat) (mode : Mode) : Checked Nat :=
  if v.address = 0 then .error (.nullPointer none)
  else if v.origin.any fun o => !m.isLive o then .error .freed
  else if !v.access.allows mode then
    .error (.runtime (match mode with
      | .write => "memory is not writable"
      | .read => "memory is not readable"))
  else if offset + width < wordLimit ∧ offset + width ≤ v.size then
    .ok (wrap (v.address + offset))
  else .error (.outside offset width v.size)

/-- The bytes of a view from `offset` on. -/
def readBytes (m : Memory) (v : View) (offset length : Nat) : Checked (List UInt8) := do
  let address ← m.check v offset length .read
  return m.heap.load address length

/-- The memory with bytes written into a view from `offset` on. -/
def writeBytes (m : Memory) (v : View) (offset : Nat) (bytes : List UInt8) : Checked Memory := do
  let address ← m.check v offset bytes.length .write
  return { m with heap := m.heap.store address bytes }

/-- The memory with every byte of a view zero. -/
def clear (m : Memory) (v : View) : Checked Memory :=
  if v.isUnbounded then .error (.argument "cannot clear memory of unbounded size")
  else do
    let address ← m.check v 0 v.size .write
    return { m with heap := m.heap.store address (List.replicate v.size 0) }

/-- The memory with the first bytes of `src` copied into `dst` from `offset` on. -/
def copy (m : Memory) (dst : View) (offset : Nat) (src : View) (length : Nat) : Checked Memory := do
  let source ← m.check src 0 length .read
  let target ← m.check dst offset length .write
  return { m with heap := m.heap.store target (m.heap.load source length) }

/-! ## Owned memory -/

/-- The size of `count` elements. -/
def totalSize (typeSize count : Nat) : Checked Nat :=
  match mulWords typeSize count with
  | some size => .ok size
  | none => .error .oversized

/-- Where a block stands in the bytes obtained for it, which are 7 more than asked for. -/
def placeBlock (base : Nat) : Option Nat := alignUp base bufferAlign

/-- A fresh block of zero bytes with an owner. -/
def allocate (m : Memory) (typeSize count : Nat) : Outcome (View × Memory) := do
  let size ← (totalSize typeSize count).outcome
  if m.heap.refuses (size + bufferAlign - 1) then refuse (.outOfMemory size)
  let (base, heap) := m.heap.obtain (size + bufferAlign - 1)
  let address ← orOverflow (placeBlock base)
  let owner : Owner := ⟨.allocation, address, size, true, false⟩
  return (View.ofParts address size typeSize (some (.owner m.owners.size)),
    { heap, owners := m.owners.push owner })

/-- The address of a buffer without bytes: no block is taken for it. -/
def emptyBufferAddress : Nat := 8

/-- A fresh block of zero bytes on the managed heap; it is never released early. -/
def allocateBuffer (m : Memory) (typeSize count : Nat) : Checked (View × Memory) := do
  let size ← totalSize typeSize count
  if size ≠ 0 ∧ m.heap.refuses (roundUp size 8) then throw (.outOfMemory size)
  let (address, heap) := if size = 0 then (emptyBufferAddress, m.heap) else m.heap.obtain size
  let owner : Owner := ⟨.buffer, address, size, true, false⟩
  return (View.ofParts address size typeSize (some (.owner m.owners.size)),
    { heap, owners := m.owners.push owner })

/-- A fresh block with the given bytes and a zero byte behind them. -/
def allocateBytes (m : Memory) (bytes : List UInt8) : Outcome (View × Memory) := do
  let (v, m) ← m.allocate 1 (bytes.length + 1)
  let m ← (m.writeBytes v 0 (bytes ++ [0])).outcome
  return (v, m)

/-- A change to one owner. -/
def modifyOwner (m : Memory) (id : Nat) (f : Owner → Owner) : Memory :=
  { m with owners := m.owners.modify id f }

end Memory

end ForeignCall
