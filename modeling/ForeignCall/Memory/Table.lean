import ForeignCall.World

/-!
# Values in memory

Reading and writing a managed value of a builtin kind. A value is converted before anything is
written. Composite kinds have no entry here: their bytes are reached through a struct.
-/

namespace ForeignCall

/-- The fault of a kind that is not read or written by itself. -/
def noAccessor (k : Kind) : Fault := .argument s!"no memory accessor for type {k.name}"

/-- The double of a float of a kind in memory. -/
def FloatKind.toDouble (k : FloatKind) (bits : Nat) : UInt64 :=
  match k with
  | .float32 => Binary.widen (UInt32.ofNat bits)
  | .float64 => UInt64.ofNat bits

/-- The bit pattern of a double as a float of a kind. -/
def FloatKind.ofDouble (k : FloatKind) (bits : UInt64) : Nat :=
  match k with
  | .float32 => (Binary.narrow bits).toNat
  | .float64 => bits.toNat

/-- The value of a kind at an offset. -/
def View.get (v : View) (kind : Kind) (offset : Nat) : Act Value :=
  match kind with
  | .builtin (.int k) => do
    let i ← Act.read fun m => m.readInt v offset k
    return .int i
  | .builtin (.float k) => do
    let bits ← Act.read fun m => m.readBits v offset k.bytes
    return .float (k.toDouble bits)
  | .builtin .bool => do
    let i ← Act.read fun m => m.readInt v offset .int32
    return .bool (i != 0)
  | .builtin (.pointer _) => do
    let p ← Act.read fun m => m.readPointer v offset
    return .pointer p
  | .builtin .string => do
    let address ← Act.read fun m => m.readAddress v offset
    Act.stringFrom address
  | k => Act.refuse (noAccessor k)

/-- A value of a kind written at an offset. -/
def View.put (v : View) (kind : Kind) (offset : Nat) (value : Value) : Act Unit :=
  match kind with
  | .builtin (.int k) => do
    let i ← Act.ofChecked (value.toInt k)
    Act.write fun m => m.writeInt v offset k i
  | .builtin (.float k) => do
    let bits ← Act.ofChecked value.toFloat
    Act.write fun m => m.writeBits v offset k.bytes (k.ofDouble bits)
  | .builtin .bool => do
    let b ← Act.ofChecked value.toBool
    Act.write fun m => m.writeInt v offset .int32 (if b then 1 else 0)
  | .builtin (.pointer _) => do
    let address ← Act.ofChecked value.toAddress
    Act.write fun m => m.writeAddress v offset address
  | .builtin .string =>
    match value with
    | .str _ => Act.refuse (.type "nil or pointer" "string")
    | value => do
      let address ← Act.ofChecked value.toAddress
      Act.write fun m => m.writeAddress v offset address
  | k => Act.refuse (noAccessor k)

/-- The addresses of values written one after another. -/
def View.putPointers (v : View) (offset : Nat) (values : List Value) : Act Unit := do
  let addresses ← Act.ofChecked (values.mapM Value.toAddress)
  Act.write fun m => m.writeBitsArray v offset addressSize addresses

end ForeignCall
