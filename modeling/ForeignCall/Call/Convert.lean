import ForeignCall.Abi.Passing
import ForeignCall.Layout.Lowering
import ForeignCall.Signature
import ForeignCall.Struct.Instance

/-!
# Converting arguments and results

The four conversions of a call. On the way out, a managed argument becomes what a parameter is
passed from (`Ty.toArgument`) and the bytes of a result become a managed value (`Ty.ofNative`). On
the way into a closure the bytes of its arguments become values, by `Ty.ofNative` too, and what it
returns becomes the bytes of a result (`Ty.toResult`).

Every conversion is checked, and all of them are made before native code runs. A struct is passed
where it stands: its bytes are read when the code is entered, after all conversions.
-/

namespace ForeignCall

open Abi

/-! ## Arguments -/

/-- Memory that is handed to native code must not have been released. -/
def ensureLive (v : View) : Act Unit :=
  Act.read fun m => if v.origin.any fun o => !m.isLive o then .error .freed else .ok ()

/-- The address of a string's own bytes, with the byte behind them made zero. -/
def pinString (id : Nat) : Act Nat := fun w =>
  match w.strings[id]? with
  | some s =>
    (.ok s.address,
      { w with memory := { w.memory with heap := w.memory.heap.store (s.address + s.length) [0] } })
  | none => (.ok 0, w)

/-- A copy of the bytes of a string with a zero byte behind it, for the time of a call. -/
def copyString (id : Nat) : Act Nat := do
  let bytes ← Act.view fun w => w.stringBytes id
  if bytes.contains 0 then Act.refuse (.argument "string contains an interior NUL byte")
  fun w =>
    let (address, w) := w.placeBytes (bytes ++ [0])
    (.ok address, w)

/-- The address of what an object has answered with. -/
def answeredArgument (answer : Value) : Act Nat :=
  match answer with
  | .nil => pure 0
  | .pointer v => do
    ensureLive v
    return v.address
  | .struct s => do
    ensureLive s.view
    return s.address
  | other => Act.refuse (other.mismatch "pointer from to_ptr")

/-- The address passed for a pointer parameter; a string is passed by its own bytes. -/
def pointerArgument (value : Value) : Act Nat :=
  match value with
  | .str id => pinString id
  | .pointer v => do
    ensureLive v
    return v.address
  | .struct s => do
    ensureLive s.view
    return s.address
  | .function f => pure f.address
  | .object _ answer => do
    let inner ← Act.ofChecked answer
    answeredArgument inner
  | .nil => pure 0
  | .int i => Act.ofChecked (Value.addressOfInt i)
  | other => Act.refuse (other.mismatch "pointer")

/-- The address passed for a string parameter: a copy, or null for nil. -/
def stringArgument (value : Value) : Act Nat :=
  match value with
  | .nil => pure 0
  | .str id => copyString id
  | other => Act.refuse (other.mismatch "string")

/-- The code address passed for a function pointer; a closure is compiled. -/
def callbackArgument (signature : Signature) (value : Value) : Act Nat :=
  match value with
  | .nil => pure 0
  | .function f => pure f.address
  | .pointer v => pure v.address
  | .proc closure => do
    let id ← makeCallback signature closure
    Act.view fun w => w.callbackAddress id
  | other => Act.refuse (other.mismatch "callback")

/-- What a parameter is passed from: bytes of its own, or the bytes that stand at an address when
the code is entered. -/
inductive Passed where
  | bytes (content : List UInt8)
  | region (address size : Nat)
  deriving DecidableEq, Repr

/-- The bytes that are passed, with memory as it is. -/
def Passed.load (heap : Heap) : Passed → List UInt8
  | .bytes content => content
  | .region address size => heap.load address size

/-- What is passed for a struct: its memory, which has to be readable. Size and alignment have to be
those of the parameter. -/
def structArgument (layout : Layout) (value : Value) : Act Passed :=
  match value with
  | .struct s =>
    if s.size = layout.size ∧ s.layout.alignment = layout.alignment then
      Act.read fun m => (fun address => .region address s.size) <$> m.check s.view 0 s.size .read
    else
      Act.refuse (.type s!"struct of size {layout.size} align {layout.alignment}"
        s!"struct of size {s.size} align {s.layout.alignment}")
  | other => Act.refuse (other.mismatch "struct")

/-- The bytes of an address. -/
def addressBytes (a : Nat) : List UInt8 := Bytes.ofNat addressSize a

/-- An address, passed by its bytes. -/
def Passed.address (a : Nat) : Passed := .bytes (addressBytes a)

/-- What is passed for a parameter of a type. A symbol is resolved with the tables at hand where
a C `int` is expected. -/
def Ty.toArgument (enums : Option Enums) (value : Value) : Ty → Act Passed
  | .builtin (.int k) =>
    match value with
    | .symbol _ =>
      if k = .int32 then do
        let i ← Act.ofChecked (value.toEnum none enums)
        return .bytes (Bytes.ofInt k.bytes i)
      else Act.refuse (value.mismatch "integer")
    | value => do
      let i ← Act.ofChecked (value.toInt k)
      return .bytes (Bytes.ofInt k.bytes i)
  | .builtin (.float k) => do
    let bits ← Act.ofChecked value.toFloat
    return .bytes (Bytes.ofNat k.bytes (k.ofDouble bits))
  | .builtin .bool => do
    let b ← Act.ofChecked value.toBool
    return .bytes (Bytes.ofInt 4 (if b then 1 else 0))
  | .builtin (.pointer _) => .address <$> pointerArgument value
  | .builtin .string => .address <$> stringArgument value
  | .enumeration table => do
    let i ← Act.ofChecked (value.toEnum (some table) enums)
    return .bytes (Bytes.ofInt 4 i)
  | .callback signature => .address <$> callbackArgument signature value
  | .struct layout => structArgument layout value
  | t => Act.refuse (.argument s!"{t.kind.name} cannot be passed as an argument")

/-- An operation on the argument at a position; its argument faults name the position. -/
def Act.atArgument {α : Type} (index : Nat) (a : Act α) : Act α := fun w =>
  match a w with
  | (.error (.fault f), w) => (.error (.fault (f.atArgument index)), w)
  | r => r

/-- The converted arguments of a call, each with the record it is passed by. -/
abbrev Frame : Type := List (Record × Passed)

/-- The arguments of a call, converted one after another. -/
def toArguments (enums : Option Enums) (arguments : List (Ty × Value)) : Act Frame :=
  arguments.zipIdx.mapM fun ((t, value), i) => do
    let passed ← (t.toArgument enums value).atArgument i
    return (t.record, passed)

/-- The bytes of a frame, with memory as it is. -/
def Frame.load (frame : Frame) (heap : Heap) : List (Record × List UInt8) :=
  frame.map fun (r, passed) => (r, passed.load heap)

/-! ## From native bytes -/

/-- The value of native bytes of a type. -/
def Ty.ofNative (bytes : List UInt8) : Ty → Act Value
  | .builtin .void => pure .nil
  | .builtin (.int k) => pure (.int (k.ofBits (Bytes.toNat (Bytes.fit k.bytes bytes))))
  | .builtin (.float k) => pure (.float (k.toDouble (Bytes.toNat (Bytes.fit k.bytes bytes))))
  | .builtin .bool => pure (.bool (Bytes.toNat (Bytes.fit 4 bytes) != 0))
  | .builtin (.pointer _) => pure (.pointer (.pointer (Bytes.toNat (Bytes.fit addressSize bytes))))
  | .builtin .string => Act.stringFrom (Bytes.toNat (Bytes.fit addressSize bytes))
  | .enumeration table =>
    let i := IntKind.int32.ofBits (Bytes.toNat (Bytes.fit 4 bytes))
    pure ((Value.ofEnum? (some table) i).getD (.int i))
  | .struct layout => Value.struct <$> Instance.ofBytes layout bytes
  | .callback signature =>
    let address := Bytes.toNat (Bytes.fit addressSize bytes)
    pure (if address = 0 then .nil else .function (.atAddress address signature))
  | t => Act.refuse (.argument s!"cannot convert native {t.kind.name} by value")

/-! ## Results of closures -/

/-- The bytes that a result of a type takes in its storage: a whole register for integers. -/
def Ty.resultSize : Ty → Nat
  | .builtin (.int _) => 8
  | .builtin .bool => 8
  | .enumeration _ => 8
  | t => t.size

/-- The bytes of an integer result, widened to a register. -/
def wideResult (i : Int) : List UInt8 := Bytes.ofInt 8 i

/-- The bytes of the result of a type. -/
def Ty.resultBytes (enums : Option Enums) (value : Value) : Ty → Act (List UInt8)
  | .builtin (.int k) =>
    match value with
    | .symbol _ =>
      if k = .int32 then wideResult <$> Act.ofChecked (value.toEnum none enums)
      else Act.refuse (value.mismatch "integer")
    | value => wideResult <$> Act.ofChecked (value.toInt k)
  | .enumeration table => wideResult <$> Act.ofChecked (value.toEnum (some table) enums)
  | .builtin .bool => (fun b => wideResult (if b then 1 else 0)) <$> Act.ofChecked value.toBool
  | .builtin (.float k) =>
    (fun bits => Bytes.ofNat k.bytes (k.ofDouble bits)) <$> Act.ofChecked value.toFloat
  | .builtin (.pointer _) => addressBytes <$> Act.ofChecked value.toAddress
  | .builtin .string =>
    match value with
    | .str _ => Act.refuse (.type "nil or pointer for string return" "string")
    | value => addressBytes <$> Act.ofChecked value.toAddress
  | .callback _ =>
    match value with
    | .function f => pure (addressBytes f.address)
    | .pointer v => pure (addressBytes v.address)
    | other => Act.refuse (other.mismatch "native function for callback return")
  | .struct layout =>
    match value with
    | .struct s =>
      if s.size = layout.size then s.bytes
      else Act.refuse (value.mismatch s!"struct of {layout.size} bytes")
    | other => Act.refuse (other.mismatch s!"struct of {layout.size} bytes")
  | t => Act.refuse (.argument s!"cannot return {t.kind.name} from a callback")

/-- The storage of a result after a value of a type has been written: nothing for `void`, zeros for
nil. -/
def Ty.toResult (enums : Option Enums) (t : Ty) (value : Value) (storage : List UInt8) :
    Act (List UInt8) :=
  match t, value with
  | .builtin .void, _ => pure storage
  | t, .nil => pure (Bytes.overwrite storage (Bytes.zeros t.resultSize))
  | t, value => Bytes.overwrite storage <$> t.resultBytes enums value

end ForeignCall
