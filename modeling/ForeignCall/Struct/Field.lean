import ForeignCall.Callback.Compile
import ForeignCall.Memory.Table

/-!
# Fields of structs

Reading and writing a field of any type inside a view. Arrays are read and written element by
element, each element as a field of its own; a whole array is first put together in a scratch
buffer, so that an element that cannot be written leaves the array as it was. A callback stored in
a field is kept alive by the map of the struct, under the address of the field.
-/

namespace ForeignCall

/-! ## Callbacks that a struct keeps -/

namespace Retention

/-- The callback kept for an address. -/
def find? (r : Retention) (address : Nat) : Option Nat := List.lookup address r

/-- The map with what is kept for an address replaced, or removed. -/
def set (r : Retention) (address : Nat) (callback : Option Nat) : Retention :=
  let others := List.filter (fun e => e.1 != address) r
  match callback with
  | some id => others ++ [(address, id)]
  | none => others

end Retention

/-- The map of a struct after a field has been written: what the field kept before is given up. -/
def retain (retention address : Nat) (callback : Option Nat) : Act Unit := do
  let before ← Act.view fun w => (w.retentions[retention]?.bind fun r => r.find? address)
  Act.modify fun w =>
    { w with retentions := w.retentions.modify retention fun r => r.set address callback }
  Act.give (before.toList.map Ref.callback)

/-! ## Elements of arrays -/

/-- The offset of an element of an array field. -/
def elementOffset (v : View) (offset : Nat) (component : Ty) (index : Nat) : Checked Nat :=
  match (mulWords index component.size).bind fun o => addWords o offset with
  | some o => .ok o
  | none => .error (.bounds (signedLimit - 1 : Nat) component.size v.size)

/-- The name of an element as a field. -/
def elementName (index : Nat) : String := s!"[{index}]"

/-! ## Reading -/

/-- The value of a field of a type, at an offset of a view. -/
def Ty.getField (v : View) (retention : Nat) (name : String) (offset : Nat) : Ty → Act Value
  | .builtin .string => do
    let address ← Act.read fun m => m.readAddress v offset
    Act.stringFrom address
  | .builtin b => v.get (.builtin b) offset
  | .array component length => do
    let items ← (List.range length).mapM fun i => do
      let o ← Act.ofChecked (elementOffset v offset component i)
      component.getField v retention (elementName i) o
    return .array items
  | .charArray length => do
    let bytes ← Act.read fun m => m.readString v offset (some length)
    Act.string bytes
  | .struct layout => do
    let view ← Act.ofOutcome (v.slice offset layout.size)
    return .struct ⟨layout, view, retention⟩
  | .enumeration table => do
    let i ← Act.read fun m => m.readInt v offset .int32
    match Value.ofEnum? (some table) i with
    | some value => return value
    | none => Act.refuse (.argument s!"invalid enum value {i} in field '{name}'")
  | .callback signature => do
    let address ← Act.read fun m => m.readAddress v offset
    return if address = 0 then .nil else .function (.atAddress address signature)

/-! ## Writing -/

/-- A function pointer stored in a field. -/
def putFunction (v : View) (retention offset : Nat) (signature : Signature) (value : Value) :
    Act Unit := do
  let (address, callback) ← match value with
    | .proc closure => do
      let id ← makeCallback signature closure
      let address ← Act.view fun w => w.callbackAddress id
      pure (address, some id)
    | .function f => pure (f.address, f.callback)
    | other => do
      let address ← Act.ofChecked other.toAddress
      pure (address, none)
  Act.write fun m => m.writeAddress v offset address
  retain retention (wrap (v.address + offset)) callback

/-- A struct copied into a field; size and alignment have to be those of the field. -/
def putStruct (v : View) (offset : Nat) (layout : Layout) (value : Value) : Act Unit :=
  match value with
  | .struct s =>
    if s.size = layout.size ∧ s.layout.alignment = layout.alignment then
      Act.write fun m => m.copy v offset s.view layout.size
    else
      Act.refuse (.type s!"struct of size {layout.size} align {layout.alignment}"
        s!"struct of size {s.size} align {s.layout.alignment}")
  | other => Act.refuse (other.mismatch s!"struct of {layout.size} bytes")

/-- A scratch buffer with the bytes of a field. -/
def stage (v : View) (offset size : Nat) : Act View := do
  let staged ← Act.make fun m => (m.allocateBuffer 1 size).outcome
  let field ← Act.ofOutcome (v.slice offset size)
  Act.write fun m => m.copy staged 0 field size
  return staged

/-- An array is written by changing a staged copy of its bytes and then copying them back. -/
def putStaged (v : View) (offset size : Nat) (fill : View → Act Unit) : Act Unit := do
  let staged ← stage v offset size
  fill staged
  Act.write fun m => m.copy v offset staged size

/-- The items of a value for an array of a length, written one by one. -/
def putItems (length : Nat) (putItem : Nat → Value → Act Unit) (value : Value) : Act Unit :=
  match value with
  | .array items => do
    if length < items.length then
      Act.refuse (.argument s!"{items.length} elements do not fit array of {length}")
    items.zipIdx.forM fun (item, i) => putItem i item
  | other => Act.refuse (other.mismatch "array")

/-- The bytes of a string for a character array of a length, over zero bytes. -/
def putChars (staged : View) (length string : Nat) : Act Unit := do
  let bytes ← Act.view fun w => w.stringBytes string
  if length < bytes.length then
    Act.refuse (.argument s!"string of {bytes.length} bytes does not fit char[{length}]")
  Act.write fun m => m.clear staged
  Act.write fun m => m.writeBytes staged 0 bytes

/-- A value stored in a field of a type, at an offset of a view. -/
def Ty.putField (v : View) (retention offset : Nat) (value : Value) : Ty → Act Unit
  | .builtin .string =>
    match value with
    | .str _ => Act.refuse (.type "nil or pointer for string field" "string")
    | other => do
      let address ← Act.ofChecked other.toAddress
      Act.write fun m => m.writeAddress v offset address
  | .builtin b => v.put (.builtin b) offset value
  | .array component length =>
    putStaged v offset (component.size * length) fun staged =>
      putItems length (fun i item => do
        let o ← Act.ofChecked (elementOffset staged 0 component i)
        component.putField staged retention o item) value
  | .charArray length =>
    putStaged v offset length fun staged =>
      match value with
      | .str id => putChars staged length id
      | value => putItems length (fun i item => staged.put Ty.char.kind i item) value
  | .struct layout => putStruct v offset layout value
  | .enumeration table => do
    let i ← Act.ofChecked (value.toEnum (some table) none)
    Act.write fun m => m.writeInt v offset .int32 i
  | .callback signature => putFunction v retention offset signature value

end ForeignCall
