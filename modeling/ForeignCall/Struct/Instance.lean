import ForeignCall.Struct.Field

/-!
# Structs and their inline arrays

A struct is a layout over a view. It is made in fresh owned memory, laid over memory that is
there, or found inside another struct. An `InlineArray` is the live view of an array field.
-/

namespace ForeignCall

/-! ## Structs -/

namespace Instance

/-- A fresh map of kept callbacks. -/
def newRetention : Act Nat := fun w =>
  (.ok w.retentions.size, { w with retentions := w.retentions.push [] })

/-- A fresh struct of zero bytes in owned memory. -/
def make (layout : Layout) : Act Instance := do
  let view ← Act.make fun m => m.allocate 1 layout.size
  let retention ← newRetention
  return ⟨layout, view, retention⟩

/-- A layout over memory that is there. -/
def overlay (layout : Layout) (view : View) : Act Instance := do
  if view.isNull then Act.refuse (.nullPointer (some "struct memory"))
  if view.size < layout.size then Act.refuse (.bounds 0 layout.size view.size)
  let retention ← newRetention
  return ⟨layout, view, retention⟩

/-- A fresh struct with the given bytes. -/
def ofBytes (layout : Layout) (bytes : List UInt8) : Act Instance := do
  let s ← make layout
  Act.write fun m => m.writeBytes s.view 0 (Bytes.fit layout.size bytes)
  return s

/-- The field of a name. -/
def field (s : Instance) (name : String) : Act Field :=
  match s.layout.field? name with
  | some f => pure f
  | none => Act.refuse (.argument s!"no such field '{name}'")

/-- The value of a field. -/
def getField (s : Instance) (f : Field) : Act Value :=
  f.ty.getField s.view s.retention f.name f.offset

/-- The value of the field of a name. -/
def get (s : Instance) (name : String) : Act Value := do
  s.getField (← s.field name)

/-- A value stored in the field of a name. -/
def put (s : Instance) (name : String) (value : Value) : Act Unit := do
  let f ← s.field name
  f.ty.putField s.view s.retention f.offset value

/-- The values of all fields, in order of declaration. -/
def values (s : Instance) : Act (List Value) := s.layout.fields.mapM s.getField

/-- The bytes of the struct. -/
def bytes (s : Instance) : Act (List UInt8) := Act.read fun m => m.readBytes s.view 0 s.size

/-- Every byte of the struct made zero, and the callbacks kept for its own bytes given up. -/
def clear (s : Instance) : Act Unit := do
  let whole ← Act.ofOutcome (s.view.slice 0 s.size)
  Act.write fun m => m.clear whole
  let stop ← Act.ofOutcome (orOverflow (addWords s.address s.size))
  let inside (e : Nat × Nat) : Bool := s.address ≤ e.1 && e.1 < stop
  let kept ← Act.view fun w => w.retentions[s.retention]?.getD []
  Act.modify fun w => { w with
    retentions := w.retentions.modify s.retention fun r => r.filter fun e => !inside e }
  Act.give ((kept.filter inside).map fun e => Ref.callback e.2)

/-- The number of callbacks that the struct keeps alive. -/
def retained (s : Instance) (w : World) : Nat := (w.retentions[s.retention]?.getD []).length

end Instance

/-! ## Inline arrays -/

/-- The live view of an array field. An index is checked against the memory alone. -/
structure InlineArray where
  view : View
  offset : Nat
  component : Ty
  length : Nat
  isChars : Bool
  retention : Nat

namespace InlineArray

/-- The array field of a name. -/
def ofField (s : Instance) (name : String) : Act InlineArray := do
  let f ← s.field name
  match f.ty.arrayParts? with
  | some (component, length) =>
    let isChars := match f.ty with | .charArray _ => true | _ => false
    return ⟨s.view, f.offset, component, length, isChars, s.retention⟩
  | none => Act.refuse (.runtime s!"field '{f.name}' is not an array")

/-- The value of an element. -/
def get (a : InlineArray) (index : Nat) : Act Value := do
  let o ← Act.ofChecked (elementOffset a.view a.offset a.component index)
  a.component.getField a.view a.retention (elementName index) o

/-- A value stored in an element. -/
def put (a : InlineArray) (index : Nat) (value : Value) : Act Unit := do
  let o ← Act.ofChecked (elementOffset a.view a.offset a.component index)
  a.component.putField a.view a.retention o value

/-- The values of all elements. -/
def values (a : InlineArray) : Act (List Value) := (List.range a.length).mapM a.get

/-- The bytes of the whole array. -/
def bytes (a : InlineArray) : Act (List UInt8) :=
  Act.read fun m => m.readBytes a.view a.offset (a.component.size * a.length)

/-- The text of a character array up to its first zero byte. -/
def text (a : InlineArray) : Act String :=
  if a.isChars then do
    let bytes ← Act.read fun m => m.readString a.view a.offset (some a.length)
    return Utf8.lossy bytes
  else Act.refuse (.type "char array" a.component.kind.name)

/-- The address of the first element. -/
def address (a : InlineArray) : Nat := wrap (a.view.address + a.offset)

end InlineArray

end ForeignCall
