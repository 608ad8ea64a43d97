import ForeignCall.Enumeration
import ForeignCall.Kind

/-!
# Native types

A native type is a builtin kind, or a composite one with its data: the layout of a struct, the
component of an inline array, the table of an enumeration, the signature of a function pointer.
Layouts hold fields that have types, and signatures hold parameter types, so the four are defined
together.

Sizes and alignments follow from the data: the size of an array is its component's times its
length, and a layout carries the size and alignment that its builder computed
(`ForeignCall.Layout.Builder`).
-/

namespace ForeignCall

/-- How a function is called; the two conventions are the same on this host. -/
inductive Convention where
  | default
  | stdcall
  deriving DecidableEq, Repr

mutual

/-- A native type. -/
inductive Ty where
  | builtin (kind : Builtin)
  /-- A struct or union passed or stored by value. -/
  | struct (layout : Layout)
  /-- `length` components one after another. -/
  | array (component : Ty) (length : Nat)
  /-- `length` characters. -/
  | charArray (length : Nat)
  | enumeration (table : Enumeration)
  | callback (signature : Signature)

/-- A named member of a layout. -/
structure Field where
  name : String
  offset : Nat
  ty : Ty

/--
The computed layout of a struct or union. `natural` says that the fields stand where the C rule for
the list of their types puts them.
-/
structure Layout where
  fields : List Field
  size : Nat
  alignment : Nat
  isUnion : Bool
  natural : Bool

/--
The signature of a native function. Its `id` is its identity: two signatures of the same shape are
different, and callbacks are kept by it. In a variadic signature the first `fixed` parameters are
the declared ones.
-/
structure Signature where
  id : Nat
  ret : Ty
  params : List Ty
  fixed : Option Nat
  convention : Convention
  enums : Option Enums
  blocking : Bool
  savesErrno : Bool

end

namespace Ty

/-- The tag of a type. -/
def kind : Ty → Kind
  | .builtin b => .builtin b
  | .struct _ => .struct
  | .array .. => .array
  | .charArray _ => .charArray
  | .enumeration _ => .enumeration
  | .callback _ => .callback

/-- Bytes of a value. -/
def size : Ty → Nat
  | .builtin b => b.size
  | .struct l => l.size
  | .array c n => c.size * n
  | .charArray n => n
  | .enumeration _ => 4
  | .callback _ => addressSize

/-- The alignment of a value. -/
def alignment : Ty → Nat
  | .builtin b => b.alignment
  | .struct l => l.alignment
  | .array c _ => c.alignment
  | .charArray _ => 1
  | .enumeration _ => 4
  | .callback _ => addressSize

/-- The type of one character of a character array. -/
def char : Ty := .builtin (.int ⟨true, .w8⟩)

/-- The C `int`. -/
def int32 : Ty := .builtin (.int .int32)

/-- The component and length of an inline array. -/
def arrayParts? : Ty → Option (Ty × Nat)
  | .array c n => some (c, n)
  | .charArray n => some (char, n)
  | _ => none

/-- The table of an enumeration. -/
def table? : Ty → Option Enumeration
  | .enumeration e => some e
  | _ => none

/-- The text of a type in messages and descriptions. -/
def describe (t : Ty) : String :=
  s!"Type({t.kind.name}, size={t.size}, align={t.alignment})"

end Ty

namespace Field

/-- Bytes of the field. -/
def size (f : Field) : Nat := f.ty.size

/-- The text of a field in descriptions. -/
def describe (f : Field) : String :=
  s!"{f.name}: {f.ty.kind.name} @{f.offset} ({f.size} bytes)"

end Field

/-! ## How a field is read and written -/

/-- The accessor of a field, chosen by its type. -/
inductive Accessor where
  | primitive
  | pointer
  | string
  | array
  | inlineStruct
  | enumeration
  | function
  deriving DecidableEq, Repr

namespace Accessor

/-- The name of an accessor. -/
def name : Accessor → String
  | .primitive => "Primitive"
  | .pointer => "Pointer"
  | .string => "String"
  | .array => "Array"
  | .inlineStruct => "InlineStruct"
  | .enumeration => "Enum"
  | .function => "Function"

/-- The accessor for a type; nothing is stored for `void` and `varargs`. -/
def ofTy? : Ty → Option Accessor
  | .builtin .void => none
  | .builtin .varargs => none
  | .builtin (.int _) => some .primitive
  | .builtin (.float _) => some .primitive
  | .builtin .bool => some .primitive
  | .builtin (.pointer _) => some .pointer
  | .builtin .string => some .string
  | .array .. => some .array
  | .charArray _ => some .array
  | .struct _ => some .inlineStruct
  | .enumeration _ => some .enumeration
  | .callback _ => some .function

end Accessor

namespace Layout

/-- The field of a name. -/
def field? (l : Layout) (name : String) : Option Field :=
  l.fields.find? fun f => f.name == name

/-- The names of the fields, in order of declaration. -/
def members (l : Layout) : List String := l.fields.map Field.name

/-- The text of a layout in descriptions. -/
def describe (l : Layout) : String :=
  let kind := if l.isUnion then "UnionLayout" else "StructLayout"
  let fields := ", ".intercalate (l.fields.map Field.describe)
  s!"{kind} \x7b size: {l.size}, alignment: {l.alignment}, fields: [{fields}] \x7d"

end Layout

end ForeignCall
