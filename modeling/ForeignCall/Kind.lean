import ForeignCall.Bytes
import ForeignCall.Platform

/-!
# Native kinds

The tags of native types. Eighteen of the kinds are builtin: they need no further data and each
has one shared descriptor. The other five are composite: an inline character array, a struct by
value, an inline array, an enumeration and a function pointer.

The eight integer kinds are one constructor over a width and a sign, so that what holds of integers
is said once.
-/

namespace ForeignCall

/-! ## Integers and floats -/

/-- The width of an integer. -/
inductive Width where
  | w8
  | w16
  | w32
  | w64
  deriving DecidableEq, Repr

/-- The width in bytes. -/
def Width.bytes : Width → Nat
  | .w8 => 1
  | .w16 => 2
  | .w32 => 4
  | .w64 => 8

/-- The number of values of a width. -/
def Width.modulus : Width → Nat
  | .w8 => 256
  | .w16 => 65536
  | .w32 => 4294967296
  | .w64 => 18446744073709551616

theorem Width.modulus_eq (w : Width) : w.modulus = Bytes.limit w.bytes := by cases w <;> decide

theorem Width.bytes_pos (w : Width) : 0 < w.bytes := by cases w <;> decide

theorem Width.bytes_le (w : Width) : w.bytes ≤ 8 := by cases w <;> decide

/-- An integer kind: a width and whether it has a sign. -/
structure IntKind where
  signed : Bool
  width : Width
  deriving DecidableEq, Repr

namespace IntKind

/-- Bytes of an integer. -/
def bytes (k : IntKind) : Nat := k.width.bytes

/-- The name of an integer kind. -/
def name (k : IntKind) : String :=
  match k.signed, k.width with
  | true, .w8 => "int8"
  | false, .w8 => "uint8"
  | true, .w16 => "int16"
  | false, .w16 => "uint16"
  | true, .w32 => "int32"
  | false, .w32 => "uint32"
  | true, .w64 => "int64"
  | false, .w64 => "uint64"

/-- The number of values of the kind. -/
def modulus (k : IntKind) : Nat := k.width.modulus

/-- The least value. -/
def min (k : IntKind) : Int := if k.signed then -((k.modulus / 2 : Nat) : Int) else 0

/-- The greatest value. -/
def max (k : IntKind) : Int :=
  if k.signed then ((k.modulus / 2 : Nat) : Int) - 1 else (k.modulus : Int) - 1

/-- The integer that a bit pattern stands for. -/
def ofBits (k : IntKind) (bits : Nat) : Int :=
  if k.signed ∧ k.modulus / 2 ≤ bits then (bits : Int) - (k.modulus : Int) else bits

/-- The bit pattern of an integer, its high bits dropped. -/
def toBits (k : IntKind) (i : Int) : Nat := (i % (k.modulus : Int)).toNat

/-- An integer that the kind can hold has a bit pattern that stands for it. -/
theorem ofBits_toBits (k : IntKind) (i : Int) (h : k.min ≤ i ∧ i ≤ k.max) :
    k.ofBits (k.toBits i) = i := by
  obtain ⟨signed, width⟩ := k
  cases signed <;> cases width <;>
    simp [ofBits, toBits, min, max, modulus, Width.modulus] at * <;> omega

/-- The kind of a C `int`. -/
def int32 : IntKind := ⟨true, .w32⟩

/-- The kind of a signed 64-bit integer. -/
def int64 : IntKind := ⟨true, .w64⟩

/-- The kind of an unsigned 64-bit integer, and of an address. -/
def uint64 : IntKind := ⟨false, .w64⟩

end IntKind

/-- A floating-point kind. -/
inductive FloatKind where
  | float32
  | float64
  deriving DecidableEq, Repr

/-- Bytes of a floating-point number. -/
def FloatKind.bytes : FloatKind → Nat
  | .float32 => 4
  | .float64 => 8

/-- The name of a floating-point kind. -/
def FloatKind.name : FloatKind → String
  | .float32 => "float32"
  | .float64 => "float64"

/-! ## Builtin kinds -/

/-- What an address parameter is declared for; every role passes the same address. -/
inductive PointerRole where
  | plain
  | bufferIn
  | bufferOut
  | bufferInOut
  deriving DecidableEq, Repr

/-- The kinds that need no further data. -/
inductive Builtin where
  | void
  | int (kind : IntKind)
  | float (kind : FloatKind)
  | pointer (role : PointerRole)
  /-- A truth value, stored as a C `int`. -/
  | bool
  /-- A NUL-terminated string, stored as its address. -/
  | string
  /-- The mark of a variable argument list. -/
  | varargs
  deriving DecidableEq, Repr

namespace Builtin

/-- The name in the registry of types. -/
def name : Builtin → String
  | .void => "void"
  | .int k => k.name
  | .float k => k.name
  | .pointer .plain => "pointer"
  | .pointer .bufferIn => "buffer_in"
  | .pointer .bufferOut => "buffer_out"
  | .pointer .bufferInOut => "buffer_inout"
  | .bool => "bool"
  | .string => "string"
  | .varargs => "varargs"

/-- Bytes of a value; nothing is stored for `void` and `varargs`. -/
def size : Builtin → Nat
  | .void => 0
  | .varargs => 0
  | .int k => k.bytes
  | .float k => k.bytes
  | .bool => 4
  | .pointer _ => addressSize
  | .string => addressSize

/-- The natural alignment: the size, and 1 where nothing is stored. -/
def alignment : Builtin → Nat
  | .void => 1
  | .varargs => 1
  | b => b.size

/-- Every builtin kind, in the order of their indices. -/
def all : List Builtin :=
  [.void, .int ⟨true, .w8⟩, .int ⟨false, .w8⟩, .int ⟨true, .w16⟩, .int ⟨false, .w16⟩,
    .int ⟨true, .w32⟩, .int ⟨false, .w32⟩, .int ⟨true, .w64⟩, .int ⟨false, .w64⟩,
    .float .float32, .float .float64, .pointer .plain, .bool, .string,
    .pointer .bufferIn, .pointer .bufferOut, .pointer .bufferInOut, .varargs]

theorem mem_all (b : Builtin) : b ∈ all := by
  rcases b with _ | ⟨_ | _, _ | _ | _ | _⟩ | (_ | _) | (_ | _ | _ | _) | _ | _ | _ <;> decide

theorem alignment_pos (b : Builtin) : 0 < b.alignment := by
  have h : ∀ c ∈ all, 0 < c.alignment := by decide
  exact h b (mem_all b)

end Builtin

/-! ## Kinds -/

/-- The tag of a native type. -/
inductive Kind where
  | builtin (builtin : Builtin)
  /-- An inline array of characters. -/
  | charArray
  /-- A struct or union by value. -/
  | struct
  /-- An inline array. -/
  | array
  /-- An enumeration, stored as a C `int`. -/
  | enumeration
  /-- A function pointer with a known signature. -/
  | callback
  deriving DecidableEq, Repr

namespace Kind

/-- The canonical name. -/
def name : Kind → String
  | .builtin b => b.name
  | .charArray => "char_array"
  | .struct => "struct"
  | .array => "array"
  | .enumeration => "enum"
  | .callback => "callback"

/-- Every kind, in the order of their indices. -/
def all : List Kind :=
  (Builtin.all.take 17).map .builtin ++ [.charArray, .builtin .varargs, .struct, .array,
    .enumeration, .callback]

/-- The position of a kind in the list of all kinds. -/
def index (k : Kind) : Nat := all.idxOf k

/-- The kind of a canonical name. -/
def ofName? (name : String) : Option Kind := all.find? fun k => k.name == name

/-- Whether the kind is one of the eight integer kinds. -/
def isInteger : Kind → Bool
  | .builtin (.int _) => true
  | _ => false

/-- Whether the kind is one of the two floating-point kinds. -/
def isFloat : Kind → Bool
  | .builtin (.float _) => true
  | _ => false

/-- Whether native code receives the kind as a plain address. -/
def isPointerLike : Kind → Bool
  | .builtin (.pointer _) => true
  | .builtin .string => true
  | _ => false

/-- Whether the kind needs no further data. -/
def isBuiltin : Kind → Bool
  | .builtin _ => true
  | _ => false

/-- Whether the kind is a signed integer; an enumeration counts as one. -/
def isSigned : Kind → Bool
  | .builtin (.int k) => k.signed
  | .enumeration => true
  | _ => false

/-- The integer kind that stores a kind of number: its own, and a C `int` for an enumeration. -/
def asInteger? : Kind → Option IntKind
  | .builtin (.int k) => some k
  | .enumeration => some .int32
  | _ => none

/-- The least and greatest value of an integer kind. -/
def range? (k : Kind) : Option (Int × Int) :=
  k.asInteger?.map fun i => (i.min, i.max)

end Kind

end ForeignCall
