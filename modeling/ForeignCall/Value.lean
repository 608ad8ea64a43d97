import ForeignCall.Binary.Decimal
import ForeignCall.Memory.View
import ForeignCall.Ty.Basic

/-!
# Managed values

What the managed side hands to native code and gets back. Values that are shared and change
(strings, closures, the callbacks that a struct keeps) are numbers here, positions in the tables of
the `World`; everything else stands in the value itself.
-/

namespace ForeignCall

/-- A struct: a layout over a view. The views of one struct and of the structs inside it share one
map of the callbacks they keep alive, `retention`. -/
structure Instance where
  layout : Layout
  view : View
  retention : Nat

namespace Instance

/-- Bytes of the struct. -/
def size (s : Instance) : Nat := s.layout.size

/-- The address of the struct. -/
def address (s : Instance) : Nat := s.view.address

end Instance

/-- A native function: a code address with the signature to call it by, and what keeps the code
alive, a callback or a library. -/
structure Function where
  address : Nat
  signature : Signature
  callback : Option Nat
  library : Option Nat

namespace Function

/-- A function at a bare address. -/
def atAddress (address : Nat) (signature : Signature) : Function := ⟨address, signature, none, none⟩

/-- The view at the code address; only a library is kept alive by it. -/
def view (f : Function) : View :=
  View.ofParts f.address unbounded 1 (f.library.map .library)

end Function

/-- A managed value. -/
inductive Value where
  | nil
  | bool (b : Bool)
  | int (i : Int)
  /-- A double, by its bits. -/
  | float (bits : UInt64)
  /-- A shared string, by its position in the table of strings. -/
  | str (id : Nat)
  | symbol (name : String)
  | pointer (view : View)
  | struct (s : Instance)
  | function (f : Function)
  /-- A closure, by its position in the table of closures. -/
  | proc (id : Nat)
  | array (items : List Value)
  /-- An object that answers with a value when it is asked for its address. -/
  | object (id : Nat) (answer : Except Fault Value)

namespace Value

/-- The name of the type of a value in messages. -/
def typeName : Value → String
  | .nil => "nil"
  | .bool _ => "bool"
  | .int _ => "integer"
  | .float _ => "float"
  | .str _ => "string"
  | .symbol _ => "symbol"
  | .pointer _ => "pointer"
  | .struct _ => "struct"
  | .function _ => "function"
  | .proc _ => "proc"
  | .array _ => "array"
  | .object .. => "object"

/-- The fault of a value where another type is needed. -/
def mismatch (v : Value) (expected : String) : Fault := .type expected v.typeName

/-! ## Conversions that need no memory -/

/-- The integer of a value. -/
def int? : Value → Option Int
  | .int i => some i
  | _ => none

/-- The double of a number; an integer is rounded to the nearest one. -/
def float? : Value → Option UInt64
  | .float bits => some bits
  | .int i => some (Binary.ofInt i)
  | _ => none

/-- The integer of a value that has to be one. -/
def expectInt (v : Value) : Checked Int :=
  match v with
  | .int i => .ok i
  | v => .error (v.mismatch "integer")

/-- An integer within the range of a kind. -/
def toInt (k : IntKind) (v : Value) : Checked Int :=
  match v with
  | .int i => if i < k.min ∨ k.max < i then .error (.range i k.name k.min k.max) else .ok i
  | v => .error (v.mismatch "integer")

/-- A double; an integer is rounded to the nearest one. -/
def toFloat (v : Value) : Checked UInt64 :=
  match v with
  | .float bits => .ok bits
  | .int i => .ok (Binary.ofInt i)
  | v => .error (v.mismatch "float")

/-- A truth value. -/
def toBool (v : Value) : Checked Bool :=
  match v with
  | .bool b => .ok b
  | v => .error (v.mismatch "bool")

/-- The address that an integer stands for: a negative one in two's complement. -/
def addressOfInt (i : Int) : Checked Nat :=
  if 0 ≤ i ∧ i < wordLimit then .ok i.toNat
  else if i < 0 ∧ -(signedLimit : Int) ≤ i then .ok (wordOfInt i)
  else .error (.range i "pointer" (-(signedLimit : Int)) ((wordLimit : Int) - 1))

/-- The address of a value that an object has answered with. -/
def answeredAddress : Value → Checked Nat
  | .nil => .ok 0
  | .pointer v => .ok v.address
  | .struct s => .ok s.address
  | other => .error (other.mismatch "pointer from to_ptr")

/-- The address of a value that stands for one; an object is asked once. -/
def toAddress (v : Value) : Checked Nat :=
  match v with
  | .nil => .ok 0
  | .int i => addressOfInt i
  | .pointer v => .ok v.address
  | .struct s => .ok s.address
  | .function f => .ok f.address
  | .object _ answer => do answeredAddress (← answer)
  | v => .error (v.mismatch "pointer")

/-- The value of an enumeration slot: a symbol of its own table or else of the tables at hand, or a
plain integer. -/
def toEnum (own : Option Enumeration) (tables : Option Enums) (v : Value) : Checked Int :=
  match v with
  | .symbol s =>
    match (own.bind fun e => e.find? s) <|> (tables.bind fun t => t.findValue? s) with
    | some i => .ok i
    | none => .error (.type "known enum symbol" s!":{s}")
  | v => v.toInt .int32

/-- The value that an enumeration's integer is shown as, if its table has it. -/
def ofEnum? (own : Option Enumeration) (i : Int) : Option Value :=
  (own.bind fun e => e.symbol? i).map .symbol

end Value

end ForeignCall
