import ForeignCall.Call.Variadic
import ForeignCall.Library
import ForeignCall.Struct.Instance
import ForeignCall.Text.Quoted

/-!
# Descriptions

How memory, functions and values are shown. A description is text with holes: addresses and closures
stand in it by themselves, so that whoever prints it decides how they are written.
-/

namespace ForeignCall

/-- A piece of a description. -/
inductive Piece where
  | text (s : String)
  | address (a : Nat)
  | closure (id : Nat)

/-- A description. -/
abbrev Description : Type := List Piece

namespace Description

/-- Descriptions one after another, with a text between them. -/
def join (separator : String) : List Description → Description
  | [] => []
  | [d] => d
  | d :: rest => d ++ .text separator :: join separator rest

end Description

/-- The description of a view; a size is shown where it is known. -/
def View.describe (v : View) : Description :=
  [.text "Memory(address=", .address v.address,
    .text (if v.isUnbounded then ")" else s!", size={v.size})")]

/-- The description of an owned buffer. -/
def View.describeOwned (v : View) (allocated : Bool) : Description :=
  [.text "MemoryPointer(address=", .address v.address,
    .text s!", size={v.size}, allocated={allocated})"]

/-- The description of a lent buffer. -/
def View.describeLent (v : View) (direction : Direction) : Description :=
  [.text "Buffer \x7b memory: "] ++ v.describe ++ [.text s!", direction: {direction.name} \x7d"]

/-- The description of code with its signature. -/
def describeCode (what : String) (address : Nat) (signature : Signature) : Description :=
  [.text s!"{what}(", .address address, .text s!" {signature.describe})"]

/-- The description of a function. -/
def Function.describe (f : Function) : Description :=
  describeCode "Function" f.address f.signature

/-- The description of a callback. -/
def World.describeCallback (w : World) (id : Nat) : Description :=
  match w.callbacks[id]? with
  | some c => describeCode "NativeCallback" (w.callbackAddress id) c.signature
  | none => []

/-- The description of a struct. -/
def Instance.describe (s : Instance) : Description :=
  [.text "Struct(address=", .address s.address, .text s!", size={s.size})"]

/-- The description of an inline array. -/
def InlineArray.describe (a : InlineArray) : Description :=
  [.text s!"StructArray({a.component.kind.name}[{a.length}] @", .address a.address, .text ")"]

/-- The description of a symbol. -/
def ExportedSymbol.describe (s : ExportedSymbol) : Description :=
  [.text s!"Symbol({s.name} @ ", .address s.address, .text ")"]

mutual
/-- The description of a value. -/
def Value.describe (w : World) : Value → Description
  | .nil => [.text "nil"]
  | .bool b => [.text s!"{b}"]
  | .int i => [.text s!"{i}"]
  | .float bits => [.text (Binary.describe bits)]
  | .str id => [.text (Text.quote (Utf8.lossy (w.stringBytes id)))]
  | .symbol name => [.text s!":{name}"]
  | .pointer v => v.describe
  | .struct s => s.describe
  | .function f => f.describe
  | .proc id => [.text "Proc#", .closure id]
  | .array items => [.text "["] ++ Description.join ", " (Value.describeAll w items) ++ [.text "]"]
  | .object .. => [.text "#<object>"]

/-- The descriptions of values. -/
def Value.describeAll (w : World) : List Value → List Description
  | [] => []
  | v :: vs => Value.describe w v :: Value.describeAll w vs
end

end ForeignCall
