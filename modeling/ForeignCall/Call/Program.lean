import ForeignCall.Abi.Passing
import ForeignCall.Call.Variadic

/-!
# Code on either side

A native function is a program over native memory that may enter code at an address (`Native`), and
the body of a closure is a program over the world that may make calls (`Managed`). Both are
trees of steps; `ForeignCall.Call.Run` runs them. Which code stands at which address, and which body
belongs to which closure, is the `Environment`.
-/

namespace ForeignCall

open Abi

/-! ## Native code -/

/-- What native code does, once it has its arguments. -/
inductive Native where
  /-- It returns the bytes of its result. -/
  | finish (result : List UInt8)
  /-- It looks at memory. -/
  | look (next : Heap → Native)
  /-- It stores bytes. -/
  | store (address : Nat) (bytes : List UInt8) (next : Native)
  /-- It looks at the error number that the system has for its thread. -/
  | readErrno (next : Int → Native)
  /-- It sets the error number that the system has for its thread. -/
  | setErrno (code : Int) (next : Native)
  /-- It reports what it has collected. -/
  | report (name : String) (items : Option (List Collected)) (next : Native)
  /-- It enters code at an address, and goes on with the bytes of the result. -/
  | enter (address : Nat) (result : Record) (arguments : List (Record × List UInt8))
      (next : List UInt8 → Native)
  /-- It waits until the byte at an address is not zero. -/
  | wait (address : Nat) (next : Native)

/-- A native function: the record of its result, those of its fixed parameters, and what it does
with their bytes and with the arguments behind them. -/
structure NativeFunction where
  result : Record
  parameters : List Record
  body : List (List UInt8) → Cursor → Native

/-! ## Closure bodies -/

/-- A call that the body of a closure makes. -/
inductive FurtherCall where
  /-- Of a function, perhaps with a block and with an interrupt to watch. -/
  | function (function : Function) (arguments : List Value) (block interrupt : Option Nat)
  /-- Of a variadic function, with further arguments. -/
  | variadic (function : VariadicFunction) (arguments : List Value)
      (extra : List (TypeSpec × Value))

/-- What the body of a closure does, once it has its arguments. -/
inductive Managed : Type 1 where
  /-- It returns a value, fails, or gives up. -/
  | finish (outcome : Outcome Value)
  /-- It acts on the world. -/
  | act {α : Type} (action : Act α) (next : Outcome α → Managed)
  /-- It looks at the error numbers of its thread, the saved one and that of the system. -/
  | readErrno (next : Int → Int → Managed)
  /-- It sets both error numbers of its thread. -/
  | setErrno (code : Int) (next : Managed)
  /-- It makes a call. -/
  | call (further : FurtherCall) (next : Outcome Value → Managed)

namespace Managed

/-- The body that acts once and returns what that gives. -/
def ofAct (action : Act Value) : Managed := .act action .finish

/-- The body that calls a function without a block. -/
def callFunction (function : Function) (arguments : List Value) (next : Outcome Value → Managed) :
    Managed := .call (.function function arguments none none) next

end Managed

/-- The code that calls find. -/
structure Environment where
  /-- The native function at an address. -/
  native : Nat → Option NativeFunction
  /-- The body of a closure. -/
  body : Nat → List Value → Managed
  /-- The record of the result that the call interface of a signature has, by the identity of the
  signature; nothing when the signature has been given back. -/
  interface : Nat → Option Record := fun _ => none

end ForeignCall
