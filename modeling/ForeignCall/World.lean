import ForeignCall.Callback.Pool
import ForeignCall.Memory.CString
import ForeignCall.Value

/-!
# The world that calls act on

Native memory, the tables of shared managed things, the pool of trampolines, and the record of what
has happened. An `Act` is an operation on the world that may fail; what it changed before failing
stays changed.

Strings live in native memory, so that native code that is handed one writes into it.
-/

namespace ForeignCall

/-! ## Shared things -/

/-- A managed string: where its bytes are, and how many. A zero byte has room behind them. -/
structure ManagedString where
  address : Nat
  length : Nat
  deriving DecidableEq, Repr

/-- A callback: a bound slot with its code address, which never changes, the signature it was
compiled for, and the closure it enters. -/
structure Callback where
  slot : Nat
  code : Nat
  signature : Signature
  closure : Nat

/-- What a callback was compiled for. -/
def Callback.key (c : Callback) : CallbackKey := (c.closure, c.signature.id)

/-- A closure, with the values that its body has captured and the callbacks compiled for it, one per
signature, oldest first. -/
structure Closure where
  label : String
  captured : List Value
  compiled : List Nat

/-- A request to end a blocking call: whether it was made, and the byte that is set to 1 when the
call is to be unblocked. -/
structure Interrupt where
  label : String
  requested : Bool
  unblock : Option (View × Nat)

/-- The callbacks that a struct keeps alive, by the address of the field they are stored in. -/
abbrev Retention := List (Nat × Nat)

/-! ## References -/

/-- Something that lives as long as it is held. -/
inductive Ref where
  | owner (id : Nat)
  | library (id : Nat)
  | callback (id : Nat)
  /-- A closure with its compiled callbacks. -/
  | proc (id : Nat)
  /-- What the body of a closure has captured. -/
  | body (id : Nat)
  | retention (id : Nat)
  deriving DecidableEq, Repr

/-- The reference that a view holds. -/
def Origin.ref : Origin → Ref
  | .owner id => .owner id
  | .callback id => .callback id
  | .library id => .library id

/-- The reference that a view holds, if any. -/
def View.refs (v : View) : List Ref := v.origin.toList.map Origin.ref

/-- The references that a struct holds. -/
def Instance.refs (s : Instance) : List Ref := s.view.refs ++ [.retention s.retention]

/-- The references that a function holds. -/
def Function.refs (f : Function) : List Ref :=
  f.callback.toList.map .callback ++ f.library.toList.map .library

/-- The references that a value holds. -/
def Value.refs : Value → List Ref
  | .pointer v => v.refs
  | .struct s => s.refs
  | .function f => f.refs
  | .proc id => [.proc id]
  | .array items => items.flatMap Value.refs
  | .object _ (.ok v) => v.refs
  | _ => []

/-! ## Events -/

/-- An argument that a native function has collected. -/
inductive Collected where
  | int (i : Int)
  | float (bits : UInt64)
  | address (a : Nat)
  | text (bytes : Option (List UInt8))

/-- Something that happened during a call. -/
inductive Event where
  /-- A closure was entered. -/
  | entered (closure : Nat) (arguments : List Value)
  /-- A native function reported, with what it had collected. -/
  | reported (name : String) (items : Option (List Collected))
  /-- The release function of foreign memory ran. -/
  | released (label : String) (address : Nat)
  /-- The unblock function of an interrupt ran. -/
  | unblocked (interrupt : Nat)
  /-- A closure saw a call of its own fail. -/
  | failed (failure : Failure)

/-! ## The world -/

/-- Everything that operations change, apart from the state of the running thread. -/
structure World where
  memory : Memory
  strings : Array ManagedString
  closures : Array Closure
  callbacks : Array Callback
  pool : Pool
  retentions : Array Retention
  interrupts : Array Interrupt
  /-- How often each counted body has run. -/
  counters : Array Nat
  /-- What has happened, oldest first. -/
  events : Array Event
  /-- References given up, whose targets are still to be looked at, oldest first. -/
  dropped : List Ref
  /-- What nothing holds any more. -/
  gone : List Ref
  /-- The next identity of a type, signature or object. -/
  identities : Nat

/-- An operation on the world. -/
def Act (α : Type) : Type := World → Outcome α × World

namespace Act

/-- The operation that only answers. -/
protected def pure {α : Type} (a : α) : Act α := fun w => (.ok a, w)

/-- One operation after another; the second does not run when the first fails. -/
protected def bind {α β : Type} (x : Act α) (f : α → Act β) : Act β := fun w =>
  match x w with
  | (.ok a, w') => f a w'
  | (.error e, w') => (.error e, w')

instance : Monad Act where
  pure := Act.pure
  bind := Act.bind

/-- The operation that fails. -/
def fail {α : Type} (e : Failure) : Act α := fun w => (.error e, w)

/-- The operation that reports a fault. -/
def refuse {α : Type} (f : Fault) : Act α := fail (.fault f)

/-- An outcome as an operation that changes nothing. -/
def ofOutcome {α : Type} (o : Outcome α) : Act α := fun w => (o, w)

/-- A checked answer as an operation that changes nothing. -/
def ofChecked {α : Type} (c : Checked α) : Act α := ofOutcome c.outcome

/-- What a function sees in the world. -/
def view {α : Type} (f : World → α) : Act α := fun w => (.ok (f w), w)

/-- A change of the world. -/
def modify (f : World → World) : Act Unit := fun w => (.ok (), f w)

/-- A checked look at memory. -/
def read {α : Type} (f : Memory → Checked α) : Act α := fun w => ((f w.memory).outcome, w)

/-- A checked change of memory; a fault changes nothing. -/
def write (f : Memory → Checked Memory) : Act Unit := fun w =>
  match f w.memory with
  | .ok m => (.ok (), { w with memory := m })
  | .error e => (.error (.fault e), w)

/-- An operation that makes something in memory; a failure changes nothing. -/
def make {α : Type} (f : Memory → Outcome (α × Memory)) : Act α := fun w =>
  match f w.memory with
  | .ok (a, m) => (.ok a, { w with memory := m })
  | .error e => (.error e, w)

/-- The record that something happened. -/
def note (e : Event) : Act Unit := modify fun w => { w with events := w.events.push e }

/-- References given up. -/
def give (refs : List Ref) : Act Unit := modify fun w => { w with dropped := w.dropped ++ refs }

/-- An identity that nothing has yet. -/
def fresh : Act Nat := fun w => (.ok w.identities, { w with identities := w.identities + 1 })

end Act

namespace World

/-- The address from which blocks are handed out. -/
def heapBase : Nat := 0x1000000000

/-- A host that has no memory for blocks of 64 terabytes. -/
def lacksHuge (_ size : Nat) : Bool := decide (0x400000000000 ≤ size)

/-- A world in which nothing has happened. -/
def start : World where
  memory := ⟨.empty heapBase lacksHuge, #[]⟩
  strings := #[]
  closures := #[]
  callbacks := #[]
  pool := .start .consecutive none 0
  retentions := #[]
  interrupts := #[]
  counters := #[]
  events := #[]
  dropped := []
  gone := []
  identities := 0

/-! ## Strings -/

/-- The bytes of a managed string. -/
def stringBytes (w : World) (id : Nat) : List UInt8 :=
  match w.strings[id]? with
  | some s => w.memory.heap.load s.address s.length
  | none => []

/-- A place for the bytes of a string, with room for a zero byte behind them. -/
def placeBytes (w : World) (bytes : List UInt8) : Nat × World :=
  let (address, heap) := w.memory.heap.obtain (bytes.length + 1)
  (address, { w with memory := { w.memory with heap := heap.store address bytes } })

/-- A new managed string. -/
def newString (w : World) (bytes : List UInt8) : Nat × World :=
  let (address, w) := w.placeBytes bytes
  (w.strings.size, { w with strings := w.strings.push ⟨address, bytes.length⟩ })

end World

namespace Act

/-- A new managed string, as a value. -/
def string (bytes : List UInt8) : Act Value := fun w =>
  let (id, w) := w.newString bytes
  (.ok (.str id), w)

/-- A managed string with other bytes, in another place. -/
def replaceString (id : Nat) (bytes : List UInt8) : Act Unit := modify fun w =>
  let (address, w) := w.placeBytes bytes
  { w with strings := w.strings.modify id fun _ => ⟨address, bytes.length⟩ }

/-- A copy of the C string at an address, and nil at the null address. -/
def stringFrom (address : Nat) : Act Value := do
  match ← view fun w => w.memory.stringAt address with
  | none => return .nil
  | some bytes => string bytes

end Act

/-! ## Comparing values -/

mutual
/-- Whether two values are equal: strings by their bytes, memory and functions by their address,
closures and objects by identity. -/
def Value.equal (w : World) : Value → Value → Bool
  | .nil, .nil => true
  | .bool a, .bool b => a == b
  | .int a, .int b => a == b
  | .float a, .float b => Binary.equal a b
  | .str a, .str b => a == b || w.stringBytes a == w.stringBytes b
  | .symbol a, .symbol b => a == b
  | .pointer a, .pointer b => a.address == b.address
  | .struct a, .struct b => a.address == b.address
  | .function a, .function b => a.address == b.address
  | .proc a, .proc b => a == b
  | .array a, .array b => Value.equalAll w a b
  | .object a _, .object b _ => a == b
  | _, _ => false

/-- Whether two lists of values are equal, item by item. -/
def Value.equalAll (w : World) : List Value → List Value → Bool
  | [], [] => true
  | a :: as, b :: bs => Value.equal w a b && Value.equalAll w as bs
  | _, _ => false
end

end ForeignCall
