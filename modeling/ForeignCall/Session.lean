import ForeignCall.Call.Run
import ForeignCall.Catalog.Bodies
import ForeignCall.Catalog.Functions
import ForeignCall.Describe
import ForeignCall.Lifetime

/-!
# Sessions

A session is a machine together with the things that its user holds by name. Whatever is held keeps
alive what it refers to; when a name is dropped, `Session.settle` retires what nothing holds any
more.
-/

namespace ForeignCall

/-- Something that the user of a session holds. -/
inductive Held where
  | type (descriptor : Descriptor)
  | typedefs (map : TypeMap)
  | enumeration (table : Enumeration)
  | enums (tables : Enums)
  | layout (layout : Layout)
  | signature (signature : Signature)
  | view (view : View)
  /-- A block of the native heap. -/
  | owned (view : View)
  /-- A block of the managed heap. -/
  | buffer (view : View) (direction : Direction)
  /-- Foreign memory with a function that releases it. -/
  | foreign (view : View)
  | array (array : InlineArray)
  | callback (id : Nat)
  | interrupt (id : Nat)
  | variadic (function : VariadicFunction)
  | library (library : Library)
  | symbol (symbol : ExportedSymbol)
  | value (value : Value)

namespace Held

/-! ## What kind of thing is held -/

/-- A type. -/
def type? : Held → Option Descriptor
  | .type it => some it
  | _ => none

/-- Names of types. -/
def typedefs? : Held → Option TypeMap
  | .typedefs it => some it
  | _ => none

/-- An enumeration. -/
def enumeration? : Held → Option Enumeration
  | .enumeration it => some it
  | _ => none

/-- A list of enumerations. -/
def enums? : Held → Option Enums
  | .enums it => some it
  | _ => none

/-- A layout. -/
def layout? : Held → Option Layout
  | .layout it => some it
  | _ => none

/-- A signature. -/
def signature? : Held → Option Signature
  | .signature it => some it
  | _ => none

/-- An inline array. -/
def array? : Held → Option InlineArray
  | .array it => some it
  | _ => none

/-- An interrupt. -/
def interrupt? : Held → Option Nat
  | .interrupt it => some it
  | _ => none

/-- A variadic function. -/
def variadic? : Held → Option VariadicFunction
  | .variadic it => some it
  | _ => none

/-- A library. -/
def library? : Held → Option Library
  | .library it => some it
  | _ => none

/-- A symbol. -/
def symbol? : Held → Option ExportedSymbol
  | .symbol it => some it
  | _ => none

/-- A struct. -/
def struct? : Held → Option Instance
  | .value (.struct it) => some it
  | _ => none

/-- A function. -/
def function? : Held → Option Function
  | .value (.function it) => some it
  | _ => none

/-- A closure. -/
def closure? : Held → Option Nat
  | .value (.proc it) => some it
  | _ => none

/-- A string. -/
def string? : Held → Option Nat
  | .value (.str it) => some it
  | _ => none

/-! ## What it is good for -/

/-- The references that something holds. -/
def refs (w : World) : Held → List Ref
  | view v => v.refs
  | owned v => v.refs
  | buffer v _ => v.refs
  | foreign v => v.refs
  | array a => a.view.refs ++ [.retention a.retention]
  | callback id => [.callback id]
  | interrupt id =>
    ((w.interrupts[id]?.bind Interrupt.unblock).map fun u => u.1.refs).getD []
  | library l => [.library l.id]
  | symbol s => [.library s.library.id]
  | value v => v.refs
  | _ => []

/-- The memory of something: the bytes of a struct, and the code of a function. -/
def view? (w : World) : Held → Option View
  | view v => some v
  | owned v => some v
  | buffer v _ => some v
  | foreign v => some v
  | callback id => some (w.callbackView id)
  | symbol s => some s.view
  | value (.pointer v) => some v
  | value (.struct s) => some s.view
  | value (.function f) => some f.view
  | _ => none

/-- Something as a value: memory and code as pointers. -/
def value? (w : World) : Held → Option Value
  | value v => some v
  | h => (h.view? w).map .pointer

/-- The description of what is held. -/
def describe (w : World) : Held → Description
  | view v => v.describe
  | foreign v => v.describe
  | owned v => v.describeOwned (v.origin.all w.memory.isLive)
  | buffer v direction => v.describeLent direction
  | array a => a.describe
  | callback id => w.describeCallback id
  | library l => [.text l.describe]
  | symbol s => s.describe
  | value v => v.describe w
  | _ => []

end Held

/-- The owner of a view, if it has one. -/
def View.owner? (v : View) : Option Nat :=
  match v.origin with
  | some (.owner id) => some id
  | _ => none

/-- Foreign memory taken into care under a label; memory that has an owner already is refused. The
view begins anew, with all permissions in the host's byte order. -/
def adopt (label : String) (v : View) : Act View := fun w =>
  if v.origin.isSome then
    (.error (.fault (.type "foreign pointer" "memory that already has an owner")), w)
  else
    let owner : Owner := ⟨.foreign label, v.address, v.size, true, false⟩
    let view := View.ofParts v.address v.size v.typeSize (some (.owner w.memory.owners.size))
    (.ok view, { w with memory := { w.memory with owners := w.memory.owners.push owner } })

/-- The interrupt of a label, with the byte that its unblock function sets. -/
def newInterrupt (label : String) (unblock : Option (View × Nat)) : Act Nat := fun w =>
  (.ok w.interrupts.size, { w with interrupts := w.interrupts.push ⟨label, false, unblock⟩ })

/-- The world after an interrupt has been requested. -/
def World.requestInterrupt (w : World) (id : Nat) : World :=
  { w with interrupts := w.interrupts.modify id fun i => { i with requested := true } }

/-- A machine, and what its user holds. -/
structure Session where
  machine : Machine
  bodies : Array Catalog.Body
  held : List (String × Held)

namespace Session

/-- A session in which nothing has happened. -/
def start : Session := ⟨{ Machine.start with world := Catalog.world }, #[], []⟩

/-- The world of a session. -/
def world (s : Session) : World := s.machine.world

/-- The session with another world. -/
def withWorld (s : Session) (world : World) : Session :=
  { s with machine := { s.machine with world } }

/-- What is held under a name. -/
def find? (s : Session) (name : String) : Option Held := s.held.lookup name

/-- The session with something held under a name; what the name held before is given up. -/
def hold (s : Session) (name : String) (h : Held) : Session :=
  { s with held := (name, h) :: s.held.filter fun e => e.1 != name }

/-- The session after what nothing holds any more has been retired. -/
def settle (s : Session) : Session :=
  s.withWorld (s.world.collect (s.held.flatMap fun e => e.2.refs s.world))

/-- The session after a name has been dropped. -/
def drop (s : Session) (name : String) : Session :=
  let refs := ((s.find? name).map fun h => h.refs s.world).getD []
  let s := { s with held := s.held.filter fun e => e.1 != name }
  (s.withWorld { s.world with dropped := s.world.dropped ++ refs }).settle

/-- A new closure with a body. -/
def newClosure (s : Session) (label : String) (body : Catalog.Body) : Nat × Session :=
  let id := s.world.closures.size
  let closure : Closure := ⟨label, body.captured, []⟩
  let w := s.world
  (id, { s.withWorld { w with closures := w.closures.push closure } with
    bodies := s.bodies.push body })

/-- The call interface of a signature, by its identity. A session does not follow who holds a
signature: it reads the interface of one that has been given back as it was. -/
def interface? (s : Session) (id : Nat) : Option Abi.Record :=
  (s.world.callbacks.find? fun c => c.signature.id == id).map fun c => c.signature.ret.record

/-- The code that calls of a session find. -/
def environment (s : Session) : Environment :=
  { Catalog.environment Catalog.native s.bodies with interface := s.interface? }

/-- An operation on the world of a session. -/
def act {α : Type} (s : Session) (a : Act α) : Outcome α × Session :=
  let ⟨⟨world, thread, parked⟩, bodies, held⟩ := s
  let (r, world) := a world
  (r, ⟨⟨world, thread, parked⟩, bodies, held⟩)

/-- A computation on the machine of a session; nothing, if it has no answer. -/
def run {α : Type} (s : Session) (x : Environment → Run α) : Option (α × Session) :=
  (x s.environment s.machine).map fun (a, machine) => (a, { s with machine })

end Session

end ForeignCall
