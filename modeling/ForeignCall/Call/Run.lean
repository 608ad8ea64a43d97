import ForeignCall.Call.Blocking
import ForeignCall.Call.Convert
import ForeignCall.Call.Program

/-!
# Running calls

A call converts its arguments, enters the code at an address, and converts the result. Native code
that enters a trampoline enters a closure, and a closure may call again, to any depth.

A closure that fails must not unwind into native code: it returns zeros, and its fault is parked on
the thread. The call around it finds the fault when the native code has returned, and fails with it.
Every call sets aside what was parked before it and restores that when it ends, so a fault belongs
to the innermost call that was in progress.

A blocking call runs on a helper thread, which has a state of its own.
-/

namespace ForeignCall

open Abi

/-! ## Threads -/

/-- The state of one thread. -/
structure Thread where
  /-- The error number of the system. -/
  osErrno : Int
  /-- The error number that the last saving call has left. -/
  savedErrno : Int
  /-- The first fault of a closure that the innermost call in progress has entered. -/
  pending : Option Fault
  /-- The number of calls in progress. -/
  depth : Nat
  deriving DecidableEq, Repr

namespace Thread

/-- A new thread. -/
def start : Thread := ⟨0, 0, none, 0⟩

/-- The thread in one more call, with nothing parked. -/
def enterCall (t : Thread) : Thread := { t with depth := t.depth + 1, pending := none }

/-- The thread after a call has ended; `outer` was parked before it. -/
def leaveCall (t : Thread) (outer : Option Fault) : Thread :=
  { t with depth := t.depth - 1, pending := outer }

/-- The thread with a fault parked: the first one is kept, and none outside any call. -/
def park (t : Thread) (f : Fault) : Thread :=
  if t.depth = 0 then t else { t with pending := t.pending <|> some f }

/-- The thread with the error number saved, and that of the system set with it. -/
def setErrno (t : Thread) (code : Int) : Thread := { t with osErrno := code, savedErrno := code }

/-- The thread with an error number saved. -/
def saveErrno (t : Thread) (code : Int) : Thread := { t with savedErrno := code }

end Thread

/-- The world, the running thread, and the callers that are parked behind it, innermost first. -/
structure Machine where
  world : World
  thread : Thread
  parked : List Parked

namespace Machine

/-- A machine on which nothing has happened. -/
def start : Machine := ⟨.start, .start, []⟩

/-- The machine after the parked callers have woken up, the outermost one first. -/
def poll (m : Machine) : Machine :=
  let wake (p : Parked) (s : World × List Parked) : World × List Parked :=
    match p.due? s.1.isRequested with
    | some interrupt => (s.1.unblock interrupt, { p with unblocked := true } :: s.2)
    | none => (s.1, p :: s.2)
  let (world, parked) := m.parked.foldr wake (m.world, [])
  { m with world, parked }

end Machine

/-- A computation on a machine; it has no answer when it needs more steps than it may take, waits
for ever, or enters an address without code. -/
abbrev Run (α : Type) : Type := StateT Machine Option α

namespace Run

/-- The computation without an answer. -/
def stuck {α : Type} : Run α := fun _ => none

/-- An operation on the world. -/
def act {α : Type} (a : Act α) : Run (Outcome α) := fun ⟨world, thread, parked⟩ =>
  let (r, world) := a world
  some (r, ⟨world, thread, parked⟩)

/-- A change of the world. -/
def change (f : World → World) : Run Unit := fun ⟨world, thread, parked⟩ =>
  some ((), ⟨f world, thread, parked⟩)

/-- A change of the running thread. -/
def onThread (f : Thread → Thread) : Run Unit := fun ⟨world, thread, parked⟩ =>
  some ((), ⟨world, f thread, parked⟩)

end Run

/-- How code at an address is entered: with the registers and the stack of a call. -/
abbrev Enter : Type := Nat → Call → Run Returned

/-- How a closure makes a call. -/
abbrev CallFunction : Type := FurtherCall → Run (Outcome Value)

/-! ## The two kinds of code -/

/-- Native code, run to its result. -/
def Native.run (enter : Enter) : Native → Run (List UInt8)
  | .finish result => pure result
  | .look next => do
    let m ← get
    (next m.world.memory.heap).run enter
  | .store address bytes next => do
    Run.change fun w =>
      { w with memory := { w.memory with heap := w.memory.heap.store address bytes } }
    next.run enter
  | .readErrno next => do
    let m ← get
    (next m.thread.osErrno).run enter
  | .setErrno code next => do
    Run.onThread fun t => { t with osErrno := code }
    next.run enter
  | .report name items next => do
    Run.change fun w => { w with events := w.events.push (.reported name items) }
    next.run enter
  | .enter address result arguments next => do
    let returned ← enter address (Call.pushAll result arguments)
    (next (returned.toBytes result)).run enter
  | .wait address next => do
    if (← get).world.memory.heap.get address = 0 then
      modify Machine.poll
      if (← get).world.memory.heap.get address = 0 then Run.stuck
    next.run enter

/-- The body of a closure, run to its outcome. -/
def Managed.run (call : CallFunction) : Managed → Run (Outcome Value)
  | .finish outcome => pure outcome
  | .act action next => do
    let outcome ← Run.act action
    (next outcome).run call
  | .readErrno next => do
    let m ← get
    (next m.thread.savedErrno m.thread.osErrno).run call
  | .setErrno code next => do
    Run.onThread fun t => t.setErrno code
    next.run call
  | .call further next => do
    let outcome ← call further
    (next outcome).run call

/-- A native function entered with a call. -/
def NativeFunction.enter (f : NativeFunction) (enter : Enter) (call : Call) : Run Returned := do
  let (arguments, cursor) := (call.cursor f.result).popAll f.parameters
  let bytes ← (f.body arguments cursor).run enter
  return Returned.ofBytes f.result bytes

/-! ## Entering closures -/

/-- A fault parked for the innermost call in progress. -/
def Run.park (f : Fault) : Run Unit := Run.onThread fun t => t.park f

/-- A closure run with its arguments. -/
def runClosure (env : Environment) (call : CallFunction) (closure : Nat) (arguments : List Value) :
    Run (Outcome Value) := do
  Run.change fun w => { w with events := w.events.push (.entered closure arguments) }
  (env.body closure arguments).run call

/-- The arguments of a closure, from the bytes of its parameters. -/
def Signature.ofNatives (s : Signature) (arguments : List (List UInt8)) : Act (List Value) :=
  (s.params.zip arguments).mapM fun (t, bytes) => t.ofNative bytes

/-- A bound trampoline run with the bytes of its arguments and the storage for its result: what the
storage holds afterwards, or a failure. -/
def Binding.run (b : Binding) (env : Environment) (call : CallFunction)
    (arguments : List (List UInt8)) (storage : List UInt8) : Run (Outcome (List UInt8)) := do
  match ← Run.act (b.signature.ofNatives arguments) with
  | .error e => return .error e
  | .ok values =>
    match ← runClosure env call b.closure values with
    | .error e => return .error e
    | .ok value => Run.act (b.signature.ret.toResult b.signature.enums value storage)

/-- A bound trampoline run to the end: when it fails, the fault is parked and the result is zero. -/
def Binding.answer (b : Binding) (env : Environment) (call : CallFunction)
    (arguments : List (List UInt8)) (storage : List UInt8) : Run (List UInt8) := do
  match ← b.run env call arguments storage with
  | .ok storage => return storage
  | .error e => do
    Run.park e.toFault
    return Bytes.overwrite storage (Bytes.zeros b.signature.ret.resultSize)

/-- The record of the result that the code of a slot finds in its call interface: nothing when the
code has never been prepared, or the signature that has the interface has been given back. -/
def Slot.result? (s : Slot) (env : Environment) : Option Record := s.interface.bind env.interface

/-- A trampoline entered with a call. A slot that is bound to nothing returns zeros in the shape of
the result that its call interface tells, as long as there is one to be read. -/
def Slot.enter (s : Slot) (env : Environment) (callFunction : CallFunction) (call : Call) :
    Run Returned :=
  match s.binding with
  | none =>
    match s.result? env with
    | none => Run.stuck
    | some r => do
      Run.park (.runtime "callback invoked after release")
      return Returned.ofBytes r (Bytes.zeros r.size)
  | some b => do
    let result := b.signature.ret.record
    let (arguments, _) := (call.cursor result).popAll (b.signature.params.map Ty.record)
    let storage := Bytes.zeros b.signature.ret.resultSize
    return Returned.ofBytes result (← b.answer env callFunction arguments storage)

/-! ## Calls -/

/-- What native code has left behind. -/
structure Done where
  bytes : List UInt8
  errno : Option Int
  fault : Option Fault

/-- The registers and the stack of a call by a signature, with memory as it is. -/
def Signature.push (s : Signature) (frame : Frame) (heap : Heap) : Call :=
  Call.pushAll s.ret.record (frame.load heap)

/-- The code at an address, run on the running thread as a call of its own. -/
def rawCall (enter : Enter) (s : Signature) (address : Nat) (frame : Frame) : Run Done := do
  let outer := (← get).thread.pending
  Run.onThread Thread.enterCall
  let heap := (← get).world.memory.heap
  let returned ← enter address (s.push frame heap)
  let t := (← get).thread
  Run.onThread fun t => t.leaveCall outer
  return {
    bytes := returned.toBytes s.ret.record
    errno := if s.savesErrno then some t.osErrno else none
    fault := t.pending }

/-- A computation on a helper thread, with the caller parked. -/
def Run.onHelper {α : Type} (interrupt : Option Nat) (x : Run α) : Run α := do
  let caller := (← get).thread
  modify fun m => { m with thread := .start, parked := .start interrupt :: m.parked }
  let a ← x
  modify fun m => { m with thread := caller, parked := m.parked.tail }
  return a

/-- Native code run with converted arguments, and its result converted. -/
def execute (enter : Enter) (s : Signature) (address : Nat) (frame : Frame)
    (interrupt : Option Nat) : Run (Outcome Value) := do
  let direct := rawCall enter s address frame
  let done ← if s.blocking || interrupt.isSome then Run.onHelper interrupt direct else direct
  if let some code := done.errno then Run.onThread fun t => t.saveErrno code
  match done.fault with
  | some f => return .error (.fault f)
  | none => Run.act (s.ret.ofNative done.bytes)

/-- The arguments of a call; a block takes the place of the only function pointer when one argument
is missing. -/
def Signature.bindArguments (s : Signature) (arguments : List Value) (block : Option Nat) :
    Checked (List Value) :=
  if arguments.length = s.params.length then .ok arguments
  else match s.blockParam?, block with
    | some index, some closure =>
      if arguments.length + 1 = s.params.length then .ok (arguments.insertIdx index (.proc closure))
      else .error (.arity arguments.length s.params.length)
    | _, _ => .error (.arity arguments.length s.params.length)

/-- A call of the code at an address. -/
def Enter.call (enter : Enter) (s : Signature) (address : Nat) (arguments : List Value)
    (block interrupt : Option Nat) : Run (Outcome Value) :=
  if address = 0 then return .error (.fault (.nullPointer (some "function address")))
  else match s.bindArguments arguments block with
    | .error f => return .error (.fault f)
    | .ok arguments => do
      match ← Run.act (toArguments s.enums (s.params.zip arguments)) with
      | .error e => return .error e
      | .ok frame => execute enter s address frame interrupt

/-- A call with the fixed arguments and further ones, and the function with what it has prepared. -/
def VariadicFunction.call (f : VariadicFunction) (enter : Enter) (arguments : List Value)
    (extra : List (TypeSpec × Value)) : Run (Outcome Value × VariadicFunction) := do
  if arguments.length ≠ f.fixed.length then
    return (.error (.fault (.arity arguments.length f.fixed.length)), f)
  match f.promoteAll extra with
  | .error e => return (.error (.fault e), f)
  | .ok types =>
    match ← Run.act (f.signatureFor types) with
    | .error e => return (.error e, f)
    | .ok (s, f) =>
      match ← Run.act (toArguments s.enums (s.params.zip (arguments ++ extra.map Prod.snd))) with
      | .error e => return (.error e, f)
      | .ok frame => return (← execute enter s f.address frame none, f)

/-- A call that a closure makes. What a variadic function has prepared for the call is not kept. -/
def Enter.callFunction (enter : Enter) : CallFunction
  | .function f arguments block interrupt =>
    enter.call f.signature f.address arguments block interrupt
  | .variadic f arguments extra => do
    let (answer, _) ← f.call enter arguments extra
    return answer

namespace Environment

/-- How deep code may enter code. -/
def depthLimit : Nat := 2000

/-- The code at an address entered with a call, at most `fuel` entries deep. -/
def enterWithin (env : Environment) : Nat → Enter
  | 0 => fun _ _ => Run.stuck
  | fuel + 1 => fun address call => do
    match (← get).world.pool.slotAt? address with
    | some slot => slot.enter env (env.enterWithin fuel).callFunction call
    | none =>
      match env.native address with
      | some f => f.enter (env.enterWithin fuel) call
      | none => Run.stuck

/-- Code that enters the address of a slot enters the slot. -/
theorem enterWithin_slot (env : Environment) (fuel : Nat) {address : Nat} (call : Abi.Call)
    {slot : Slot} {m : Machine} (h : m.world.pool.slotAt? address = some slot) :
    env.enterWithin (fuel + 1) address call m =
      slot.enter env (env.enterWithin fuel).callFunction call m := by
  rw [enterWithin]
  simp only [bind, StateT.bind, get, getThe, MonadStateOf.get, StateT.get, pure, Option.bind, h]

/-- The code at an address entered with a call. -/
def enter (env : Environment) : Enter := env.enterWithin depthLimit

/-- A closure run directly, without native code in between. -/
def callClosure (env : Environment) (closure : Nat) (arguments : List Value) :
    Run (Outcome Value) :=
  runClosure env env.enter.callFunction closure arguments

/-- Code called by native code as a function of one integer, outside any call: what its closure
fails with is lost. -/
def invoke (env : Environment) (address : Nat) (argument : Int) : Run Int := do
  let k := Record.int .int32
  let returned ← env.enter address (Call.pushAll k [(k, Bytes.ofInt 4 argument)])
  return IntKind.int32.ofBits (Bytes.toNat (returned.toBytes k))

end Environment

end ForeignCall
