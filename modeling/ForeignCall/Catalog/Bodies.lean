import ForeignCall.Call.Program
import ForeignCall.Memory.Table
import ForeignCall.Struct.Instance

/-!
# A catalogue of closure bodies

Closures of every behaviour that a call can meet: they compute with their arguments, take structs
apart, fail, give up, write to memory, call on, and change their behaviour from run to run. A `Body`
says what a closure does; `Body.program` is the program of one run.
-/

namespace ForeignCall.Catalog

/-- What the body of a closure does. -/
inductive Body where
  /-- It returns a value. -/
  | constant (value : Value)
  /-- It returns one of its arguments. -/
  | argument (index : Nat)
  | multiply (factor : Int)
  | add (term : Int)
  /-- It returns the sum of its integers. -/
  | sum
  | halve
  | fail (fault : Fault)
  | abort (message : String)
  /-- It returns a field of a struct. -/
  | field (name : String)
  /-- It returns a struct with two fields exchanged. -/
  | swap (first second : String)
  /-- It calls a function with its own arguments. -/
  | call (function : Function) (swallow : Bool)
  /-- It calls its first argument with the others. -/
  | callArgument
  /-- It stores its first argument as a C `int`. -/
  | write (view : View) (offset : Nat)
  /-- It does what the bodies do, one at each run, again and again. -/
  | sequence (counter : Nat) (bodies : List Body)

namespace Body

mutual
/-- The values that a body has captured. -/
def captured : Body → List Value
  | constant value => [value]
  | call function _ => [.function function]
  | write view _ => [.pointer view]
  | sequence _ bodies => capturedAll bodies
  | _ => []

/-- The values that bodies have captured. -/
def capturedAll : List Body → List Value
  | [] => []
  | b :: bs => b.captured ++ capturedAll bs
end

/-- One past the largest signed integer of 128 bits. -/
def wideLimit : Int := 0x80000000000000000000000000000000

/-- The integers of 128 bits. -/
def fitsWide (i : Int) : Bool := -wideLimit ≤ i && i < wideLimit

/-- An integer of 128 bits, or the abort of an overflow. -/
def wide (operation : String) (i : Int) : Outcome Int :=
  if fitsWide i then .ok i
  else .error (.abort s!"attempt to {operation} with overflow")

/-- The sum of integers, added from the left; no sum on the way may overflow. -/
def total (terms : List Int) : Outcome Int :=
  terms.foldlM (fun sum term => wide "add" (sum + term)) 0

/-- The first argument, nil when there is none. -/
def first (arguments : List Value) : Value := arguments.headD .nil

/-- Half of a number. -/
def half (v : Value) : Value :=
  .float (Float.ofBits (v.float?.getD 0) / 2).toBits

/-- A struct with two fields exchanged, in memory of its own. -/
def swapFields (f g : String) (s : Instance) : Act Value := do
  let copy ← Instance.ofBytes s.layout (← s.bytes)
  let a ← s.get f
  let b ← s.get g
  copy.put f b
  copy.put g a
  return .struct copy

/-- The number of earlier runs of a counted body. -/
def count (counter : Nat) : Act Nat := fun w =>
  (.ok (w.counters.getD counter 0), { w with counters := w.counters.modify counter (· + 1) })

mutual
/-- The program of one run of a body. -/
def program : Body → List Value → Managed
  | constant value, _ => .finish (.ok value)
  | argument index, arguments => .finish (.ok (arguments.getD index .nil))
  | multiply factor, arguments =>
    .finish (do return .int (← wide "multiply" ((← (first arguments).expectInt.outcome) * factor)))
  | add term, arguments =>
    .finish (do return .int (← wide "add" ((← (first arguments).expectInt.outcome) + term)))
  | sum, arguments => .finish (.int <$> total (arguments.filterMap Value.int?))
  | halve, arguments => .finish (.ok (half (first arguments)))
  | fail fault, _ => .finish (.error (.fault fault))
  | abort message, _ => .finish (.error (.abort message))
  | field name, arguments =>
    match first arguments with
    | .struct s => .ofAct (s.get name)
    | other => .finish (.ok other)
  | swap f g, arguments =>
    match first arguments with
    | .struct s => .ofAct (swapFields f g s)
    | other => .finish (.ok other)
  | call function swallow, arguments =>
    .callFunction function arguments fun
      | .ok value => .finish (.ok value)
      | .error e => .act (Act.note (.failed e)) fun _ =>
        .finish (if swallow then .ok .nil else .error e)
  | callArgument, arguments =>
    match first arguments with
    | .function f => .callFunction f arguments.tail .finish
    | other => .finish (.ok other)
  | write view offset, arguments =>
    .act (view.put (.builtin (.int .int32)) offset (first arguments)) fun
      | .ok () => .finish (.ok (first arguments))
      | .error e => .finish (.error e)
  | sequence counter bodies, arguments =>
    .act (count counter) fun runs =>
      programAt bodies (runs.toOption.getD 0 % bodies.length) arguments

/-- The program of one run of the body at a position. -/
def programAt : List Body → Nat → List Value → Managed
  | [], _, _ => .finish (.ok .nil)
  | b :: _, 0, arguments => b.program arguments
  | _ :: bs, position + 1, arguments => programAt bs position arguments
end

end Body

/-- A counter for the runs of a body. -/
def newCounter : Act Nat := fun w =>
  (.ok w.counters.size, { w with counters := w.counters.push 0 })

/-- The environment of the catalogue's functions and of closures with the given bodies. -/
def environment (native : Nat → Option NativeFunction) (bodies : Array Body) : Environment where
  native
  body closure arguments :=
    match bodies[closure]? with
    | some b => b.program arguments
    | none => .finish (.ok .nil)

end ForeignCall.Catalog
