import ForeignCall.Platform

/-!
# Faults

Everything that can go wrong while managed values cross into native code and back, as one type of
causes (`Fault`), its coarse classes (`Fault.Kind`) and its wording (`Fault.message`).

A fault is an answer that the caller sees. The other way to fail is to abort: a word addition that
overflows, or a managed closure that gives up. `Failure` joins the two.
-/

namespace ForeignCall

/-- Why an operation was refused. -/
inductive Fault where
  /-- A managed value of the wrong type. -/
  | type (expected found : String)
  /-- An integer outside the range of the native type it goes to. -/
  | range (value : Int) (typeName : String) (min max : Int)
  /-- A wrong count of arguments, an unknown name, an invalid declaration. -/
  | argument (message : String)
  /-- An access that does not fit in the bytes it goes to. -/
  | bounds (offset : Int) (size total : Nat)
  /-- An allocation that cannot be made. -/
  | outOfMemory (requested : Nat)
  /-- A library that does not load. -/
  | load (name message : String)
  /-- An access through the null address. -/
  | nullPointer (context : Option String)
  /-- An operation in a state that does not allow it. -/
  | runtime (message : String)
  deriving DecidableEq, Repr

namespace Fault

/-- The class of a fault, as a host language would choose an exception class. -/
inductive Kind where
  | type
  | range
  | argument
  | bounds
  | outOfMemory
  | load
  | nullPointer
  | runtime
  deriving DecidableEq, Repr

/-- The class of each fault. -/
def kind : Fault → Kind
  | .type .. => .type
  | .range .. => .range
  | .argument .. => .argument
  | .bounds .. => .bounds
  | .outOfMemory .. => .outOfMemory
  | .load .. => .load
  | .nullPointer .. => .nullPointer
  | .runtime .. => .runtime

/-- The name of a class. -/
def Kind.name : Kind → String
  | .type => "Type"
  | .range => "Range"
  | .argument => "Argument"
  | .bounds => "Bounds"
  | .outOfMemory => "OutOfMemory"
  | .load => "Load"
  | .nullPointer => "NullPointer"
  | .runtime => "Runtime"

/-- The text of a fault. -/
def message : Fault → String
  | .type expected found => s!"type error: expected {expected}, got {found}"
  | .range value typeName min max => s!"value {value} outside {typeName} range ({min}..={max})"
  | .argument message => s!"argument error: {message}"
  | .bounds offset size total =>
      s!"memory access offset={offset} size={size} is out of bounds (total {total})"
  | .outOfMemory requested => s!"failed to allocate memory size={requested} bytes"
  | .load name message => s!"could not open library '{name}': {message}"
  | .nullPointer none => "null pointer access"
  | .nullPointer (some context) => s!"null pointer access ({context})"
  | .runtime message => s!"runtime error: {message}"

/-! ## Causes with a fixed wording -/

/-- A call with `found` arguments where `expected` are needed. -/
def arity (found expected : Nat) : Fault :=
  .argument s!"wrong number of arguments ({found} for {expected})"

/-- An access to memory that its owner has released. -/
def freed : Fault := .runtime "memory freed"

/-- An access whose offset is a word; it is reported as a signed number. -/
def outside (offset size total : Nat) : Fault := .bounds (signedWord offset) size total

/-- A size that no word can hold. -/
def oversized : Fault := .outOfMemory (wordLimit - 1)

/-- The same fault, an argument fault marked with the position of the argument. -/
def atArgument (index : Nat) : Fault → Fault
  | .argument message => .argument s!"argument {index}: {message}"
  | other => other

theorem kind_atArgument (index : Nat) (f : Fault) : (f.atArgument index).kind = f.kind := by
  cases f <;> rfl

end Fault

/-- How an operation that gives no answer ends. -/
inductive Failure where
  /-- It reports a fault. -/
  | fault (fault : Fault)
  /-- It is abandoned with a message. -/
  | abort (message : String)
  deriving DecidableEq, Repr

namespace Failure

/-- A word addition whose sum leaves the word. -/
def overflow : Failure := .abort "attempt to add with overflow"

/-- What a failed closure leaves for the call around it: its fault, or one that quotes its abort. -/
def toFault : Failure → Fault
  | .fault f => f
  | .abort message => .runtime s!"callback panicked: {message}"

end Failure

instance : Coe Fault Failure := ⟨Failure.fault⟩

/-- An answer or a fault. -/
abbrev Checked (α : Type) : Type := Except Fault α

/-- An answer, a fault or an abort. -/
abbrev Outcome (α : Type) : Type := Except Failure α

/-- A checked answer as an outcome. -/
def Checked.outcome {α : Type} : Checked α → Outcome α
  | .ok a => .ok a
  | .error f => .error (.fault f)

/-- The outcome that reports a fault. -/
def refuse {α : Type} (f : Fault) : Outcome α := .error (.fault f)

/-- A word that an addition gives, or the abort of its overflow. -/
def orOverflow {α : Type} : Option α → Outcome α
  | some a => .ok a
  | none => .error .overflow

end ForeignCall
