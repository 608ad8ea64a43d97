import ForeignCall.Ty.Basic

/-!
# Where a return value comes back

The five families of calling conventions differ in which aggregates they return in registers. On
AArch64 a struct of at most four floats of one kind, and nothing else, counts as registers whatever
its size (`Ty.floats` takes the census).
-/

namespace ForeignCall.Abi

/-- A family of calling conventions. -/
inductive Family where
  /-- Unix on x86-64. -/
  | sysV
  /-- Windows on x86-64. -/
  | win64
  | aarch64
  /-- 32-bit ARM. -/
  | aapcs
  /-- Anything else; every aggregate is returned in memory. -/
  | other
  deriving DecidableEq, Repr

/-- The family of this host. -/
def Family.host : Family := .sysV

/-- Where a return value comes back. -/
inductive ReturnClass where
  | void
  /-- A general register. -/
  | integer
  /-- A floating-point register. -/
  | float
  /-- An aggregate split over the return registers. -/
  | registers
  /-- An aggregate written through a hidden pointer. -/
  | memory
  deriving DecidableEq, Repr

/-- The name of a class. -/
def ReturnClass.name : ReturnClass → String
  | .void => "Void"
  | .integer => "Integer"
  | .float => "Float"
  | .registers => "Registers"
  | .memory => "Memory"

/-! ## Homogeneous floats -/

/-- What the scalar members of an aggregate have in common. -/
inductive Census where
  | empty
  /-- Floats of one kind. -/
  | floats (kind : FloatKind) (count : Nat)
  /-- Anything else. -/
  | mixed
  deriving DecidableEq, Repr

namespace Census

/-- The census of two parts together. -/
def join : Census → Census → Census
  | .empty, c => c
  | c, .empty => c
  | .floats k m, .floats l n => if k = l then .floats k (m + n) else .mixed
  | _, _ => .mixed

/-- The census of `n` equal parts. -/
def times (n : Nat) (c : Census) : Census :=
  if n = 0 then .empty
  else match c with
    | .floats k m => .floats k (n * m)
    | c => c

end Census

end ForeignCall.Abi

namespace ForeignCall

open Abi

mutual
/-- The census of the scalar members of a type. -/
def Ty.floats : Ty → Census
  | .builtin (.float k) => .floats k 1
  | .builtin _ => .mixed
  | .struct l => l.floats
  | .array c n => Census.times n c.floats
  | .charArray n => Census.times n .mixed
  | .enumeration _ => .mixed
  | .callback _ => .mixed

/-- The census of the scalar members of a layout. -/
def Layout.floats : Layout → Census
  | ⟨fields, _, _, _, _⟩ => fieldFloats fields

/-- The census of the scalar members of fields. -/
def fieldFloats : List Field → Census
  | [] => .empty
  | ⟨_, _, ty⟩ :: rest => ty.floats.join (fieldFloats rest)
end

/-- The kind and count of the members of a layout that has floats of one kind and nothing else. -/
def Layout.homogeneousFloats? (l : Layout) : Option (FloatKind × Nat) :=
  match l.floats with
  | .floats k n => some (k, n)
  | _ => none

/-- Whether a family returns a struct in registers. -/
def Layout.inRegisters (family : Family) (l : Layout) : Bool :=
  match family with
  | .sysV => l.size ≤ 16
  | .aarch64 => l.size ≤ 16 || l.homogeneousFloats?.any fun p => p.2 ≤ 4
  | .win64 => l.size == 1 || l.size == 2 || l.size == 4 || l.size == 8
  | .aapcs => l.size ≤ 4
  | .other => false

/-- Where a family returns a value of a type. -/
def Ty.returnClass (family : Family) : Ty → ReturnClass
  | .builtin .void => .void
  | .builtin (.float _) => .float
  | .struct l => if l.inRegisters family then .registers else .memory
  | _ => .integer

end ForeignCall
