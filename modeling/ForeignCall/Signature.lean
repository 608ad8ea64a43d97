import ForeignCall.Ty.Registry
import ForeignCall.World

/-!
# Signatures

The checks that a signature passes when it is made, its identity, and its text. Arrays are neither
passed nor returned by value, and a variable argument list is not a parameter of its own.
-/

namespace ForeignCall

/-- The convention of a name, in any case of letters. -/
def Convention.ofName? (name : String) : Option Convention :=
  match name.toLower with
  | "default" => some .default
  | "c" => some .default
  | "cdecl" => some .default
  | "stdcall" => some .stdcall
  | _ => none

/-- The name of a convention. -/
def Convention.name : Convention → String
  | .default => "Default"
  | .stdcall => "Stdcall"

/-- A type with an identity that no other descriptor has. -/
def Descriptor.fresh (ty : Ty) : Act Descriptor := do
  return ⟨ty, firstFree + (← Act.fresh)⟩

/-- What is fixed when a signature is made, apart from its types. -/
structure SignatureOptions where
  convention : Convention
  enums : Option Enums
  typedefs : TypeMap
  /-- Whether calls run on a helper thread. -/
  blocking : Bool
  /-- Whether calls save the error number that the function leaves. -/
  savesErrno : Bool

namespace Ty

/-- Whether a type can be returned. -/
def checkResult : Ty → Checked Unit
  | .builtin .varargs => .error (.argument "varargs is not a valid return type")
  | .array .. => .error (.argument "arrays cannot be returned by value")
  | .charArray _ => .error (.argument "arrays cannot be returned by value")
  | _ => .ok ()

/-- Whether a type can be the parameter at a position. -/
def checkParameter (index : Nat) : Ty → Checked Unit
  | .builtin .void => .error (.argument s!"parameter {index} has type void")
  | .builtin .varargs =>
    .error (.argument s!"parameter {index} is varargs; use VariadicInvoker")
  | .array .. => .error (.argument s!"parameter {index} is an array; pass a pointer instead")
  | .charArray _ => .error (.argument s!"parameter {index} is an array; pass a pointer instead")
  | _ => .ok ()

end Ty

namespace Signature

/-- A signature of types that pass the checks, with an identity of its own. -/
def ofTypes (ret : Ty) (params : List Ty) (fixed : Option Nat) (o : SignatureOptions) :
    Act Signature := do
  Act.ofChecked ret.checkResult
  Act.ofChecked (params.zipIdx.forM fun (t, i) => t.checkParameter i)
  let id ← Act.fresh
  return ⟨id, ret, params, fixed, o.convention, o.enums, o.blocking, o.savesErrno⟩

/-- A signature of types given by descriptor or name. -/
def make (ret : TypeSpec) (params : List TypeSpec) (o : SignatureOptions) : Act Signature := do
  let ret ← Act.ofChecked (ret.resolve o.typedefs)
  let params ← Act.ofChecked (params.mapM fun p => p.resolve o.typedefs)
  ofTypes ret.ty (params.map Descriptor.ty) none o

/-- The positions of the parameters that are function pointers. -/
def callbackParams (s : Signature) : List Nat :=
  (s.params.zipIdx.filter fun (t, _) => t.kind == .callback).map Prod.snd

/-- The parameter that a block may stand in for: the only function pointer. -/
def blockParam? (s : Signature) : Option Nat :=
  match s.callbackParams with
  | [i] => some i
  | _ => none

/-- Whether the signature is that of a variadic call. -/
def isVariadic (s : Signature) : Bool := s.fixed.isSome

/-- The text of a signature. -/
def describe (s : Signature) : String :=
  let params := ", ".intercalate (s.params.map fun t => t.kind.name)
  let more := if s.isVariadic then ", ..." else ""
  s!"({params}{more}) -> {s.ret.kind.name}"

end Signature

end ForeignCall
