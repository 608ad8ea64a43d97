import ForeignCall.Signature

/-!
# Variadic functions

A variadic function has a list of fixed parameters; every call brings further arguments together
with their types. A further argument is checked against its own type, then promoted as C does:
integers narrower than `int` to `int`, and `float32` to `float64`. The signature of a list of
builtin types is made once and kept. `VariadicFunction.call` makes the call.
-/

namespace ForeignCall

/-- A variadic function, with the signatures prepared for it so far. -/
structure VariadicFunction where
  address : Nat
  ret : Ty
  fixed : List Ty
  options : SignatureOptions
  prepared : List (List Kind × Signature)

/-- The type that C passes an unnamed argument of a type as. -/
def Ty.promote : Ty → Ty
  | .builtin (.float .float32) => .builtin (.float .float64)
  | .builtin (.int ⟨signed, width⟩) =>
    match width with
    | .w8 => .int32
    | .w16 => .int32
    | width => .builtin (.int ⟨signed, width⟩)
  | t => t

/-- The check of an integer against its declared type, before the promotion. -/
def Ty.checkDeclared (t : Ty) (value : Value) : Checked Unit :=
  match t, value with
  | .builtin (.int k), .int i => (fun _ => ()) <$> (Value.int i).toInt k
  | _, _ => .ok ()

namespace VariadicFunction

/-- The mark of a variable argument list. -/
def isMark (t : Ty) : Bool := t.kind == .builtin .varargs

/-- A variadic function of an address; its parameters may end with the mark of the list. -/
def make (address : Nat) (ret : TypeSpec) (params : List TypeSpec) (options : SignatureOptions) :
    Checked VariadicFunction := do
  if address = 0 then throw (.nullPointer (some "variadic function address"))
  let ret ← ret.resolve options.typedefs
  let params ← params.mapM fun p => p.resolve options.typedefs
  let types := params.map Descriptor.ty
  let fixed := if types.getLast?.any isMark then types.dropLast else types
  if fixed.any isMark then throw (.argument "varargs must be the last parameter")
  return ⟨address, ret.ty, fixed, options, []⟩

/-- The types that further arguments are passed as, each argument checked against its own. -/
def promoteAll (f : VariadicFunction) (extra : List (TypeSpec × Value)) : Checked (List Ty) :=
  extra.mapM fun (spec, value) => do
    let declared := (← spec.resolve f.options.typedefs).ty
    declared.checkDeclared value
    return declared.promote

/-- What the signature for a list of further types is kept under, when all of them are builtin. -/
def key? (extra : List Ty) : Option (List Kind) :=
  if extra.all fun t => t.kind.isBuiltin then some (extra.map Ty.kind) else none

/-- The signature for a list of further types, and the function that keeps it. -/
def signatureFor (f : VariadicFunction) (extra : List Ty) : Act (Signature × VariadicFunction) :=
  match (key? extra).bind fun key => f.prepared.lookup key with
  | some s => pure (s, f)
  | none => do
    let s ← Signature.ofTypes f.ret (f.fixed ++ extra) (some f.fixed.length) f.options
    match key? extra with
    | some key => return (s, { f with prepared := (key, s) :: f.prepared })
    | none => return (s, f)

end VariadicFunction

end ForeignCall
