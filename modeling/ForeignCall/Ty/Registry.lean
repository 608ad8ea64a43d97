import ForeignCall.Fault
import ForeignCall.Ty.Basic

/-!
# Names of types

Every builtin type has one shared descriptor, found under its canonical name and under the C names
that stand for it on this host (`Descriptor.find`). A `TypeMap` adds names of the user's own, which
are looked up first.

A `Descriptor` is a type together with its identity. Descriptors of builtin types are interned:
their identity is the position of their kind. Every composite descriptor that is built gets an
identity of its own, given by the caller.
-/

namespace ForeignCall

/-- A type with the identity of the object that describes it. -/
structure Descriptor where
  ty : Ty
  identity : Nat

namespace Descriptor

/-- The first identity that no interned descriptor has. -/
def firstFree : Nat := Kind.all.length

/-- The interned descriptor of a builtin kind. -/
def ofBuiltin (b : Builtin) : Descriptor := ⟨.builtin b, (Kind.builtin b).index⟩

/-- The C names of builtin types on this host. -/
def aliases : List (String × Builtin) :=
  [("char", .int ⟨true, .w8⟩), ("schar", .int ⟨true, .w8⟩), ("uchar", .int ⟨false, .w8⟩),
    ("short", .int ⟨true, .w16⟩), ("ushort", .int ⟨false, .w16⟩),
    ("int", .int ⟨true, .w32⟩), ("uint", .int ⟨false, .w32⟩),
    ("long", .int .int64), ("ulong", .int .uint64),
    ("long_long", .int .int64), ("ulong_long", .int .uint64),
    ("float", .float .float32), ("double", .float .float64),
    ("size_t", .int .uint64), ("ssize_t", .int .int64),
    ("intptr_t", .int .int64), ("uintptr_t", .int .uint64),
    ("void*", .pointer .plain), ("buffer", .pointer .bufferInOut)]

/-- The builtin kind of a canonical or C name. -/
def builtin? (name : String) : Option Builtin :=
  (Builtin.all.find? fun b => b.name == name) <|> aliases.lookup name

/-- The interned descriptor of a canonical or C name. -/
def find (name : String) : Checked Descriptor :=
  match builtin? name with
  | some b => .ok (ofBuiltin b)
  | none => .error (.argument s!"unknown type '{name}'")

/-- The descriptor of the host's C `long`. -/
def long : Descriptor := ofBuiltin (.int .int64)

/-- Whether two descriptors are the same object. -/
def same (a b : Descriptor) : Bool := a.identity == b.identity

end Descriptor

/-- Names that the user has given to types, in order of first definition. -/
structure TypeMap where
  entries : List (String × Descriptor)

namespace TypeMap

/-- No names. -/
def empty : TypeMap := ⟨[]⟩

/-- The descriptor of a name: the user's, or else the registry's. -/
def find (m : TypeMap) (name : String) : Checked Descriptor :=
  match m.entries.lookup name with
  | some d => .ok d
  | none => Descriptor.find name

/-- The map with a name defined, or defined anew in its place. -/
def insert (m : TypeMap) (name : String) (d : Descriptor) : TypeMap :=
  if m.entries.any fun e => e.1 == name then
    ⟨m.entries.map fun e => if e.1 == name then (name, d) else e⟩
  else ⟨m.entries ++ [(name, d)]⟩

/-- The number of names. -/
def size (m : TypeMap) : Nat := m.entries.length

end TypeMap

/-- A type given by its descriptor or by a name still to be looked up. -/
inductive TypeSpec where
  | descriptor (d : Descriptor)
  | name (name : String)

namespace TypeSpec

/-- The type of a kind: its interned descriptor, and for a composite kind only its name. -/
def ofKind : Kind → TypeSpec
  | .builtin b => .descriptor (.ofBuiltin b)
  | k => .name k.name

/-- The descriptor that a specification stands for, names looked up through `typedefs`. -/
def resolve (typedefs : TypeMap) : TypeSpec → Checked Descriptor
  | .descriptor d => .ok d
  | .name n => typedefs.find n

end TypeSpec

/-- A definition of a name: the type is resolved through the map itself. -/
def TypeMap.define (m : TypeMap) (spec : TypeSpec) (name : String) :
    Checked (Descriptor × TypeMap) := do
  let d ← spec.resolve m
  return (d, m.insert name d)

/-! ## Composite types -/

/-- An inline array; `void` and `varargs` have no bytes to repeat. -/
def Ty.array? (component : Ty) (length : Nat) : Checked Ty :=
  match component with
  | .builtin .void => .error (.argument "invalid array component type void")
  | .builtin .varargs => .error (.argument "invalid array component type varargs")
  | _ =>
    match mulWords component.size length with
    | some _ => .ok (.array component length)
    | none => .error .oversized

end ForeignCall
