import ForeignCall.Value

/-!
# Libraries

A library is opened by name, or stands for the process itself; its exported symbols are found by
name. What the host's loader has at hand is a parameter (`Loader`). A symbol, a function made of
one, and every view at its address keep the library open.

The loader takes names that end at their first NUL. A name is accepted with that NUL written at its
end or without it (`loaderName?`), and keeps the form in which it was given.
-/

namespace ForeignCall

/-! ## Flags -/

/-- How a library is opened. -/
structure LibraryFlags where
  lazy : Bool
  now : Bool
  global : Bool
  unshared : Bool
  deriving DecidableEq, Repr

namespace LibraryFlags

/-- The flags of four bits, from `lazy` up. -/
def ofBits (bits : Nat) : LibraryFlags :=
  ⟨bits.testBit 0, bits.testBit 1, bits.testBit 2, bits.testBit 3⟩

/-- No flags. -/
def empty : LibraryFlags := ⟨false, false, false, false⟩

/-- The flags that are used when none are asked for. -/
def default : LibraryFlags := { empty with lazy := true }

/-- The mode that the host's loader is given; without flags it is that of the default. -/
def native (f : LibraryFlags) : Nat :=
  let f := if f = empty then default else f
  (if f.lazy then 1 else 0) + (if f.now then 2 else 0) + (if f.global then 0x100 else 0)

/-- The names of the flags that are set. -/
def names (f : LibraryFlags) : List String :=
  [(f.lazy, "LAZY"), (f.now, "NOW"), (f.global, "GLOBAL"), (f.unshared, "LOCAL")].filterMap
    fun (set, name) => if set then some name else none

/-- The text of flags. -/
def describe (f : LibraryFlags) : String :=
  let inner := if f = empty then "0x0" else " | ".intercalate f.names
  s!"LibraryFlags({inner})"

end LibraryFlags

/-! ## The loader of the host -/

/-- What the loader says to a path and a mode: the library is open, or a message. -/
abbrev Loader : Type := String → Nat → Except String Unit

/-- The loader of a host that has no library at hand but the process itself, under the empty path.
The mode has to say when symbols are to be found. -/
def Loader.processOnly : Loader := fun path mode =>
  if path ≠ "" then
    .error s!"{path}: cannot open shared object file: No such file or directory"
  else if mode % 4 = 0 then .error "invalid mode for dlopen(): Invalid argument"
  else .ok ()

/-! ## Libraries and symbols -/

/-- An open library; `id` tells one opening from another. -/
structure Library where
  id : Nat
  name : Option String
  flags : LibraryFlags

namespace Library

/-- The name of a library in messages. -/
def nameOrProcess (name : Option String) : String := name.getD "[current process]"

/-- The name that the host's loader is given: one NUL at the end is no part of it, and no other NUL
may be in it. -/
def loaderName? (name : String) : Option String :=
  let chars := name.toList
  let bare := if chars.getLast? = some '\x00' then chars.dropLast else chars
  if bare.contains '\x00' then none else some (String.ofList bare)

/-- A library opened under an identity of its own; without a name it is the process itself. -/
def open? (id : Nat) (name : Option String) (flags : LibraryFlags)
    (load : Loader := .processOnly) : Checked Library :=
  match name with
  | none => .ok ⟨id, none, flags⟩
  | some name =>
    match loaderName? name with
    | none => .error (.load name "data provided contains an interior nul byte")
    | some path =>
      match load path flags.native with
      | .ok () => .ok ⟨id, some name, flags⟩
      | .error message => .error (.load name message)

/-- The text of a library. -/
def describe (l : Library) : String :=
  s!"Library({nameOrProcess l.name}, {l.flags.describe})"

end Library

/-- An exported symbol of a library. -/
structure ExportedSymbol where
  library : Library
  name : String
  address : Nat

namespace ExportedSymbol

/-- The symbol of a name, if the process exports it. -/
def find? (exports : String → Option Nat) (library : Library) (name : String) :
    Option ExportedSymbol := do
  let address ← exports (← Library.loaderName? name)
  return ⟨library, name, address⟩

/-- An unbounded view at a symbol. -/
def view (s : ExportedSymbol) : View :=
  View.ofParts s.address unbounded 1 (some (.library s.library.id))

/-- The function at a symbol. -/
def toFunction (s : ExportedSymbol) (signature : Signature) : Function :=
  ⟨s.address, signature, none, some s.library.id⟩

end ExportedSymbol

end ForeignCall
