import ForeignCall.Ty.Registry

/-!
# Building layouts

`LayoutPlan.build` places the declared fields of a struct or union. Without an offset of its own a
field of a struct stands at the end of what is placed so far, rounded up to the field's alignment;
every field of a union stands at 0. A packed plan caps the alignments, an explicit alignment raises
that of the whole.

The declarations are taken in order (`Placement.add`), so the first fault in that order is the
answer. All sums are formed in words: one that overflows aborts the build.
-/

namespace ForeignCall

/-- A field as it is declared. -/
structure Declaration where
  name : String
  spec : TypeSpec
  /-- An offset to keep, in place of the computed one. -/
  offset : Option Nat

/-- What a layout is to be built from. -/
structure LayoutPlan where
  declarations : List Declaration
  isUnion : Bool
  /-- The greatest alignment of a field. -/
  packed : Option Nat
  /-- The least alignment of the whole. -/
  alignment : Option Nat
  typedefs : TypeMap

/-- The fields placed so far. -/
structure Placement where
  fields : List Field
  size : Nat
  alignment : Nat
  natural : Bool

namespace LayoutPlan

/-- The cap on alignments; a cap of 0 counts as 1. -/
def cap (p : LayoutPlan) : Option Nat := p.packed.map (Nat.max 1)

/-- The alignment that a field of a type is given. -/
def fieldAlignment (p : LayoutPlan) (ty : Ty) : Nat :=
  match p.cap with
  | some cap => Nat.min ty.alignment cap
  | none => ty.alignment

/-- The offset of the next field, and whether it is the one the C rule gives. -/
def placeAt (p : LayoutPlan) (placed : Placement) (ty : Ty) (offset : Option Nat) :
    Outcome (Nat × Bool) :=
  if p.isUnion then return (0, true)
  else do
    let computed ← orOverflow (alignUp placed.size (p.fieldAlignment ty))
    match offset with
    | some explicit => return (explicit, explicit == computed)
    | none => return (computed, true)

end LayoutPlan

/-- The placement after one more declaration. -/
def Placement.add (p : LayoutPlan) (placed : Placement) (d : Declaration) : Outcome Placement := do
  let ty := (← (d.spec.resolve p.typedefs).outcome).ty
  if ty.size = 0 then
    refuse (.runtime s!"type of field '{d.name}' has zero size")
  let (offset, natural) ← p.placeAt placed ty d.offset
  let fieldEnd ← orOverflow (addWords offset ty.size)
  if placed.fields.any fun f => f.name == d.name then
    refuse (.argument s!"duplicate field name '{d.name}'")
  if (Accessor.ofTy? ty).isNone then
    refuse (.argument s!"{ty.kind.name} is not a valid field type")
  return {
    fields := placed.fields ++ [⟨d.name, offset, ty⟩]
    size := Nat.max placed.size fieldEnd
    alignment := Nat.max placed.alignment (p.fieldAlignment ty)
    natural := placed.natural && natural }

namespace LayoutPlan

/-- The placement of no fields. -/
def start (p : LayoutPlan) : Placement := ⟨[], 0, 1, p.packed.isNone⟩

/-- The layout that a plan describes. Working out the record of one that is cut into chunks takes
as much memory as the layout has bytes. That is taken to be there, for any number of bytes. -/
def build (p : LayoutPlan) : Outcome Layout := do
  let placed ← p.declarations.foldlM (Placement.add p) p.start
  let least := (p.alignment.map (Nat.max 1)).getD 1
  let alignment := Nat.max placed.alignment least
  let size ← orOverflow (alignUp placed.size alignment)
  if size = 0 then
    refuse (.runtime "struct size is zero")
  return {
    fields := placed.fields
    size
    alignment
    isUnion := p.isUnion
    natural := placed.natural && decide (least ≤ placed.alignment) && !p.isUnion }

/-- A plan of fields alone. -/
def ofFields (declarations : List Declaration) (isUnion : Bool) : LayoutPlan :=
  { declarations, isUnion, packed := none, alignment := none, typedefs := .empty }

end LayoutPlan

end ForeignCall
