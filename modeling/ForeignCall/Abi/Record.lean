import ForeignCall.Kind

/-!
# Type records

The description of a type that the calling convention works with: scalars, and structs as lists of
element records laid out by the C rule. Each element stands at the running size rounded up to the
element's alignment, the record is aligned as its strictest element, and its size is rounded up to
that alignment.

A record says nothing of field names, unions or packing. A layout that the C rule cannot reproduce
is described by another record that covers the same bytes (see `ForeignCall.Layout.Lowering`).
-/

namespace ForeignCall.Abi

/-- A type as the calling convention sees it. -/
inductive Record where
  | int (kind : IntKind)
  | float (kind : FloatKind)
  | address
  /-- Elements one after another; without elements, nothing at all. -/
  | struct (elements : List Record)
  /-- A struct of `count` copies of one element. -/
  | repeated (element : Record) (count : Nat)

namespace Record

/-! ## The C rule -/

mutual
/-- The alignment of a record: that of its strictest element. -/
def alignment : Record → Nat
  | int k => k.bytes
  | float k => k.bytes
  | address => addressSize
  | struct es => strictest es
  | repeated e _ => e.alignment

/-- The greatest alignment in a list of records, at least 1. -/
def strictest : List Record → Nat
  | [] => 1
  | e :: es => Nat.max e.alignment (strictest es)
end

mutual
/-- The size of a record, a multiple of its alignment. -/
def size : Record → Nat
  | int k => k.bytes
  | float k => k.bytes
  | address => addressSize
  | struct es => roundUp (extent 0 es) (strictest es)
  | repeated e n => n * e.size

/-- The end of elements laid out from `start` on. -/
def extent (start : Nat) : List Record → Nat
  | [] => start
  | e :: es => extent (roundUp start e.alignment + e.size) es
end

/-- The offsets of elements laid out from `start` on. -/
def offsets (start : Nat) : List Record → List Nat
  | [] => []
  | e :: es =>
    let offset := roundUp start e.alignment
    offset :: offsets (offset + e.size) es

mutual
theorem alignment_pos : (r : Record) → 0 < r.alignment
  | int k => k.width.bytes_pos
  | float k => by cases k <;> decide
  | address => by decide
  | struct es => strictest_pos es
  | repeated e _ => alignment_pos e

theorem strictest_pos : (es : List Record) → 0 < strictest es
  | [] => Nat.one_pos
  | e :: _ => Nat.lt_of_lt_of_le (alignment_pos e) (Nat.le_max_left ..)
end

/-! ## Scalars of a record -/

/-- A scalar inside a record: where it begins, its width, and whether it is a float. -/
structure Leaf where
  offset : Nat
  width : Nat
  isFloat : Bool
  deriving DecidableEq, Repr

mutual
/-- The scalars of a record that begins at `start`. -/
def leaves (start : Nat) : Record → List Leaf
  | int k => [⟨start, k.bytes, false⟩]
  | float k => [⟨start, k.bytes, true⟩]
  | address => [⟨start, addressSize, false⟩]
  | struct es => elementLeaves start 0 es
  | repeated e n => (List.range n).flatMap fun i => e.leaves (start + i * e.size)

/-- The scalars of elements laid out from `used` on, in a record that begins at `start`. -/
def elementLeaves (start used : Nat) : List Record → List Leaf
  | [] => []
  | e :: es =>
    let offset := roundUp used e.alignment
    e.leaves (start + offset) ++ elementLeaves start (offset + e.size) es
end

end Record

end ForeignCall.Abi
