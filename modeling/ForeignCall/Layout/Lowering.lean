import ForeignCall.Abi.Record
import ForeignCall.Ty.Basic

/-!
# The record of a layout

`Ty.record` describes a type to the calling convention. A layout whose fields stand where the C
rule puts them is described field by field. Any other layout (a union, a packed struct, one with
offsets or an alignment of its own) is cut into chunks as wide as its alignment, at most 8 bytes.
A chunk that holds only floats at their natural alignment becomes floats, any other an unsigned
integer, so that the bytes travel in the registers in which a C compiler passes them.
-/

namespace ForeignCall

open Abi

/-! ## What lies in the bytes of a layout -/

/-- What occupies a byte, as far as the passing of arguments goes. -/
inductive Occupant where
  | padding
  | integer
  | float32
  | float64
  /-- Floats of both widths on top of each other, in a union. -/
  | mixedFloat
  deriving DecidableEq, Repr

/-- What two occupants of the same byte amount to. -/
def Occupant.merge : Occupant → Occupant → Occupant
  | .padding, c => c
  | c, .padding => c
  | .integer, _ => .integer
  | _, .integer => .integer
  | a, b => if a = b then a else .mixedFloat

/-- A scalar member of a type, at its offset from the start of the layout. -/
structure Member where
  offset : Nat
  width : Nat
  occupant : Occupant
  deriving DecidableEq, Repr

/-- A float counts as one only where it is naturally aligned. -/
def Member.ofFloat (offset : Nat) (k : FloatKind) : Member :=
  if offset % k.bytes = 0 then
    ⟨offset, k.bytes, match k with | .float32 => .float32 | .float64 => .float64⟩
  else ⟨offset, k.bytes, .integer⟩

mutual
/-- The scalar members of a type that begins at `start`. -/
def Ty.membersFrom (start : Nat) : Ty → List Member
  | .builtin (.float k) => [Member.ofFloat start k]
  | .builtin b => [⟨start, b.size, .integer⟩]
  | .struct l => l.membersFrom start
  | .array c n => (List.range n).flatMap fun i => c.membersFrom (start + i * c.size)
  | .charArray n => [⟨start, n, .integer⟩]
  | .enumeration _ => [⟨start, 4, .integer⟩]
  | .callback _ => [⟨start, addressSize, .integer⟩]

/-- The scalar members of a layout that begins at `start`. -/
def Layout.membersFrom (start : Nat) : Layout → List Member
  | ⟨fields, _, _, _, _⟩ => fieldMembersFrom start fields

/-- The scalar members of fields of a layout that begins at `start`. -/
def fieldMembersFrom (start : Nat) : List Field → List Member
  | [] => []
  | ⟨_, offset, ty⟩ :: rest => ty.membersFrom (start + offset) ++ fieldMembersFrom start rest
end

/-- Whether a member has a byte among the `width` bytes from `start` on. -/
def Member.overlaps (m : Member) (start width : Nat) : Bool :=
  m.offset < start + width && start < m.offset + m.width

/-- What occupies the `width` bytes from `start` on. -/
def occupantOf (members : List Member) (start width : Nat) : Occupant :=
  (members.filter fun m => m.overlaps start width).foldl (fun c m => c.merge m.occupant) .padding

/-! ## Chunks -/

/-- Whether a number of at most 8 is a power of two. -/
def isSmallPower (n : Nat) : Bool := n == 1 || n == 2 || n == 4 || n == 8

/-- The width of the chunks of a layout: its alignment, at most 8, and 1 if no power of two. -/
def chunkWidth (alignment : Nat) : Nat :=
  let width := Nat.min alignment 8
  if isSmallPower width then width else 1

/-- The unsigned integer for a chunk; a width that no integer has takes the widest. -/
def unsignedRecord (width : Nat) : Record :=
  .int ⟨false, match width with | 1 => .w8 | 2 => .w16 | 4 => .w32 | _ => .w64⟩

/-- The elements that describe one chunk. -/
def chunkRecords (occupant : Occupant) (width : Nat) : List Record :=
  match occupant with
  | .float32 =>
    if width % 4 = 0 then List.replicate (width / 4) (.float .float32) else [unsignedRecord width]
  | .float64 => if width = 8 then [.float .float64] else [unsignedRecord width]
  | .mixedFloat => if width = 8 then [.float .float64] else [unsignedRecord width]
  | _ => [unsignedRecord width]

/-- The record of `size` bytes cut into chunks. -/
def chunkedRecord (members : List Member) (size alignment : Nat) : Record :=
  let width := chunkWidth alignment
  .struct <| (List.range ((size + width - 1) / width)).flatMap fun i =>
    let start := i * width
    let chunk := Nat.min width (size - start)
    chunkRecords (occupantOf members start chunk) chunk

mutual
/-- The record of a type. -/
def Ty.record : Ty → Record
  | .builtin (.int k) => .int k
  | .builtin (.float k) => .float k
  | .builtin .bool => .int .int32
  | .builtin (.pointer _) => .address
  | .builtin .string => .address
  | .builtin .void => .struct []
  | .builtin .varargs => .struct []
  | .struct l => l.record
  | .array c n => .repeated c.record n
  | .charArray n => .repeated (.int ⟨true, .w8⟩) n
  | .enumeration _ => .int .int32
  | .callback _ => .address

/-- The record of a layout. -/
def Layout.record : Layout → Record
  | ⟨fields, size, alignment, _, natural⟩ =>
    if natural then .struct (fieldRecords fields)
    else chunkedRecord (fieldMembersFrom 0 fields) size alignment

/-- The records of fields, in order. -/
def fieldRecords : List Field → List Record
  | [] => []
  | ⟨_, _, ty⟩ :: rest => ty.record :: fieldRecords rest
end

end ForeignCall
