import ForeignCall.Abi.Record
import ForeignCall.Bytes

/-!
# Passing arguments and results

How the bytes of arguments and results travel through a call. An aggregate of at most 16 bytes is
cut into eightbytes; one that holds an integer goes to a general register, one that holds only
floats to a floating-point register (`Record.lanes`). Larger aggregates, and arguments for which
not enough registers are left, go to the stack as a whole.

`Call.push` puts one argument where the convention wants it, `Call.pop` takes the next one out, and
`Call.pushAll` and `Call.popAll` do so for a list. A call is a value: registers and stack are lists
of eightbytes, in order of use.
-/

namespace ForeignCall.Abi

/-- The kind of register that an eightbyte travels in. -/
inductive Lane where
  | general
  | float
  deriving DecidableEq, Repr

namespace Record

/-- The register of the eightbyte that begins at `start`. -/
def laneAt (leaves : List Leaf) (start : Nat) : Lane :=
  if leaves.any fun l => !l.isFloat && l.offset < start + 8 && start < l.offset + l.width then
    .general
  else .float

/-- The registers of the eightbytes of a record, unless it travels in memory. -/
def lanes (r : Record) : Option (List Lane) :=
  if r.size ≤ 16 then
    let leaves := r.leaves 0
    some ((List.range ((r.size + 7) / 8)).map fun i => laneAt leaves (8 * i))
  else none

/-- Whether a result of this record is written through a hidden pointer. -/
def inMemory (r : Record) : Bool := r.lanes.isNone

/-- The bytes of an argument as eightbytes; a small integer is widened by its sign. -/
def eightbytes (r : Record) (bytes : List UInt8) : List (List UInt8) :=
  match r with
  | .int k => [Bytes.ofInt 8 (k.ofBits (Bytes.toNat (Bytes.fit k.bytes bytes)))]
  | r => Bytes.words 8 (Bytes.fit r.size bytes)

end Record

/-! ## Calls -/

/-- An eightbyte. -/
abbrev Eightbyte : Type := List UInt8

/-- The registers and the stack of one call. -/
structure Call where
  general : List Eightbyte
  float : List Eightbyte
  stack : List Eightbyte
  deriving DecidableEq, Repr

/-- How many registers of each kind a call has. -/
def generalRegisters : Nat := 6

/-- How many floating-point registers a call has. -/
def floatRegisters : Nat := 8

namespace Call

/-- A call without arguments. -/
def empty : Call := ⟨[], [], []⟩

/-- How many eightbytes of a list of lanes go to each kind of register. -/
def demand (lanes : List Lane) : Nat × Nat :=
  (lanes.count .general, lanes.count .float)

/-- Eightbytes put at the end of the registers of their lanes. -/
def fill (c : Call) : List (Lane × Eightbyte) → Call
  | [] => c
  | (.general, w) :: rest => fill { c with general := c.general ++ [w] } rest
  | (.float, w) :: rest => fill { c with float := c.float ++ [w] } rest

/-- One more argument. -/
def push (c : Call) (r : Record) (bytes : List UInt8) : Call :=
  let words := r.eightbytes bytes
  match r.lanes with
  | none => { c with stack := c.stack ++ words }
  | some lanes =>
    let (general, float) := demand lanes
    if c.general.length + general ≤ generalRegisters && c.float.length + float ≤ floatRegisters then
      c.fill (lanes.zip words)
    else { c with stack := c.stack ++ words }

/-- The call with the given arguments; a result in memory takes the first general register. -/
def pushAll (result : Record) (arguments : List (Record × List UInt8)) : Call :=
  let start := if result.inMemory then { empty with general := [Bytes.zeros 8] } else empty
  arguments.foldl (fun c a => c.push a.1 a.2) start

end Call

/-! ## Taking arguments out -/

/-- What of a call is still to be taken, and how many registers of each kind have been used. -/
structure Cursor where
  general : List Eightbyte
  float : List Eightbyte
  stack : List Eightbyte
  usedGeneral : Nat
  usedFloat : Nat
  deriving DecidableEq, Repr

namespace Cursor

/-- The eightbytes of the given lanes, taken from the front of the registers. -/
def drain (c : Cursor) : List Lane → List UInt8 × Cursor
  | [] => ([], c)
  | .general :: rest =>
    let (bytes, c') := drain
      { c with general := c.general.tail, usedGeneral := c.usedGeneral + 1 } rest
    (c.general.headD (Bytes.zeros 8) ++ bytes, c')
  | .float :: rest =>
    let (bytes, c') := drain { c with float := c.float.tail, usedFloat := c.usedFloat + 1 } rest
    (c.float.headD (Bytes.zeros 8) ++ bytes, c')

/-- The eightbytes of an argument on the stack. -/
def takeStack (c : Cursor) (size : Nat) : List UInt8 × Cursor :=
  let count := (size + 7) / 8
  ((c.stack.take count).flatten, { c with stack := c.stack.drop count })

/-- The bytes of the next argument. -/
def pop (c : Cursor) (r : Record) : List UInt8 × Cursor :=
  let (bytes, c') := match r.lanes with
    | none => c.takeStack r.size
    | some lanes =>
      let (general, float) := Call.demand lanes
      if c.usedGeneral + general ≤ generalRegisters && c.usedFloat + float ≤ floatRegisters then
        c.drain lanes
      else c.takeStack r.size
  (Bytes.fit r.size bytes, c')

/-- The bytes of the next arguments. -/
def popAll (c : Cursor) : List Record → List (List UInt8) × Cursor
  | [] => ([], c)
  | r :: rest =>
    let (bytes, c₁) := c.pop r
    let (others, c₂) := c₁.popAll rest
    (bytes :: others, c₂)

end Cursor

/-- The start of a call, past the hidden pointer of a result in memory. -/
def Call.cursor (c : Call) (result : Record) : Cursor :=
  if result.inMemory then ⟨c.general.tail, c.float, c.stack, 1, 0⟩
  else ⟨c.general, c.float, c.stack, 0, 0⟩

/-! ## Results -/

/-- The registers after a call, and what was written through the hidden pointer. -/
structure Returned where
  general : List Eightbyte
  float : List Eightbyte
  memory : List UInt8
  deriving DecidableEq, Repr

namespace Returned

/-- Eightbytes put at the end of the return registers of their lanes. -/
def fill (r : Returned) : List (Lane × Eightbyte) → Returned
  | [] => r
  | (.general, w) :: rest => fill { r with general := r.general ++ [w] } rest
  | (.float, w) :: rest => fill { r with float := r.float ++ [w] } rest

/-- The result with the given bytes. What goes to memory is written there as it is: the storage is
that of the type, which may be larger than its record. -/
def ofBytes (result : Record) (bytes : List UInt8) : Returned :=
  match result.lanes with
  | none => ⟨[], [], bytes⟩
  | some lanes => fill ⟨[], [], []⟩ (lanes.zip (result.eightbytes bytes))

/-- The bytes of a result: the eightbytes of its lanes, or what was written to memory. -/
def toBytes (result : Record) (r : Returned) : List UInt8 :=
  match result.lanes with
  | none => r.memory
  | some lanes => Bytes.fit result.size ((Cursor.mk r.general r.float [] 0 0).drain lanes).1

end Returned

end ForeignCall.Abi
