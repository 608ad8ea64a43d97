import ForeignCall.Fault
import ForeignCall.Layout.Lowering

/-!
# The pool of trampolines

A trampoline is a slot of executable memory with a fixed code address. Native code that calls the
address enters the closure that the slot is bound to at that moment. The system is asked for slots
one after another, a batch at a time (`Pool.grow`), and they are never given back to it: a slot that
is released goes to the front of the free list, and the next bind takes it from there.

What the system answers is a parameter (`CodeMemory`). It may have no memory for a batch, or only
for a part of it.

A slot of the free list has no binding, and a slot in use has one. `Pool.live` counts the bindings,
`Pool.inUse` the slots outside the free list. The code of a slot refers to the call interface of the
signature that it was last prepared with, also when the slot has been released and the signature is
held by nobody any more.

The directory has the callback bound last for a closure and a signature, without holding it.
-/

namespace ForeignCall

/-! ## The system's memory for code -/

/-- What the system answers when it is asked for slots, and what is relied on: slots are never given
back, so no code address is handed out twice, and a code address is a word other than null. -/
structure CodeMemory where
  /-- The code address of the slot that answers a request, counted from 0; nothing when there is no
  memory for one. -/
  code? : Nat → Option Nat
  distinct : ∀ i j code, code? i = some code → code? j = some code → i = j
  positive : ∀ i code, code? i = some code → 0 < code
  word : ∀ i code, code? i = some code → code < wordLimit

namespace CodeMemory

/-- The code address of a slot of memory in one piece. -/
def nthCode (i : Nat) : Nat := 0x700000000000 + 64 * i

/-- Memory in one piece, with room for four billion slots. -/
def consecutive : CodeMemory where
  code? := fun i => if i < 0x100000000 then some (nthCode i) else none
  distinct := fun i j code hi hj => by
    simp only [nthCode, Option.ite_none_right_eq_some, Option.some.injEq] at hi hj
    omega
  positive := fun i code hi => by
    simp only [nthCode, Option.ite_none_right_eq_some, Option.some.injEq] at hi
    omega
  word := fun i code hi => by
    simp only [nthCode, Option.ite_none_right_eq_some, Option.some.injEq] at hi
    unfold wordLimit
    omega

end CodeMemory

/-! ## Slots -/

/-- What a slot enters: a closure, with the signature by which native code calls it. -/
structure Binding where
  signature : Signature
  closure : Nat

/-- One trampoline. -/
structure Slot where
  code : Nat
  binding : Option Binding
  /-- The signature whose call interface the code was last prepared with, by its identity. -/
  interface : Option Nat

/-- What a callback is compiled for: a closure, and the identity of a signature. -/
abbrev CallbackKey := Nat × Nat

/-- The slots made so far, and those that are free, the most recently released one first. -/
structure Pool where
  memory : CodeMemory
  /-- How often the system has been asked for a slot. -/
  asked : Nat
  slots : Array Slot
  free : List Nat
  /-- How many slots are made at a time. -/
  batch : Nat
  /-- The callback that was bound last for a key. -/
  directory : List (CallbackKey × Nat)

namespace Pool

/-- Bytes of the record that the system needs for one slot. -/
def slotRecordSize : Nat := 56

/-! ## Growing -/

/-- The pool with the slot that the system has answered with. -/
def push (p : Pool) (code : Nat) : Pool :=
  { p with
    asked := p.asked + 1
    slots := p.slots.push ⟨code, none, none⟩
    free := p.slots.size :: p.free }

/-- The pool with at most `n` more free slots: as many as the system answers with before it has no
memory. -/
def extend (p : Pool) : Nat → Pool
  | 0 => p
  | n + 1 =>
    match p.memory.code? p.asked with
    | none => { p with asked := p.asked + 1 }
    | some code => (p.push code).extend n

/-- The pool with one more batch of free slots, or a part of one; without a single one, there is no
memory. -/
def grow (p : Pool) : Checked Unit × Pool :=
  let q := p.extend p.batch
  if q.slots.size = p.slots.size then (.error (.outOfMemory slotRecordSize), q) else (.ok (), q)

/-- The pool with a number of batches made in advance, up to the first that there is no memory
for. -/
def preallocate (p : Pool) : Nat → Pool
  | 0 => p
  | n + 1 =>
    match p.grow with
    | (.ok (), q) => q.preallocate n
    | (.error _, q) => q

/-- The pool of the settings; a batch is as large as asked for, else one page of records. -/
def start (memory : CodeMemory) (slotsPerBatch : Option Nat) (preallocated : Nat) : Pool :=
  let batch := Nat.max 1 (slotsPerBatch.getD (pageSize / slotRecordSize))
  Pool.preallocate ⟨memory, 0, #[], [], batch, []⟩ preallocated

/-! ## Taking and releasing slots -/

/-- The first free slot, taken off the free list. -/
def take (p : Pool) : Checked Nat × Pool :=
  match p.free with
  | [] => (.error (.runtime "trampoline pool exhausted"), p)
  | slot :: rest => (.ok slot, { p with free := rest })

/-- A free slot, taken off the free list; the pool grows when there is none. -/
def acquire (p : Pool) : Checked Nat × Pool :=
  if p.free.isEmpty then
    match p.grow with
    | (.error f, q) => (.error f, q)
    | (.ok (), q) => q.take
  else p.take

/-- The pool with the binding of one slot changed. -/
def rebind (p : Pool) (slot : Nat) (binding : Option Binding) : Pool :=
  { p with slots := p.slots.modify slot fun s => { s with binding } }

/-- The pool with the code of one slot prepared with the call interface of a signature. -/
def prepare (p : Pool) (slot signature : Nat) : Pool :=
  { p with slots := p.slots.modify slot fun s => { s with interface := some signature } }

/-- The pool after a slot has lost its binding and gone back to the free list. -/
def release (p : Pool) (slot : Nat) : Pool :=
  let p := p.rebind slot none
  { p with free := slot :: p.free }

/--
A slot bound to a closure. `prepared` is the system's answer when the slot is made executable for
the signature; a refusal gives the slot back.
-/
def bind (p : Pool) (signature : Signature) (closure : Nat) (prepared : Checked Unit) :
    Checked Nat × Pool :=
  match p.acquire with
  | (.error f, p) => (.error f, p)
  | (.ok slot, p) =>
    let p := p.rebind slot (some ⟨signature, closure⟩)
    match prepared with
    | .ok () => (.ok slot, p.prepare slot signature.id)
    | .error f => (.error f, p.release slot)

/-! ## The directory -/

/-- The pool with a callback bound for a key, in place of the one before. -/
def register (p : Pool) (key : CallbackKey) (callback : Nat) : Pool :=
  { p with directory := (key, callback) :: p.directory.filter fun e => e.1 != key }

/-- The pool after the callback of a key has gone: the entry for the key goes too, unless it is
that of another callback which has not. -/
def forget (p : Pool) (key : CallbackKey) (isGone : Nat → Bool) : Pool :=
  { p with directory := p.directory.filter fun e => !(e.1 == key && isGone e.2) }

/-! ## Looking -/

/-- The slot at a code address. -/
def slotAt? (p : Pool) (code : Nat) : Option Slot := p.slots.find? fun s => s.code == code

/-- The code address of a slot. -/
def codeAt (p : Pool) (slot : Nat) : Nat := (p.slots[slot]?.map Slot.code).getD 0

/-- The number of slots that are bound. -/
def live (p : Pool) : Nat := p.slots.countP fun s => s.binding.isSome

/-- The number of slots that are not free. -/
def inUse (p : Pool) : Nat := p.slots.size - p.free.length

end Pool

end ForeignCall
