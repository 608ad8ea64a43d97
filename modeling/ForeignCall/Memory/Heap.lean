import ForeignCall.Platform
import Std.Data.HashMap

/-!
# The heap

Bytes at addresses, and the supply of fresh addresses. A byte that nothing has written is zero.
Blocks are handed out at rising addresses and never twice, so a fresh block is zero and touches no
older one; the bytes of a block that has been given back stay where they are.

Each operation has one law through `get`: `get_set`, `get_store`, `get_obtain`.
-/

namespace ForeignCall

/-- Bytes at addresses; blocks are handed out from `next` on, as far as the system has memory. -/
structure Heap where
  bytes : Std.HashMap Nat UInt8
  next : Nat
  /-- Whether the system lacks memory for a block of a size, when blocks are handed out from an
  address on. -/
  lacks : Nat → Nat → Bool

namespace Heap

/-- A heap in which nothing is written, with blocks from `next` on. -/
def empty (next : Nat) (lacks : Nat → Nat → Bool) : Heap := ⟨∅, next, lacks⟩

/-- The byte at an address. -/
def get (h : Heap) (address : Nat) : UInt8 := h.bytes.getD address 0

/-- The heap with one byte written. -/
def set (h : Heap) (address : Nat) (b : UInt8) : Heap :=
  { h with bytes := h.bytes.insert address b }

theorem get_set (h : Heap) (a c : Nat) (b : UInt8) :
    (h.set a b).get c = if c = a then b else h.get c := by
  simp only [get, set, Std.HashMap.getD_insert, beq_iff_eq]
  split <;> split <;> simp_all

/-- The bytes from an address on. -/
def load (h : Heap) (address : Nat) : Nat → List UInt8
  | 0 => []
  | n + 1 => h.get address :: h.load (address + 1) n

@[simp] theorem length_load (h : Heap) (a n : Nat) : (h.load a n).length = n := by
  induction n generalizing a with
  | zero => rfl
  | succ n ih => simp [load, ih]

theorem getElem?_load (h : Heap) (a n i : Nat) (hi : i < n) :
    (h.load a n)[i]? = some (h.get (a + i)) := by
  induction n generalizing a i with
  | zero => omega
  | succ n ih =>
    cases i with
    | zero => simp [load]
    | succ i =>
      rw [load, List.getElem?_cons_succ, ih (a + 1) i (by omega)]
      congr 2
      omega

/-- The heap with bytes written from an address on. -/
def store (h : Heap) (address : Nat) : List UInt8 → Heap
  | [] => h
  | b :: bs => (h.set address b).store (address + 1) bs

theorem get_store (h : Heap) (a c : Nat) (bs : List UInt8) :
    (h.store a bs).get c = if a ≤ c ∧ c < a + bs.length then bs.getD (c - a) 0 else h.get c := by
  induction bs generalizing h a with
  | nil =>
    have h1 : ¬(a ≤ c ∧ c < a + ([] : List UInt8).length) := by
      rw [List.length_nil]
      omega
    rw [if_neg h1]
    rfl
  | cons b bs ih =>
    have hlen : (b :: bs).length = bs.length + 1 := rfl
    rw [store, ih, get_set]
    by_cases h1 : c = a
    · subst h1
      have h2 : ¬(c + 1 ≤ c ∧ c < c + 1 + bs.length) := by omega
      have h3 : c ≤ c ∧ c < c + (b :: bs).length := by omega
      rw [if_neg h2, if_pos rfl, if_pos h3, Nat.sub_self]
      rfl
    · by_cases h2 : a + 1 ≤ c ∧ c < a + 1 + bs.length
      · have h3 : a ≤ c ∧ c < a + (b :: bs).length := by omega
        have h4 : c - a = (c - (a + 1)) + 1 := by omega
        rw [if_pos h2, if_pos h3, h4]
        rfl
      · have h3 : ¬(a ≤ c ∧ c < a + (b :: bs).length) := by omega
        rw [if_neg h2, if_neg h3, if_neg h1]

@[simp] theorem next_store (h : Heap) (a : Nat) (bs : List UInt8) :
    (h.store a bs).next = h.next := by
  induction bs generalizing h a with
  | nil => rfl
  | cons b bs ih => simp [store, ih, set]

/-- Whether a block of a size is refused: no block is larger than the largest signed word, and the
system may lack the memory. -/
def refuses (h : Heap) (size : Nat) : Bool := decide (signedLimit ≤ size) || h.lacks h.next size

theorem lt_signedLimit_of_refuses {h : Heap} {size : Nat} (hr : h.refuses size = false) :
    size < signedLimit := by
  unfold refuses at hr
  simp only [Bool.or_eq_false_iff, decide_eq_false_iff_not, Nat.not_le] at hr
  exact hr.1

/-- A fresh block of the given size: its address, and the heap that has handed it out. -/
def obtain (h : Heap) (size : Nat) : Nat × Heap :=
  (h.next, { h with next := roundUp (h.next + size + 1) 16 })

@[simp] theorem get_obtain (h : Heap) (size c : Nat) : (h.obtain size).2.get c = h.get c := rfl

theorem next_obtain (h : Heap) (size : Nat) : h.next + size < (h.obtain size).2.next :=
  Nat.lt_of_lt_of_le (Nat.lt_succ_self _) (le_roundUp _ (by decide))

/-- The bytes from an address up to the first zero byte, or to the end of the address space. -/
def cString (h : Heap) (address : Nat) : List UInt8 :=
  if address < wordLimit then
    if h.get address = 0 then [] else h.get address :: h.cString (address + 1)
  else []
termination_by wordLimit - address

end Heap

end ForeignCall
