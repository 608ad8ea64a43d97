import ForeignCall.World

/-!
# Waiting for a blocking call

The caller of a blocking call is parked while a helper thread runs the native code. It wakes up at
regular intervals, and when an interrupt has been requested by then it runs the unblock function of
the interrupt, once. `Parked.await` says what a parked caller makes of any sequence of signals.
-/

namespace ForeignCall

/-- A caller that waits for a helper: the interrupt that it watches, and whether it has run the
unblock function of it. -/
structure Parked where
  interrupt : Option Nat
  unblocked : Bool
  deriving DecidableEq, Repr

/-- What reaches a parked caller. -/
inductive Signal (α : Type) where
  /-- The interrupt is requested. -/
  | requested
  /-- The interval is over. -/
  | timeout
  /-- The helper delivers its result. -/
  | delivered (a : α)
  /-- The helper ends without a result. -/
  | lost

namespace Parked

/-- A caller that begins to wait. -/
def start (interrupt : Option Nat) : Parked := ⟨interrupt, false⟩

/-- The interrupt whose unblock function has to be run at the end of an interval. -/
def due? (p : Parked) (requested : Nat → Bool) : Option Nat :=
  if p.unblocked then none else p.interrupt.filter requested

/-- How often a parked caller runs the unblock function during a sequence of signals, and with what
it returns if it does. -/
def await {α : Type} (p : Parked) (requested : Bool) : List (Signal α) → Nat × Option (Checked α)
  | [] => (0, none)
  | .requested :: rest => await p true rest
  | .timeout :: rest =>
    match p.due? fun _ => requested with
    | some _ =>
      let (count, answer) := await { p with unblocked := true } requested rest
      (count + 1, answer)
    | none => await p requested rest
  | .delivered a :: _ => (0, some (.ok a))
  | .lost :: _ => (0, some (.error (.runtime "blocking call panicked")))

end Parked

namespace World

/-- Whether an interrupt has been requested. -/
def isRequested (w : World) (interrupt : Nat) : Bool :=
  (w.interrupts[interrupt]?.map Interrupt.requested).getD false

/-- The world after the unblock function of an interrupt has run, if it has one; a write that fails
is dropped. -/
def unblock (w : World) (interrupt : Nat) : World :=
  match w.interrupts[interrupt]?.bind Interrupt.unblock with
  | some (v, offset) =>
    let w := { w with events := w.events.push (.unblocked interrupt) }
    match w.memory.writeBytes v offset [1] with
    | .ok memory => { w with memory }
    | .error _ => w
  | none => w

end World

end ForeignCall
