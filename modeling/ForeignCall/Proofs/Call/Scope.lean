import ForeignCall.Call.Run

/-!
# Scopes of parked faults

The parked fault and the number of calls in progress are one cell each, and every call in progress
writes to them. `Run.Parks x faults` says what a run makes of the cells it starts with: in every
scope it gives the same answer and changes the rest of the machine in the same way, it leaves the
number of calls alone, and it parks the first of `faults` where nothing is parked yet. `Run.Neutral`
is the case without faults: the run neither reads the cells nor changes them.

The faults themselves are read off the run: those of native code are the faults of the closures that
it enters directly (`Native.faults`, `Environment.faultsWithin`).
-/

namespace ForeignCall

open Abi

/-! ## Scopes -/

/-- The machine with another parked fault and another number of calls in progress. -/
def Machine.scoped (m : Machine) (pending : Option Fault) (depth : Nat) : Machine :=
  { m with thread := { m.thread with pending, depth } }

@[simp] theorem Machine.scoped_self (m : Machine) :
    m.scoped m.thread.pending m.thread.depth = m := rfl

/-- What is parked after faults have been parked one after another. -/
def parkedAfter (pending : Option Fault) (depth : Nat) (faults : List Fault) : Option Fault :=
  if depth = 0 then pending else pending <|> faults.head?

@[simp] theorem parkedAfter_nil (p : Option Fault) (d : Nat) : parkedAfter p d [] = p := by
  unfold parkedAfter
  split
  · rfl
  · cases p <;> rfl

/-- Outside any call nothing is parked. -/
@[simp] theorem parkedAfter_zero (p : Option Fault) (l : List Fault) : parkedAfter p 0 l = p := rfl

theorem parkedAfter_append (p : Option Fault) (d : Nat) (l l' : List Fault) :
    parkedAfter p d (l ++ l') = parkedAfter (parkedAfter p d l) d l' := by
  unfold parkedAfter
  split
  · rfl
  · cases p with
    | some f => rfl
    | none => cases l <;> rfl

/-! ## Runs in a scope -/

namespace Run

variable {α β γ : Type}

/-- What a function says of the machine that a run leaves, and of its answer. -/
def after (x : Run α) (f : α → Machine → List γ) : Machine → List γ := fun m =>
  match x m with
  | some (a, m') => f a m'
  | none => []

/-- In every scope a run gives the same answer and parks the first of its faults. -/
structure Parks (x : Run α) (faults : Machine → List Fault) : Prop where
  run : ∀ m p d, x (m.scoped p d) =
    (x m).map fun r => (r.1, r.2.scoped (parkedAfter p d (faults m)) d)
  faults : ∀ m p d, faults (m.scoped p d) = faults m

/-- A run that neither reads nor changes what is parked and how many calls are in progress. -/
def Neutral (x : Run α) : Prop := x.Parks fun _ => []

variable {x : Run α} {k : α → Run β} {fx : Machine → List Fault} {g : α → Machine → List Fault}

/-- A run keeps the number of calls, and what is parked after it is what was parked before or the
first of its faults. -/
theorem Parks.scope (hx : x.Parks fx) {m m' : Machine} {a : α} (h : x m = some (a, m')) :
    m' = m'.scoped (parkedAfter m.thread.pending m.thread.depth (fx m)) m.thread.depth := by
  have hr := hx.run m m.thread.pending m.thread.depth
  rw [Machine.scoped_self, h, Option.map_some, Option.some.injEq, Prod.mk.injEq] at hr
  exact hr.2

theorem Neutral.run (hx : x.Neutral) (m : Machine) (p : Option Fault) (d : Nat) :
    x (m.scoped p d) = (x m).map fun r => (r.1, r.2.scoped p d) := by
  rw [Parks.run hx, parkedAfter_nil]

theorem Neutral.mk (h : ∀ m p d, x (m.scoped p d) = (x m).map fun r => (r.1, r.2.scoped p d)) :
    x.Neutral where
  run := fun m p d => by rw [h, parkedAfter_nil]
  faults := fun _ _ _ => rfl

theorem neutral_pure (a : α) : Neutral (pure a : Run α) := .mk fun _ _ _ => rfl

theorem neutral_stuck : Neutral (stuck : Run α) := .mk fun _ _ _ => rfl

theorem neutral_act (a : Act α) : Neutral (act a) := .mk fun _ _ _ => rfl

theorem neutral_change (f : World → World) : Neutral (change f) := .mk fun _ _ _ => rfl

theorem neutral_poll : Neutral (modify Machine.poll : Run PUnit) := .mk fun _ _ _ => rfl

/-- A change of the thread that leaves the two cells alone. -/
theorem neutral_onThread {f : Thread → Thread}
    (h : ∀ t p d, f { t with pending := p, depth := d } =
      { f t with pending := p, depth := d }) : Neutral (onThread f) := by
  refine .mk fun m p d => ?_
  show some ((), Machine.mk m.world (f { m.thread with pending := p, depth := d }) m.parked) = _
  rw [h]
  rfl

theorem Parks.congr {fx' : Machine → List Fault} (hx : x.Parks fx) (h : ∀ m, fx m = fx' m) :
    x.Parks fx' := by
  rw [← funext h]
  exact hx

/-- One run after another parks the faults of the first, then those of the second. -/
theorem Parks.bind (hx : x.Parks fx) (hk : ∀ a, (k a).Parks (g a)) :
    Parks (x >>= k) fun m => fx m ++ after x g m where
  run := fun m p d => by
    show (x (m.scoped p d)).bind (fun r => k r.1 r.2) = Option.map _ ((x m).bind fun r => k r.1 r.2)
    rw [hx.run]
    rcases hm : x m with - | ⟨a, m'⟩
    · rfl
    · show k a (m'.scoped _ d) = Option.map _ (k a m')
      rw [(hk a).run]
      simp only [after, hm, parkedAfter_append]
  faults := fun m p d => by
    rw [hx.faults]
    unfold after
    rw [hx.run]
    rcases x m with - | ⟨a, m'⟩
    · rfl
    · show fx m ++ g a (m'.scoped _ d) = _
      rw [(hk a).faults]

/-- A neutral run in front adds no fault. -/
theorem Neutral.bind_parks (hx : x.Neutral) (hk : ∀ a, (k a).Parks (g a)) :
    Parks (x >>= k) (after x g) :=
  (Parks.bind hx hk).congr fun _ => List.nil_append _

theorem Neutral.bind (hx : x.Neutral) (hk : ∀ a, (k a).Neutral) : Neutral (x >>= k) := by
  refine (hx.bind_parks hk).congr fun m => ?_
  unfold after
  split <;> rfl

/-- A neutral run behind adds no fault. -/
theorem Parks.bind_neutral (hx : x.Parks fx) (hk : ∀ a, (k a).Neutral) : Parks (x >>= k) fx := by
  refine (hx.bind hk).congr fun m => ?_
  have : after x (fun _ _ => ([] : List Fault)) m = [] := by
    unfold after
    split <;> rfl
  rw [this, List.append_nil]

/-- A run that first looks at the machine, but not at the two cells. -/
theorem parks_get {k : Machine → Run α} {g : Machine → Machine → List Fault}
    (hk : ∀ m, (k m).Parks (g m)) (hs : ∀ m p d, k (m.scoped p d) = k m)
    (hf : ∀ m p d, g (m.scoped p d) = g m) :
    Parks (get >>= k) fun m => g m m where
  run := fun m p d => by
    show k (m.scoped p d) (m.scoped p d) = Option.map _ (k m m)
    rw [hs, (hk m).run]
  faults := fun m p d => by
    rw [hf, (hk m).faults]

theorem neutral_get {k : Machine → Run α} (hk : ∀ m, (k m).Neutral)
    (hs : ∀ m p d, k (m.scoped p d) = k m) : Neutral (get >>= k) :=
  parks_get hk hs fun _ _ _ => rfl

/-- A parked fault is the only fault of parking it. -/
theorem parks_park (f : Fault) : Parks (park f) fun _ => [f] where
  run := fun m p d => by
    show some ((), { m with thread := Thread.park { m.thread with pending := p, depth := d } f }) =
      some ((), ({ m with thread := m.thread.park f } : Machine).scoped (parkedAfter p d [f]) d)
    unfold Thread.park parkedAfter
    by_cases hd : d = 0 <;> by_cases hm : m.thread.depth = 0 <;> simp [hd, hm, Machine.scoped]
  faults := fun _ _ _ => rfl

/-- Another thread does not see the cells of the caller. -/
theorem neutral_onHelper (x : Run α) (interrupt : Option Nat) : Neutral (onHelper interrupt x) := by
  refine .mk fun m p d => ?_
  show Option.bind (x ⟨m.world, .start, .start interrupt :: m.parked⟩) _ =
    Option.map _ (Option.bind (x ⟨m.world, .start, .start interrupt :: m.parked⟩) _)
  rcases x ⟨m.world, .start, .start interrupt :: m.parked⟩ with - | ⟨a, m'⟩ <;> rfl

end Run

/-! ## The faults of native code -/

/-- Native code that waits, until it goes on. -/
def Native.await (address : Nat) : Run Unit := do
  if (← get).world.memory.heap.get address = 0 then
    modify Machine.poll
    if (← get).world.memory.heap.get address = 0 then Run.stuck

/-- The faults of the closures that native code enters directly, first to last; `faults` tells them
for the code at an address. -/
def Native.faults (enter : Enter) (faults : Nat → Call → Machine → List Fault) :
    Native → Machine → List Fault
  | .finish _ => fun _ => []
  | .look next => fun m => (next m.world.memory.heap).faults enter faults m
  | .store address bytes next =>
    Run.after (Run.change fun w =>
      { w with memory := { w.memory with heap := w.memory.heap.store address bytes } })
      fun _ => next.faults enter faults
  | .readErrno next => fun m => (next m.thread.osErrno).faults enter faults m
  | .setErrno code next =>
    Run.after (Run.onThread fun t => { t with osErrno := code }) fun _ => next.faults enter faults
  | .report name items next =>
    Run.after (Run.change fun w => { w with events := w.events.push (.reported name items) })
      fun _ => next.faults enter faults
  | .enter address result arguments next => fun m =>
    faults address (Call.pushAll result arguments) m ++
      Run.after (enter address (Call.pushAll result arguments))
        (fun returned => (next (returned.toBytes result)).faults enter faults) m
  | .wait address next => Run.after (Native.await address) fun _ => next.faults enter faults

/-- The fault of a trampoline that is entered with a call, if its closure fails. Whatever the calls
that the closure makes fail with is the closure's own affair. -/
def Slot.faults (s : Slot) (env : Environment) (callFunction : CallFunction) (call : Call) :
    Machine → List Fault :=
  match s.binding with
  | none =>
    match s.result? env with
    | none => fun _ => []
    | some _ => fun _ => [.runtime "callback invoked after release"]
  | some b =>
    let (arguments, _) :=
      (call.cursor b.signature.ret.record).popAll (b.signature.params.map Ty.record)
    Run.after (b.run env callFunction arguments (Bytes.zeros b.signature.ret.resultSize))
      fun outcome _ =>
        match outcome with
        | .ok _ => []
        | .error e => [e.toFault]

/-- The faults of the closures that the code at an address enters directly, first to last: it is
itself a trampoline, or native code with trampolines inside. -/
def Environment.faultsWithin (env : Environment) : Nat → Nat → Call → Machine → List Fault
  | 0, _, _ => fun _ => []
  | fuel + 1, address, call => fun m =>
    match m.world.pool.slotAt? address with
    | some slot => slot.faults env (env.enterWithin fuel).callFunction call m
    | none =>
      match env.native address with
      | some f =>
        let (arguments, cursor) := (call.cursor f.result).popAll f.parameters
        (f.body arguments cursor).faults (env.enterWithin fuel) (env.faultsWithin fuel) m
      | none => []

/-- Code that is entered is a trampoline's or native code. -/
theorem Environment.enterWithin_succ (env : Environment) (fuel address : Nat) (call : Call)
    (m : Machine) : env.enterWithin (fuel + 1) address call m =
      match m.world.pool.slotAt? address with
      | some slot => slot.enter env (env.enterWithin fuel).callFunction call m
      | none =>
        match env.native address with
        | some f => f.enter (env.enterWithin fuel) call m
        | none => none := by
  show (match m.world.pool.slotAt? address with
    | some slot => slot.enter env (env.enterWithin fuel).callFunction call
    | none =>
      match env.native address with
      | some f => f.enter (env.enterWithin fuel) call
      | none => Run.stuck) m = _
  cases m.world.pool.slotAt? address with
  | some slot => rfl
  | none => cases env.native address <;> rfl

/-! ## What each kind of code parks -/

section

variable {enter : Enter} {faults : Nat → Call → Machine → List Fault} {call : CallFunction}

theorem Native.neutral_await (address : Nat) : (Native.await address).Neutral := by
  refine Run.neutral_get (fun m => ?_) fun _ _ _ => rfl
  split
  · refine Run.neutral_poll.bind fun _ => Run.neutral_get (fun m' => ?_) fun _ _ _ => rfl
    split
    · exact Run.neutral_stuck
    · exact Run.neutral_pure _
  · exact Run.neutral_pure _

/-- Waiting goes on at once, or after the parked callers have woken up. -/
theorem Native.await_eq (address : Nat) (m : Machine) : Native.await address m =
    if m.world.memory.heap.get address = 0 then
      if m.poll.world.memory.heap.get address = 0 then none else some ((), m.poll)
    else some ((), m) := by
  show (if m.world.memory.heap.get address = 0 then _ else _ : Run Unit) m = _
  split
  · show (if m.poll.world.memory.heap.get address = 0 then _ else _ : Run Unit) m.poll = _
    split <;> rfl
  · rfl

theorem Native.run_wait (address : Nat) (next : Native) :
    (Native.wait address next).run enter = Native.await address >>= fun _ => next.run enter := by
  rw [Native.run, Native.await]
  simp only [bind_assoc]
  congr 1
  funext m
  split
  · simp only [bind_assoc]
    congr 1
    funext _
    congr 1
    funext m'
    split
    · rfl
    · rw [pure_bind]
  · rw [pure_bind]

/-- Native code parks what it is told to by the code that it enters. -/
theorem Native.parks_run (he : ∀ address call, (enter address call).Parks (faults address call))
    (n : Native) : (n.run enter).Parks (n.faults enter faults) := by
  induction n with
  | finish result => exact Run.neutral_pure result
  | look next ih =>
    exact Run.parks_get (g := fun m => (next m.world.memory.heap).faults enter faults)
      (fun m => ih m.world.memory.heap) (fun _ _ _ => rfl) fun _ _ _ => rfl
  | store address bytes next ih => exact (Run.neutral_change _).bind_parks fun _ => ih
  | readErrno next ih =>
    exact Run.parks_get (g := fun m => (next m.thread.osErrno).faults enter faults)
      (fun m => ih m.thread.osErrno) (fun _ _ _ => rfl) fun _ _ _ => rfl
  | setErrno code next ih =>
    exact (Run.neutral_onThread fun _ _ _ => rfl).bind_parks fun _ => ih
  | report name items next ih => exact (Run.neutral_change _).bind_parks fun _ => ih
  | enter address result arguments next ih => exact (he _ _).bind fun returned => ih _
  | wait address next ih =>
    rw [Native.run_wait]
    exact (Native.neutral_await address).bind_parks fun _ => ih

/-- The body of a closure is neutral when the calls that it makes are. -/
theorem Managed.neutral_run (hc : ∀ further, (call further).Neutral) (b : Managed) :
    (b.run call).Neutral := by
  induction b with
  | finish outcome => exact Run.neutral_pure outcome
  | act action next ih => exact (Run.neutral_act action).bind ih
  | readErrno next ih => exact Run.neutral_get (fun m => ih _ _) fun _ _ _ => rfl
  | setErrno code next ih => exact (Run.neutral_onThread fun _ _ _ => rfl).bind fun _ => ih
  | call further next ih => exact (hc further).bind ih

theorem neutral_runClosure (env : Environment) (hc : ∀ further, (call further).Neutral)
    (closure : Nat) (arguments : List Value) : (runClosure env call closure arguments).Neutral :=
  (Run.neutral_change _).bind fun _ => Managed.neutral_run hc _

theorem Binding.neutral_run (b : Binding) (env : Environment)
    (hc : ∀ further, (call further).Neutral) (arguments : List (List UInt8))
    (storage : List UInt8) : (b.run env call arguments storage).Neutral := by
  refine (Run.neutral_act _).bind fun values => ?_
  cases values with
  | error e => exact Run.neutral_pure _
  | ok values =>
    refine (neutral_runClosure env hc _ _).bind fun value => ?_
    cases value with
    | error e => exact Run.neutral_pure _
    | ok value => exact Run.neutral_act _

/-- A trampoline parks the fault of its closure, and no fault of the calls below it. -/
theorem Slot.parks_enter (s : Slot) (env : Environment) (hc : ∀ further, (call further).Neutral)
    (c : Call) : (s.enter env call c).Parks (s.faults env call c) := by
  unfold Slot.enter Slot.faults
  cases s.binding with
  | none =>
    dsimp only
    cases s.result? env with
    | none => exact Run.neutral_stuck
    | some r => exact (Run.parks_park _).bind_neutral fun _ => Run.neutral_pure _
  | some b =>
    refine Run.Parks.bind_neutral ?_ fun _ => Run.neutral_pure _
    refine (b.neutral_run env hc _ _).bind_parks fun outcome => ?_
    cases outcome with
    | ok storage => exact Run.neutral_pure _
    | error e => exact (Run.parks_park _).bind_neutral fun _ => Run.neutral_pure _

end

end ForeignCall
