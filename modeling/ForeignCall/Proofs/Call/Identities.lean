import ForeignCall.Proofs.Call.Faults
import ForeignCall.Proofs.Call.Helper
import ForeignCall.Proofs.Call.Primitives

/-!
# Code and the counter of identities

The world counts the identities that it has handed out, and making a signature draws the next one.
`Act.Blind` says of an operation that it neither looks at the counter nor draws from it: with
another count it does the same, and leaves the count as it is. A run may draw, as calls of variadic
functions do, but it is `Run.Blind` only if nothing but the counter shows it. The conversions of a
call are blind, and so is all code when the bodies of the closures are
(`Environment.blind_enterWithin`).
-/

namespace ForeignCall

open Abi

/-- The world with another number of identities handed out. -/
def World.numbered (w : World) (n : Nat) : World := { w with identities := n }

/-- The machine with another number of identities handed out. -/
def Machine.numbered (m : Machine) (n : Nat) : Machine := { m with world := m.world.numbered n }

@[simp] theorem World.numbered_memory (w : World) (n : Nat) : (w.numbered n).memory = w.memory :=
  rfl

@[simp] theorem World.numbered_strings (w : World) (n : Nat) :
    (w.numbered n).strings = w.strings := rfl

@[simp] theorem World.numbered_pool (w : World) (n : Nat) : (w.numbered n).pool = w.pool := rfl

@[simp] theorem World.numbered_interrupts (w : World) (n : Nat) :
    (w.numbered n).interrupts = w.interrupts := rfl

@[simp] theorem World.numbered_compiled? (w : World) (n closure : Nat) (signature : Signature) :
    (w.numbered n).compiled? closure signature = w.compiled? closure signature := rfl

/-! ## Operations -/

namespace Act

variable {α β : Type}

/-- An operation that neither looks at the number of identities nor changes it. -/
def Blind (x : Act α) : Prop := ∀ w n, x (w.numbered n) = ((x w).1, (x w).2.numbered n)

theorem blind_ofOutcome (o : Outcome α) : (ofOutcome o).Blind := fun _ _ => rfl

theorem blind_pure (a : α) : (pure a : Act α).Blind := fun _ _ => rfl

theorem blind_refuse (f : Fault) : (refuse f : Act α).Blind := fun _ _ => rfl

theorem blind_ofChecked (c : Checked α) : (ofChecked c).Blind := fun _ _ => rfl

theorem blind_read (f : Memory → Checked α) : (read f).Blind := fun _ _ => rfl

theorem blind_view {f : World → α} (h : ∀ w n, f (w.numbered n) = f w) : (view f).Blind := by
  intro w n
  unfold view
  rw [h]

theorem blind_modify {f : World → World} (h : ∀ w n, f (w.numbered n) = (f w).numbered n) :
    (modify f).Blind := by
  intro w n
  unfold modify
  rw [h]

theorem blind_write (f : Memory → Checked Memory) : (write f).Blind := by
  intro w n
  unfold write
  rw [World.numbered_memory]
  cases f w.memory <;> rfl

theorem blind_make (f : Memory → Outcome (α × Memory)) : (make f).Blind := by
  intro w n
  unfold make
  rw [World.numbered_memory]
  rcases f w.memory with e | ⟨a, m⟩ <;> rfl

theorem Blind.bind {x : Act α} {f : α → Act β} (hx : x.Blind) (hf : ∀ a, (f a).Blind) :
    (x >>= f).Blind := by
  intro w n
  have hx := hx w n
  rcases h : x w with ⟨e | a, w'⟩
  · rw [h] at hx
    rw [bind_error hx, bind_error h]
  · rw [h] at hx
    rw [bind_ok hx, bind_ok h, hf]

theorem Blind.mapM {f : α → Act β} (hf : ∀ a, (f a).Blind) (l : List α) : (l.mapM f).Blind := by
  induction l with
  | nil => exact blind_pure []
  | cons a l ih =>
    rw [List.mapM_cons]
    exact (hf a).bind fun b => ih.bind fun bs => blind_pure _

theorem Blind.atArgument {x : Act α} (hx : x.Blind) (index : Nat) : (x.atArgument index).Blind := by
  intro w n
  unfold Act.atArgument
  rw [hx]
  rcases x w with ⟨(f | e) | a, w'⟩ <;> rfl

/-- A copy of a C string. -/
theorem blind_stringFrom (address : Nat) : (stringFrom address).Blind := by
  refine (blind_view fun _ _ => rfl).bind fun bytes => ?_
  cases bytes with
  | none => exact blind_pure _
  | some bytes => exact fun _ _ => rfl

end Act

/-! ## Conversions -/

theorem blind_pinString (id : Nat) : (pinString id).Blind := by
  intro w n
  unfold pinString
  rw [World.numbered_strings]
  cases w.strings[id]? <;> rfl

theorem blind_copyString (id : Nat) : (copyString id).Blind := by
  refine (Act.blind_view fun _ _ => rfl).bind fun bytes => ?_
  split
  · exact (Act.blind_refuse _).bind fun _ _ _ => rfl
  · exact fun _ _ => rfl

theorem World.numbered_registered? (w : World) (n closure : Nat) (signature : Signature) :
    (w.numbered n).registered? closure signature = w.registered? closure signature := rfl

theorem blind_makeCallback (signature : Signature) (closure : Nat) (prepared : Checked Unit) :
    (makeCallback signature closure prepared).Blind := by
  intro w n
  unfold makeCallback
  rw [World.numbered_compiled?, World.numbered_pool]
  cases w.compiled? closure signature with
  | some id => rfl
  | none =>
    dsimp only
    rw [World.numbered_registered?]
    cases w.registered? closure signature with
    | some id => rfl
    | none =>
      dsimp only
      rcases w.pool.bind signature closure prepared with ⟨f | slot, pool⟩ <;> rfl

/-- Conversions are blind. -/
theorem Act.blind_inherited : Act.Inherited @Act.Blind where
  ofOutcome := blind_ofOutcome
  read := blind_read
  write := blind_write
  make := blind_make
  bind := Blind.bind
  atArgument index hx := hx.atArgument index
  stringFrom := blind_stringFrom
  pinString := blind_pinString
  copyString := blind_copyString
  makeCallback := blind_makeCallback
  callbackAddress _ := blind_view fun _ _ => rfl
  newRetention _ _ := rfl

/-- The arguments of a call convert whatever identities have been handed out. -/
theorem blind_toArguments (enums : Option Enums) (arguments : List (Ty × Value)) :
    (toArguments enums arguments).Blind :=
  Act.blind_inherited.toArguments enums arguments

theorem Instance.blind_ofBytes (layout : Layout) (bytes : List UInt8) :
    (Instance.ofBytes layout bytes).Blind :=
  Act.blind_inherited.instanceOfBytes layout bytes

/-! ## Runs -/

theorem World.unblock_numbered (w : World) (interrupt n : Nat) :
    (w.numbered n).unblock interrupt = (w.unblock interrupt).numbered n := by
  unfold unblock
  rw [World.numbered_interrupts, World.numbered_memory]
  rcases w.interrupts[interrupt]?.bind Interrupt.unblock with - | ⟨v, offset⟩
  · rfl
  · dsimp only
    cases w.memory.writeBytes v offset [1] <;> rfl

/-- The callers that wake up are the same. -/
theorem Machine.poll_numbered (m : Machine) (n : Nat) :
    (m.numbered n).poll = m.poll.numbered n := by
  obtain ⟨w, t, l⟩ := m
  show (Machine.mk (w.numbered n) t l).poll = _
  induction l with
  | nil => rfl
  | cons p l ih =>
    -- whether a caller is due depends on the interrupts alone
    have hdue : p.due? ((Machine.mk w t l).poll.numbered n).world.isRequested =
        p.due? (Machine.mk w t l).poll.world.isRequested := rfl
    rw [poll_cons, poll_cons, ih, hdue]
    cases p.due? (Machine.mk w t l).poll.world.isRequested with
    | none => rfl
    | some i =>
      dsimp only
      rw [show (Machine.numbered (Machine.mk w t l).poll n).world =
        (Machine.mk w t l).poll.world.numbered n from rfl, World.unblock_numbered]
      rfl

namespace Run

variable {α β : Type} {x : Run α} {k : α → Run β}

/-- A run that does the same whatever the number of identities is, but for that number. -/
def Blind (x : Run α) : Prop :=
  ∀ m n, ∃ j, x (m.numbered n) = (x m).map fun r => (r.1, r.2.numbered j)

theorem blind_pure (a : α) : Blind (pure a : Run α) := fun _ n => ⟨n, rfl⟩

theorem blind_stuck : Blind (stuck : Run α) := fun _ n => ⟨n, rfl⟩

theorem blind_act {a : Act α} (h : a.Blind) : Blind (act a) := by
  intro m n
  refine ⟨n, ?_⟩
  show some ((a (m.world.numbered n)).1, Machine.mk (a (m.world.numbered n)).2 _ _) = _
  rw [h]
  rfl

theorem blind_change {f : World → World} (h : ∀ w n, f (w.numbered n) = (f w).numbered n) :
    Blind (change f) := by
  intro m n
  refine ⟨n, ?_⟩
  show some ((), Machine.mk (f (m.world.numbered n)) _ _) = _
  rw [h]
  rfl

theorem blind_onThread (f : Thread → Thread) : Blind (onThread f) := fun _ n => ⟨n, rfl⟩

theorem Blind.bind (hx : x.Blind) (hk : ∀ a, (k a).Blind) : Blind (x >>= k) := by
  intro m n
  obtain ⟨j, hj⟩ := hx m n
  show ∃ l, (x (m.numbered n)).bind (fun r => k r.1 r.2) =
    Option.map _ ((x m).bind fun r => k r.1 r.2)
  rw [hj]
  rcases x m with - | ⟨a, m'⟩
  · exact ⟨j, rfl⟩
  · exact hk a m' j

/-- A run that first looks at the machine, but not at the number of identities. -/
theorem blind_get {k : Machine → Run α} (hk : ∀ m, (k m).Blind)
    (hn : ∀ m n, k (m.numbered n) = k m) : Blind (get >>= k) := by
  intro m n
  show ∃ j, k (m.numbered n) (m.numbered n) = Option.map _ (k m m)
  rw [hn]
  exact hk m m n

theorem blind_poll : Blind (modify Machine.poll : Run PUnit) := by
  intro m n
  refine ⟨n, ?_⟩
  show some ((), (m.numbered n).poll) = some ((), m.poll.numbered n)
  rw [Machine.poll_numbered]

theorem blind_onHelper (hx : x.Blind) (interrupt : Option Nat) : (onHelper interrupt x).Blind := by
  intro m n
  obtain ⟨j, hj⟩ := hx ⟨m.world, .start, .start interrupt :: m.parked⟩ n
  refine ⟨j, ?_⟩
  show Option.bind (x (Machine.numbered ⟨m.world, .start, .start interrupt :: m.parked⟩ n)) _ =
    Option.map _ (Option.bind (x ⟨m.world, .start, .start interrupt :: m.parked⟩) _)
  rw [hj]
  rcases x ⟨m.world, .start, .start interrupt :: m.parked⟩ with - | ⟨a, m'⟩ <;> rfl

end Run

/-! ## Code -/

/-- The body of a closure whose operations are blind. -/
def Managed.Blind : Managed → Prop
  | .finish _ => True
  | .act action next => action.Blind ∧ ∀ outcome, (next outcome).Blind
  | .readErrno next => ∀ saved system, (next saved system).Blind
  | .setErrno _ next => next.Blind
  | .call _ next => ∀ outcome, (next outcome).Blind

/-- No closure looks at the number of identities. -/
def Environment.Blind (env : Environment) : Prop :=
  ∀ closure arguments, (env.body closure arguments).Blind

/-- Code that does the same whatever identities have been handed out. -/
def Enter.Blind (enter : Enter) : Prop := ∀ address call, (enter address call).Blind

section

variable {enter : Enter} {call : CallFunction}

theorem Native.blind_await (address : Nat) : (Native.await address).Blind := by
  refine Run.blind_get (fun m => ?_) fun _ _ => rfl
  split
  · refine Run.blind_poll.bind fun _ => Run.blind_get (fun m' => ?_) fun _ _ => rfl
    split
    · exact Run.blind_stuck
    · exact Run.blind_pure _
  · exact Run.blind_pure _

/-- Native code sees nothing of the world but its memory. -/
theorem Native.blind_run (he : enter.Blind) (n : Native) : (n.run enter).Blind := by
  induction n with
  | finish result => exact Run.blind_pure result
  | look next ih => exact Run.blind_get (fun m => ih m.world.memory.heap) fun _ _ => rfl
  | store address bytes next ih => exact (Run.blind_change fun _ _ => rfl).bind fun _ => ih
  | readErrno next ih => exact Run.blind_get (fun m => ih m.thread.osErrno) fun _ _ => rfl
  | setErrno code next ih => exact (Run.blind_onThread _).bind fun _ => ih
  | report name items next ih => exact (Run.blind_change fun _ _ => rfl).bind fun _ => ih
  | enter address result arguments next ih => exact (he _ _).bind fun returned => ih _
  | wait address next ih =>
    rw [Native.run_wait]
    exact (Native.blind_await address).bind fun _ => ih

theorem Managed.blind_run (hc : ∀ further, (call further).Blind) (b : Managed)
    (hb : b.Blind) : (b.run call).Blind := by
  induction b with
  | finish outcome => exact Run.blind_pure outcome
  | act action next ih => exact (Run.blind_act hb.1).bind fun outcome => ih _ (hb.2 outcome)
  | readErrno next ih =>
    exact Run.blind_get (fun m => ih _ _ (hb m.thread.savedErrno m.thread.osErrno)) fun _ _ => rfl
  | setErrno code next ih => exact (Run.blind_onThread _).bind fun _ => ih hb
  | call further next ih => exact (hc further).bind fun outcome => ih _ (hb outcome)

theorem blind_runClosure {env : Environment} (hb : env.Blind)
    (hc : ∀ further, (call further).Blind) (closure : Nat) (arguments : List Value) :
    (runClosure env call closure arguments).Blind :=
  (Run.blind_change fun _ _ => rfl).bind fun _ => Managed.blind_run hc _ (hb closure arguments)

theorem Binding.blind_run (b : Binding) {env : Environment} (hb : env.Blind)
    (hc : ∀ further, (call further).Blind) (arguments : List (List UInt8))
    (storage : List UInt8) : (b.run env call arguments storage).Blind := by
  refine (Run.blind_act (.mapM (fun _ => Act.blind_inherited.ofNative _ _) _)).bind fun values => ?_
  cases values with
  | error e => exact Run.blind_pure _
  | ok values =>
    refine (blind_runClosure hb hc _ _).bind fun value => ?_
    cases value with
    | error e => exact Run.blind_pure _
    | ok value => exact Run.blind_act (Act.blind_inherited.toResult _ _ _ _)

theorem Slot.blind_enter (s : Slot) {env : Environment} (hb : env.Blind)
    (hc : ∀ further, (call further).Blind) (c : Call) : (s.enter env call c).Blind := by
  unfold Slot.enter
  cases s.binding with
  | none =>
    dsimp only
    cases s.result? env with
    | none => exact Run.blind_stuck
    | some result => exact (Run.blind_onThread _).bind fun _ => Run.blind_pure _
  | some b =>
    refine Run.Blind.bind ((b.blind_run hb hc _ _).bind fun outcome => ?_) fun _ =>
      Run.blind_pure _
    cases outcome with
    | ok storage => exact Run.blind_pure _
    | error e => exact (Run.blind_onThread _).bind fun _ => Run.blind_pure _

theorem blind_rawCall (he : enter.Blind) (s : Signature) (address : Nat)
    (frame : Frame) : (rawCall enter s address frame).Blind :=
  Run.blind_get (fun _ => (Run.blind_onThread _).bind fun _ => Run.blind_get (fun _ =>
    (he _ _).bind fun _ => Run.blind_get (fun _ => (Run.blind_onThread _).bind fun _ =>
      Run.blind_pure _) fun _ _ => rfl) fun _ _ => rfl) fun _ _ => rfl

theorem Done.blind_answer (done : Done) (s : Signature) : (done.answer s).Blind := by
  unfold Done.answer
  cases done.fault with
  | some f =>
    cases done.errno with
    | some code => exact (Run.blind_onThread _).bind fun _ => Run.blind_pure _
    | none => exact Run.blind_pure _
  | none =>
    have hconvert := Run.blind_act (Act.blind_inherited.ofNative done.bytes s.ret)
    cases done.errno with
    | some code => exact (Run.blind_onThread _).bind fun _ => hconvert
    | none => exact hconvert

theorem blind_execute (he : enter.Blind) (s : Signature) (address : Nat)
    (frame : Frame) (interrupt : Option Nat) :
    (execute enter s address frame interrupt).Blind := by
  rw [execute_eq_bind]
  refine Run.Blind.bind ?_ fun done => done.blind_answer s
  split
  · exact Run.blind_onHelper (blind_rawCall he s address frame) _
  · exact blind_rawCall he s address frame

theorem blind_call (he : enter.Blind) (s : Signature) (address : Nat)
    (arguments : List Value) (block interrupt : Option Nat) :
    (enter.call s address arguments block interrupt).Blind := by
  unfold Enter.call
  split
  · exact Run.blind_pure _
  · split
    · exact Run.blind_pure _
    · refine (Run.blind_act (blind_toArguments _ _)).bind fun frame => ?_
      cases frame with
      | error e => exact Run.blind_pure _
      | ok frame => exact blind_execute he s address frame interrupt

/-! ### Variadic calls -/

/-- A signature is refused in every world, or it is the same in every world but for its identity. -/
theorem Signature.ofTypes_cases (ret : Ty) (params : List Ty) (fixed : Option Nat)
    (o : SignatureOptions) :
    (∃ e, ∀ w, ofTypes ret params fixed o w = (.error (.fault e), w)) ∨
    ∃ s : Signature, ∀ w, ofTypes ret params fixed o w =
      (.ok { s with id := w.identities }, w.numbered (w.identities + 1)) := by
  unfold ofTypes
  cases ret.checkResult with
  | error e => exact .inl ⟨e, fun _ => rfl⟩
  | ok u =>
    generalize (params.zipIdx.forM _ : Checked Unit) = checked
    cases checked with
    | error e => exact .inl ⟨e, fun _ => rfl⟩
    | ok u =>
      exact .inr ⟨⟨0, ret, params, fixed, o.convention, o.enums, o.blocking, o.savesErrno⟩,
        fun _ => rfl⟩

/-- The signature of a variadic call is refused, or kept, or made for the call. -/
theorem VariadicFunction.signatureFor_cases (f : VariadicFunction) (types : List Ty) :
    (∃ e, ∀ w, f.signatureFor types w = (.error (.fault e), w)) ∨
    (∃ s, ∀ w, f.signatureFor types w = (.ok (s, f), w)) ∨
    ∃ s : Signature, ∀ w, ∃ f' : VariadicFunction, f'.address = f.address ∧
      f.signatureFor types w =
        (.ok ({ s with id := w.identities }, f'), w.numbered (w.identities + 1)) := by
  unfold signatureFor
  cases (key? types).bind fun key => f.prepared.lookup key with
  | some s => exact .inr (.inl ⟨s, fun _ => rfl⟩)
  | none =>
    rcases Signature.ofTypes_cases f.ret (f.fixed ++ types) (some f.fixed.length) f.options with
      ⟨e, he⟩ | ⟨s, hs⟩
    · exact .inl ⟨e, fun w => Act.bind_error (he w)⟩
    · refine .inr (.inr ⟨s, fun w => ?_⟩)
      dsimp only
      rw [Act.bind_ok (hs w)]
      cases key? types with
      | some key => exact ⟨{ f with prepared := _ :: f.prepared }, rfl, rfl⟩
      | none => exact ⟨f, rfl, rfl⟩

/-- A variadic call once its signature has been found. -/
def Enter.proceed (enter : Enter) (s : Signature) (address : Nat) (values : List Value) :
    Run (Outcome Value) := do
  match ← Run.act (toArguments s.enums (s.params.zip values)) with
  | .error e => return .error e
  | .ok frame => execute enter s address frame none

theorem blind_proceed (he : enter.Blind) (s : Signature) (address : Nat) (values : List Value) :
    (enter.proceed s address values).Blind := by
  refine (Run.blind_act (blind_toArguments _ _)).bind fun frame => ?_
  cases frame with
  | error e => exact Run.blind_pure _
  | ok frame => exact blind_execute he s address frame none

/-- A call with a signature goes on with it, and leaves the function that has it. -/
theorem VariadicFunction.call_eq_proceed {f f' : VariadicFunction} {arguments : List Value}
    {extra : List (TypeSpec × Value)} {types : List Ty} {m : Machine} {s : Signature} {w : World}
    (hl : arguments.length = f.fixed.length) (ht : f.promoteAll extra = .ok types)
    (hs : f.signatureFor types m.world = (.ok (s, f'), w)) :
    f.call enter arguments extra m =
      (enter.proceed s f'.address (arguments ++ extra.map Prod.snd) >>= fun a => pure (a, f'))
        ⟨w, m.thread, m.parked⟩ := by
  unfold call
  rw [if_neg (not_not.mpr hl), ht]
  refine (Run.act_bind hs).trans ?_
  unfold Enter.proceed
  rw [bind_assoc]
  refine congrFun (congrArg (Run.act _ >>= ·) (funext fun outcome => ?_)) _
  cases outcome <;> rfl

/-- Nothing but the number of identities shows that a variadic call has made a signature. -/
theorem blind_variadic (he : enter.Blind) (f : VariadicFunction) (arguments : List Value)
    (extra : List (TypeSpec × Value)) :
    (enter.callFunction (.variadic f arguments extra)).Blind := by
  let values := arguments ++ extra.map Prod.snd
  have hcall : ∀ {x : Run (Outcome Value)}, x.Blind →
      (f.call enter arguments extra = x >>= fun a => pure (a, f)) →
      (enter.callFunction (.variadic f arguments extra)).Blind := by
    intro x hx h
    show Run.Blind (f.call enter arguments extra >>= fun r => pure r.1)
    rw [h]
    exact (hx.bind fun _ => Run.blind_pure _).bind fun _ => Run.blind_pure _
  by_cases hl : arguments.length = f.fixed.length
  case neg => exact hcall (Run.blind_pure _) (by unfold VariadicFunction.call; rw [if_pos hl]; rfl)
  cases ht : f.promoteAll extra with
  | error e =>
    refine hcall (Run.blind_pure (.error (.fault e))) ?_
    unfold VariadicFunction.call
    rw [if_neg (not_not.mpr hl), ht]
    rfl
  | ok types =>
    rcases f.signatureFor_cases types with ⟨e, he'⟩ | ⟨s, hs⟩ | ⟨s, hs⟩
    · refine hcall (Run.blind_pure (.error (.fault e))) (funext fun m => ?_)
      unfold VariadicFunction.call
      rw [if_neg (not_not.mpr hl), ht]
      exact Run.act_bind (he' m.world)
    · exact hcall (blind_proceed he s f.address values)
        (funext fun m => VariadicFunction.call_eq_proceed hl ht (hs m.world))
    · intro m n
      obtain ⟨f₁, h₁, hs₁⟩ := hs m.world
      obtain ⟨f₂, h₂, hs₂⟩ := hs (m.world.numbered n)
      -- both go on with the signature under its own identity, which is not looked at
      obtain ⟨j, hj⟩ := blind_proceed he s f.address values (m.numbered (m.world.identities + 1))
        (n + 1)
      refine ⟨j, ?_⟩
      show Option.bind (f.call enter arguments extra (m.numbered n)) _ =
        Option.map _ (Option.bind (f.call enter arguments extra m) _)
      rw [VariadicFunction.call_eq_proceed hl ht hs₁,
        VariadicFunction.call_eq_proceed (m := m.numbered n) hl ht hs₂, h₁, h₂]
      change enter.proceed s f.address values (m.numbered (n + 1)) = _ at hj
      show Option.bind (Option.bind (enter.proceed s f.address values (m.numbered (n + 1))) _) _ =
        Option.map _ (Option.bind (Option.bind
          (enter.proceed s f.address values (m.numbered (m.world.identities + 1))) _) _)
      rw [hj]
      rcases enter.proceed s f.address values _ with - | ⟨a, m'⟩ <;> rfl

theorem blind_callFunction (he : enter.Blind) (further : FurtherCall) :
    (enter.callFunction further).Blind := by
  cases further with
  | function f arguments block interrupt => exact blind_call he _ _ _ _ _
  | variadic f arguments extra => exact blind_variadic he f arguments extra

end

/-- Code is blind, at any depth, when the bodies of the closures are. -/
theorem Environment.blind_enterWithin {env : Environment} (hb : env.Blind) (fuel : Nat) :
    (env.enterWithin fuel).Blind := by
  induction fuel with
  | zero => exact fun _ _ => Run.blind_stuck
  | succ fuel ih =>
    intro address call
    refine Run.blind_get (fun m => ?_) fun _ _ => rfl
    cases m.world.pool.slotAt? address with
    | some slot => exact slot.blind_enter hb (blind_callFunction ih) call
    | none =>
      cases env.native address with
      | some f => exact (Native.blind_run ih _).bind fun _ => Run.blind_pure _
      | none => exact Run.blind_stuck

end ForeignCall
