import ForeignCall.Proofs.Call.Identities
import ForeignCall.Proofs.Call.Interrupts

/-!
# Calls that run are interleavings

A call that is run takes the steps of a blocking call in one order out of many: its caller wakes up
where native code waits. `Run.Interleaves` says of a run that what it does to the world and to one
parked caller who watches an interrupt is what steps of a blocking call do, and so does all code, at
any depth, as long as closures do nothing to interrupts but request them, and bring none to their
own calls (`Environment.interleaves_enterWithin`).

Main statement: `Environment.execute_steps`.
-/

namespace ForeignCall

open Abi

/-! ## Operations -/

namespace Act

variable {α β : Type}

/-- An operation that leaves the interrupts as they are. -/
def KeepsInterrupts (x : Act α) : Prop := ∀ w, (x w).2.interrupts = w.interrupts

/-- An operation that does nothing to the interrupts but request some. -/
def OnlyRequests (x : Act α) : Prop :=
  ∀ w, ∃ js : List Nat, (x w).2.interrupts = (js.foldl World.requestInterrupt w).interrupts

theorem KeepsInterrupts.onlyRequests {x : Act α} (hx : x.KeepsInterrupts) : x.OnlyRequests :=
  fun w => ⟨[], hx w⟩

theorem keepsInterrupts_ofOutcome (o : Outcome α) : (ofOutcome o).KeepsInterrupts := fun _ => rfl

theorem keepsInterrupts_write (f : Memory → Checked Memory) : (write f).KeepsInterrupts := by
  intro w
  unfold write
  cases f w.memory <;> rfl

theorem keepsInterrupts_make (f : Memory → Outcome (α × Memory)) : (make f).KeepsInterrupts := by
  intro w
  unfold make
  rcases f w.memory with e | ⟨a, m⟩ <;> rfl

theorem KeepsInterrupts.bind {x : Act α} {f : α → Act β} (hx : x.KeepsInterrupts)
    (hf : ∀ a, (f a).KeepsInterrupts) : (x >>= f).KeepsInterrupts := by
  intro w
  have hx := hx w
  rcases h : x w with ⟨e | a, w'⟩
  · rw [h] at hx
    rw [bind_error h, hx]
  · rw [h] at hx
    rw [bind_ok h, hf, hx]

theorem KeepsInterrupts.atArgument {x : Act α} (hx : x.KeepsInterrupts) (index : Nat) :
    (x.atArgument index).KeepsInterrupts := by
  intro w
  have hx := hx w
  unfold Act.atArgument
  rcases h : x w with ⟨(f | e) | a, w'⟩
  all_goals
    rw [h] at hx
    exact hx

theorem keepsInterrupts_stringFrom (address : Nat) : (stringFrom address).KeepsInterrupts := by
  refine KeepsInterrupts.bind (fun _ => rfl) fun bytes => ?_
  cases bytes with
  | none => exact keepsInterrupts_ofOutcome _
  | some bytes => exact fun _ => rfl

end Act

theorem keepsInterrupts_pinString (id : Nat) : (pinString id).KeepsInterrupts := by
  intro w
  unfold pinString
  cases w.strings[id]? <;> rfl

theorem keepsInterrupts_copyString (id : Nat) : (copyString id).KeepsInterrupts := by
  refine Act.KeepsInterrupts.bind (fun _ => rfl) fun bytes => ?_
  split
  · exact Act.KeepsInterrupts.bind (Act.keepsInterrupts_ofOutcome _) fun _ _ => rfl
  · exact fun _ => rfl

theorem keepsInterrupts_makeCallback (signature : Signature) (closure : Nat)
    (prepared : Checked Unit) : (makeCallback signature closure prepared).KeepsInterrupts := by
  intro w
  obtain ⟨pool, callbacks, closures, h⟩ := makeCallback_snd signature closure prepared w
  rw [h]

theorem VariadicFunction.keepsInterrupts_signatureFor (f : VariadicFunction) (types : List Ty) :
    (f.signatureFor types).KeepsInterrupts := by
  intro w
  rcases f.signatureFor_cases types with ⟨e, h⟩ | ⟨s, h⟩ | ⟨s, h⟩
  · rw [h]
  · rw [h]
  · obtain ⟨f', -, h⟩ := h w
    rw [h]
    rfl

/-- Conversions leave the interrupts as they are. -/
theorem Act.keepsInterrupts_inherited : Act.Inherited @Act.KeepsInterrupts where
  ofOutcome := keepsInterrupts_ofOutcome
  read _ _ := rfl
  write := keepsInterrupts_write
  make := keepsInterrupts_make
  bind := KeepsInterrupts.bind
  atArgument index hx := hx.atArgument index
  stringFrom := keepsInterrupts_stringFrom
  pinString := keepsInterrupts_pinString
  copyString := keepsInterrupts_copyString
  makeCallback := keepsInterrupts_makeCallback
  callbackAddress _ _ := rfl
  newRetention _ := rfl

/-! ## A parked caller among others -/

namespace BlockingCall

variable {α : Type}

/-- A call whose caller waits while its helper runs. -/
def waiting (w : World) (p : Parked) : BlockingCall α := ⟨w, p, false, .running, none⟩

theorem Steps.append {s t u : BlockingCall α} {ls ls' : List (Label α)} (h : Steps s ls t)
    (h' : Steps t ls' u) : Steps s (ls ++ ls') u := by
  induction h with
  | nil => exact h'
  | cons hl _ ih => exact .cons hl (ih h')

theorem steps_requests (js : List Nat) (w : World) (p : Parked) :
    Steps (waiting w p) (js.map .requested)
      (waiting (js.foldl World.requestInterrupt w) p : BlockingCall α) := by
  induction js generalizing w with
  | nil => exact .nil _
  | cons j js ih => exact .cons (.requested (waiting w p) j) (ih _)

/-- A change of the world that does nothing to the interrupts but request some. -/
theorem exists_steps_change (α : Type) {w w' : World} (js : List Nat)
    (h : w'.interrupts = (js.foldl World.requestInterrupt w).interrupts) (p : Parked) :
    ∃ ls, Steps (waiting w p) ls (waiting w' p : BlockingCall α) := by
  have hother : Step (waiting (js.foldl World.requestInterrupt w) p : BlockingCall α) .other
      (waiting w' p) := .other _ fun j k hk => by rw [h]; exact hk
  exact ⟨_, (steps_requests js w p).append (.cons hother (.nil _))⟩

/-- The caller wakes up. -/
theorem exists_steps_poll (α : Type) (w : World) (t : Thread) (p : Parked) :
    ∃ ls w' p', (Machine.mk w t [p]).poll = ⟨w', t, [p']⟩ ∧
      Steps (waiting w p) ls (waiting w' p' : BlockingCall α) := by
  have hexpired : Step (waiting w p : BlockingCall α) .expired
      { waiting w p with woken := true } := .expired rfl rfl rfl
  cases hdue : p.due? w.isRequested with
  | none =>
    have hpoll : ∀ t, (Machine.mk w t [p]).poll = ⟨w, t, [p]⟩ := fun t => by
      rw [Machine.poll_single, hdue]
    have hhandled : Step { waiting w p with woken := true } (.handled [])
        (waiting w p : BlockingCall α) := .handled rfl (hpoll _) (List.append_nil _).symm
    exact ⟨_, w, p, hpoll t, .cons hexpired (.cons hhandled (.nil _))⟩
  | some j =>
    have hpoll : ∀ t, (Machine.mk w t [p]).poll =
        ⟨w.unblock j, t, [{ p with unblocked := true }]⟩ := fun t => by
      rw [Machine.poll_single, hdue]
    have hhandled : Step { waiting w p with woken := true } (.handled _)
        (waiting (w.unblock j) { p with unblocked := true } : BlockingCall α) :=
      .handled rfl (hpoll _) (w.events_unblock j)
    exact ⟨_, _, _, hpoll t, .cons hexpired (.cons hhandled (.nil _))⟩

end BlockingCall

/-- The caller `p` is parked between others who watch no interrupt. -/
structure Machine.Watched (m : Machine) (inner outer : List Parked) (p : Parked) : Prop where
  parked : m.parked = inner ++ p :: outer
  inside : ∀ q ∈ inner, q.interrupt = none
  outside : ∀ q ∈ outer, q.interrupt = none

/-- Among others who watch no interrupt, one caller wakes up as if it were alone. -/
theorem Machine.poll_among (w : World) (t : Thread) (p : Parked) {inner outer : List Parked}
    (hi : ∀ q ∈ inner, q.interrupt = none) (ho : ∀ q ∈ outer, q.interrupt = none) :
    (Machine.mk w t (inner ++ p :: outer)).poll =
      ⟨(Machine.mk w t [p]).poll.world, t,
        inner ++ ((Machine.mk w t [p]).poll.parked ++ outer)⟩ := by
  induction inner with
  | nil =>
    rw [List.nil_append, poll_cons_eq_single, poll_asleep w t ho]
    rfl
  | cons q inner ih =>
    rw [List.cons_append, poll_cons, Parked.due?_eq_none (hi q List.mem_cons_self),
      ih fun r hr => hi r (List.mem_cons_of_mem _ hr)]
    rfl

/-! ## Runs -/

open BlockingCall

namespace Run

variable {β γ : Type} {x : Run β} {k : β → Run γ}

/-- What a run does to the world and to a caller who watches an interrupt is what steps of its call
do. -/
def Interleaves (x : Run β) : Prop :=
  ∀ ⦃m b n inner outer p⦄, x m = some (b, n) → m.Watched inner outer p →
    ∃ ls p', n.Watched inner outer p' ∧
      Steps (waiting m.world p) ls (waiting n.world p' : BlockingCall Done)

theorem interleaves_pure (b : β) : Interleaves (pure b : Run β) := by
  intro m b' n inner outer p h hp
  cases h
  exact ⟨_, p, hp, .nil _⟩

theorem interleaves_stuck : Interleaves (stuck : Run β) := by
  intro m b n inner outer p h
  cases h

theorem interleaves_act {a : Act β} (ha : a.OnlyRequests) : Interleaves (act a) := by
  intro m b n inner outer p h hp
  obtain ⟨js, hjs⟩ := ha m.world
  obtain ⟨ls, hls⟩ := exists_steps_change Done js hjs p
  cases h
  exact ⟨ls, p, ⟨hp.parked, hp.inside, hp.outside⟩, hls⟩

/-- A change of the world that leaves the interrupts as they are. -/
theorem interleaves_change {f : World → World} (hf : ∀ w, (f w).interrupts = w.interrupts) :
    Interleaves (change f) := by
  intro m b n inner outer p h hp
  obtain ⟨ls, hls⟩ := exists_steps_change Done [] (hf m.world) p
  cases h
  exact ⟨ls, p, ⟨hp.parked, hp.inside, hp.outside⟩, hls⟩

theorem interleaves_onThread (f : Thread → Thread) : Interleaves (onThread f) := by
  intro m b n inner outer p h hp
  cases h
  exact ⟨_, p, ⟨hp.parked, hp.inside, hp.outside⟩, .nil _⟩

theorem interleaves_poll : Interleaves (modify Machine.poll : Run PUnit) := by
  rintro ⟨w, t, l⟩ b n inner outer p h ⟨rfl, hi, ho⟩
  obtain ⟨ls, w', p', hpoll, hls⟩ := exists_steps_poll Done w t p
  cases h
  rw [Machine.poll_among w t p hi ho, hpoll]
  exact ⟨ls, p', ⟨rfl, hi, ho⟩, hls⟩

theorem Interleaves.bind (hx : x.Interleaves) (hk : ∀ b, (k b).Interleaves) :
    Interleaves (x >>= k) := by
  intro m c n inner outer p h hp
  obtain ⟨⟨b, m₁⟩, hb, hc⟩ := Option.bind_eq_some_iff.mp h
  obtain ⟨ls, p₁, hp₁, hls⟩ := hx hb hp
  obtain ⟨ls', p', hp', hls'⟩ := hk b hc hp₁
  exact ⟨ls ++ ls', p', hp', hls.append hls'⟩

/-- A run that first looks at the machine. -/
theorem interleaves_get {k : Machine → Run β} (hk : ∀ m, (k m).Interleaves) :
    Interleaves (get >>= k) := fun m _ _ _ _ _ h hp => hk m h hp

/-- A helper of its own adds a caller who watches no interrupt. -/
theorem interleaves_onHelper (hx : x.Interleaves) : Interleaves (onHelper none x) := by
  intro m b n inner outer p h hp
  obtain ⟨⟨b', m₁⟩, hb, hn⟩ := Option.bind_eq_some_iff.mp h
  cases hn
  have hin : Machine.Watched ⟨m.world, .start, .start none :: m.parked⟩ (.start none :: inner)
      outer p := by
    refine ⟨by rw [hp.parked]; rfl, fun q hq => ?_, hp.outside⟩
    rcases List.mem_cons.mp hq with rfl | hq
    · rfl
    · exact hp.inside q hq
  obtain ⟨ls, p', hp', hls⟩ := hx hb hin
  refine ⟨ls, p', ⟨?_, hp.inside, hp.outside⟩, hls⟩
  show m₁.parked.tail = _
  rw [hp'.parked]
  rfl

/-- On a helper with an interrupt to watch, a run is a blocking call that returns its answer. -/
theorem onHelper_steps {x : Run Done} (hx : x.Interleaves) {m n : Machine} {i : Nat} {done : Done}
    (hm : ∀ q ∈ m.parked, q.interrupt = none) (h : onHelper (some i) x m = some (done, n)) :
    ∃ ls c, Steps (start m.world i) ls c ∧ c.answer = some (.ok done) ∧
      n = ⟨c.world, m.thread, m.parked⟩ := by
  obtain ⟨⟨done', m₁⟩, hd, hn⟩ := Option.bind_eq_some_iff.mp h
  cases hn
  have hp : Machine.Watched ⟨m.world, .start, .start (some i) :: m.parked⟩ [] m.parked
      (.start (some i)) := ⟨rfl, nofun, hm⟩
  obtain ⟨ls, p', hp', hls⟩ := hx hd hp
  refine ⟨_, _, hls.append (.cons (.finished rfl done) (.cons (.received rfl rfl rfl) (.nil _))),
    rfl, ?_⟩
  show Machine.mk m₁.world m.thread m₁.parked.tail = _
  rw [hp'.parked]
  rfl

end Run

/-! ## Code -/

/-- The body of a closure that does nothing to interrupts but request them. Its calls watch none. -/
def Managed.OnlyRequests : Managed → Prop
  | .finish _ => True
  | .act action next => action.OnlyRequests ∧ ∀ outcome, (next outcome).OnlyRequests
  | .readErrno next => ∀ saved system, (next saved system).OnlyRequests
  | .setErrno _ next => next.OnlyRequests
  | .call further next => further.interrupt = none ∧ ∀ outcome, (next outcome).OnlyRequests

/-- No closure does anything to interrupts but request them. -/
def Environment.OnlyRequests (env : Environment) : Prop :=
  ∀ closure arguments, (env.body closure arguments).OnlyRequests

/-- Code whose runs interleave. -/
def Enter.Interleaves (enter : Enter) : Prop := ∀ address call, (enter address call).Interleaves

section

variable {enter : Enter} {call : CallFunction}

theorem Native.interleaves_await (address : Nat) : (Native.await address).Interleaves := by
  refine Run.interleaves_get fun m => ?_
  split
  · refine Run.interleaves_poll.bind fun _ => Run.interleaves_get fun m' => ?_
    split
    · exact Run.interleaves_stuck
    · exact Run.interleaves_pure _
  · exact Run.interleaves_pure _

/-- Native code does nothing to interrupts, and its caller wakes up where it waits. -/
theorem Native.interleaves_run (he : enter.Interleaves) (n : Native) :
    (n.run enter).Interleaves := by
  induction n with
  | finish result => exact Run.interleaves_pure result
  | look next ih => exact Run.interleaves_get fun m => ih m.world.memory.heap
  | store address bytes next ih =>
    refine (Run.interleaves_change fun w => ?_).bind fun _ => ih
    rfl
  | readErrno next ih => exact Run.interleaves_get fun m => ih m.thread.osErrno
  | setErrno code next ih => exact (Run.interleaves_onThread _).bind fun _ => ih
  | report name items next ih =>
    refine (Run.interleaves_change fun w => ?_).bind fun _ => ih
    rfl
  | enter address result arguments next ih => exact (he _ _).bind fun returned => ih _
  | wait address next ih =>
    rw [Native.run_wait]
    exact (Native.interleaves_await address).bind fun _ => ih

theorem Managed.interleaves_run
    (hc : ∀ further, further.interrupt = none → (call further).Interleaves) (b : Managed)
    (hb : b.OnlyRequests) : (b.run call).Interleaves := by
  induction b with
  | finish outcome => exact Run.interleaves_pure outcome
  | act action next ih => exact (Run.interleaves_act hb.1).bind fun outcome => ih _ (hb.2 outcome)
  | readErrno next ih =>
    exact Run.interleaves_get fun m => ih _ _ (hb m.thread.savedErrno m.thread.osErrno)
  | setErrno code next ih => exact (Run.interleaves_onThread _).bind fun _ => ih hb
  | call further next ih => exact (hc further hb.1).bind fun outcome => ih _ (hb.2 outcome)

theorem Binding.interleaves_run (b : Binding) {env : Environment} (henv : env.OnlyRequests)
    (hc : ∀ further, further.interrupt = none → (call further).Interleaves)
    (arguments : List (List UInt8)) (storage : List UInt8) :
    (b.run env call arguments storage).Interleaves := by
  have hvalues : (b.signature.ofNatives arguments).KeepsInterrupts :=
    Act.keepsInterrupts_inherited.mapM
      (fun _ => Act.keepsInterrupts_inherited.ofNative _ _) _
  refine (Run.interleaves_act hvalues.onlyRequests).bind fun values => ?_
  cases values with
  | error e => exact Run.interleaves_pure _
  | ok values =>
    have hbody : (runClosure env call b.closure values).Interleaves := by
      refine (Run.interleaves_change fun w => ?_).bind fun _ =>
        Managed.interleaves_run hc _ (henv b.closure values)
      rfl
    refine hbody.bind fun value => ?_
    cases value with
    | error e => exact Run.interleaves_pure _
    | ok value =>
      exact Run.interleaves_act (Act.keepsInterrupts_inherited.toResult _ _ _ _).onlyRequests

theorem Slot.interleaves_enter (s : Slot) {env : Environment} (henv : env.OnlyRequests)
    (hc : ∀ further, further.interrupt = none → (call further).Interleaves) (c : Call) :
    (s.enter env call c).Interleaves := by
  unfold Slot.enter
  cases s.binding with
  | none =>
    dsimp only
    cases s.result? env with
    | none => exact Run.interleaves_stuck
    | some result => exact (Run.interleaves_onThread _).bind fun _ => Run.interleaves_pure _
  | some b =>
    refine Run.Interleaves.bind ((b.interleaves_run henv hc _ _).bind fun outcome => ?_)
      fun _ => Run.interleaves_pure _
    cases outcome with
    | ok storage => exact Run.interleaves_pure _
    | error e => exact (Run.interleaves_onThread _).bind fun _ => Run.interleaves_pure _

theorem interleaves_rawCall (he : enter.Interleaves) (s : Signature) (address : Nat)
    (frame : Frame) : (rawCall enter s address frame).Interleaves :=
  Run.interleaves_get fun _ => (Run.interleaves_onThread _).bind fun _ =>
    Run.interleaves_get fun _ => (he _ _).bind fun _ => Run.interleaves_get fun _ =>
      (Run.interleaves_onThread _).bind fun _ => Run.interleaves_pure _

theorem Done.interleaves_answer (done : Done) (s : Signature) : (done.answer s).Interleaves := by
  unfold Done.answer
  cases done.fault with
  | some f =>
    cases done.errno with
    | some code => exact (Run.interleaves_onThread _).bind fun _ => Run.interleaves_pure _
    | none => exact Run.interleaves_pure _
  | none =>
    have hconvert := Run.interleaves_act
      (Act.keepsInterrupts_inherited.ofNative done.bytes s.ret).onlyRequests
    cases done.errno with
    | some code => exact (Run.interleaves_onThread _).bind fun _ => hconvert
    | none => exact hconvert

theorem interleaves_execute (he : enter.Interleaves) (s : Signature) (address : Nat)
    (frame : Frame) : (execute enter s address frame none).Interleaves := by
  rw [execute_eq_bind]
  refine Run.Interleaves.bind ?_ fun done => done.interleaves_answer s
  split
  · exact Run.interleaves_onHelper (interleaves_rawCall he s address frame)
  · exact interleaves_rawCall he s address frame

theorem interleaves_call (he : enter.Interleaves) (s : Signature) (address : Nat)
    (arguments : List Value) (block : Option Nat) :
    (enter.call s address arguments block none).Interleaves := by
  unfold Enter.call
  split
  · exact Run.interleaves_pure _
  · split
    · exact Run.interleaves_pure _
    · have hframe := Act.keepsInterrupts_inherited.toArguments s.enums (s.params.zip ‹List Value›)
      refine (Run.interleaves_act hframe.onlyRequests).bind fun frame => ?_
      cases frame with
      | error e => exact Run.interleaves_pure _
      | ok frame => exact interleaves_execute he s address frame

theorem interleaves_variadic (he : enter.Interleaves) (f : VariadicFunction)
    (arguments : List Value) (extra : List (TypeSpec × Value)) :
    (f.call enter arguments extra).Interleaves := by
  unfold VariadicFunction.call
  split
  · exact Run.interleaves_pure _
  · split
    · exact Run.interleaves_pure _
    · refine (Run.interleaves_act
        (f.keepsInterrupts_signatureFor _).onlyRequests).bind fun prepared => ?_
      cases prepared with
      | error e => exact Run.interleaves_pure _
      | ok prepared =>
        have hframe := Act.keepsInterrupts_inherited.toArguments prepared.1.enums
          (prepared.1.params.zip (arguments ++ extra.map Prod.snd))
        refine (Run.interleaves_act hframe.onlyRequests).bind fun frame => ?_
        cases frame with
        | error e => exact Run.interleaves_pure _
        | ok frame => exact (interleaves_execute he _ _ _).bind fun _ => Run.interleaves_pure _

/-- A call that a closure makes interleaves when it watches no interrupt. -/
theorem interleaves_callFunction (he : enter.Interleaves) (further : FurtherCall)
    (hi : further.interrupt = none) : (enter.callFunction further).Interleaves := by
  cases further with
  | function f arguments block interrupt =>
    obtain rfl : interrupt = none := hi
    exact interleaves_call he _ _ _ _
  | variadic f arguments extra =>
    exact (interleaves_variadic he f arguments extra).bind fun _ => Run.interleaves_pure _

end

namespace Environment

variable {env : Environment}

/-- Code interleaves, at any depth. -/
theorem interleaves_enterWithin (henv : env.OnlyRequests) (fuel : Nat) :
    (env.enterWithin fuel).Interleaves := by
  induction fuel with
  | zero => exact fun _ _ => Run.interleaves_stuck
  | succ fuel ih =>
    intro address call
    refine Run.interleaves_get fun m => ?_
    cases m.world.pool.slotAt? address with
    | some slot =>
      exact slot.interleaves_enter henv (interleaves_callFunction ih) call
    | none =>
      cases env.native address with
      | some f => exact (Native.interleaves_run ih _).bind fun _ => Run.interleaves_pure _
      | none => exact Run.interleaves_stuck

/--
A call with an interrupt runs as the steps of a blocking call.

When native code is run with converted arguments and an interrupt, and answers, the steps of the
blocking call have been taken in one of their orders: the call has returned what the native code
has left behind, in the world that the steps leave, and its answer is made of that. So whatever
holds of the steps in every order holds of the calls that are run. Nobody else who watches an
interrupt is parked meanwhile: closures bring no interrupts.
-/
theorem execute_steps (henv : env.OnlyRequests) (fuel : Nat) (s : Signature) (address : Nat)
    (frame : Frame) (i : Nat) {m n : Machine} {answer : Outcome Value}
    (hm : ∀ q ∈ m.parked, q.interrupt = none)
    (h : execute (env.enterWithin fuel) s address frame (some i) m = some (answer, n)) :
    ∃ ls c, ∃ done : Done, Steps (start m.world i) ls c ∧ c.answer = some (.ok done) ∧
      done.answer s ⟨c.world, m.thread, m.parked⟩ = some (answer, n) := by
  rw [execute_eq_bind, Option.isSome_some, Bool.or_true, if_pos rfl] at h
  obtain ⟨⟨done, m₁⟩, hd, ha⟩ := Option.bind_eq_some_iff.mp h
  obtain ⟨ls, c, hls, hc, rfl⟩ :=
    Run.onHelper_steps (interleaves_rawCall (interleaves_enterWithin henv fuel) _ _ _) hm hd
  exact ⟨ls, c, done, hls, hc, ha⟩

end Environment

end ForeignCall
