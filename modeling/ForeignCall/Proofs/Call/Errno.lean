import ForeignCall.Proofs.Call.Conversion

/-!
# The saved error number

A thread saves the error number that the last saving call has left, or the one that was set last,
and several parties write it: a call that saves stores it when its native code has come back, and
the closures that the native code enters make calls of their own in the meantime. What is written
and seen along a run is its log, in the order in which it happens (`Environment.logWithin`). A call
that runs on a helper thread logs only its own end, since the code on the helper writes to another
thread.

In every log each look at the saved number sees what was written last, and the run leaves the last
number written (`Environment.savedErrno_faithful`). The proof is one statement for each kind of
code, by induction on how deep code enters code.
-/

namespace ForeignCall

open Abi

/-! ## Logs -/

/-- What happens to the saved error number of a thread. -/
inductive ErrnoEvent where
  /-- It is written: it is set, or a saving call has ended with this number of the system. -/
  | saved (code : Int)
  /-- It is looked at. -/
  | seen (code : Int)
  deriving DecidableEq, Repr

namespace ErrnoEvent

/-- The number that is saved after the events of a log. -/
def last (before : Int) : List ErrnoEvent → Int
  | [] => before
  | .saved code :: rest => last code rest
  | .seen _ :: rest => last before rest

/-- Every look in a log sees the number that was written last, or that was there before. -/
def Faithful (before : Int) : List ErrnoEvent → Prop
  | [] => True
  | .saved code :: rest => Faithful code rest
  | .seen code :: rest => code = before ∧ Faithful before rest

theorem last_append (l l' : List ErrnoEvent) (before : Int) :
    last before (l ++ l') = last (last before l) l' := by
  induction l generalizing before with
  | nil => rfl
  | cons e rest ih => cases e <;> exact ih _

theorem faithful_append {l l' : List ErrnoEvent} {before : Int} :
    Faithful before (l ++ l') ↔ Faithful before l ∧ Faithful (last before l) l' := by
  induction l generalizing before with
  | nil => simp [Faithful, last]
  | cons e rest ih => cases e <;> simp [Faithful, last, ih, and_assoc]

end ErrnoEvent

open ErrnoEvent

/-! ## Runs that keep a log -/

namespace Run

variable {α β : Type}

/-- A run that comes back has a faithful log, and leaves the number that the log leaves. -/
def Logs (x : Run α) (log : Machine → List ErrnoEvent) : Prop :=
  ∀ m a m', x m = some (a, m') → Faithful m.thread.savedErrno (log m) ∧
    m'.thread.savedErrno = last m.thread.savedErrno (log m)

variable {x : Run α} {k : α → Run β} {lx : Machine → List ErrnoEvent}
  {g : α → Machine → List ErrnoEvent}

/-- A run that neither writes the saved number nor looks at it. -/
def Quiet (x : Run α) : Prop :=
  ∀ m a m', x m = some (a, m') → m'.thread.savedErrno = m.thread.savedErrno

theorem Quiet.logs (h : x.Quiet) : x.Logs fun _ => [] :=
  fun m a m' hm => ⟨trivial, h m a m' hm⟩

theorem quiet_pure (a : α) : Quiet (pure a : Run α) := by
  rintro m b m' h
  cases h
  rfl

theorem quiet_stuck : Quiet (stuck : Run α) := by
  rintro m a m' h
  cases h

theorem quiet_act (a : Act α) : Quiet (act a) := by
  rintro m b m' h
  cases h
  rfl

theorem quiet_change (f : World → World) : Quiet (change f) := by
  rintro m b m' h
  cases h
  rfl

/-- A change of the thread that leaves the saved number alone. -/
theorem quiet_onThread {f : Thread → Thread} (hf : ∀ t, (f t).savedErrno = t.savedErrno) :
    Quiet (onThread f) := by
  rintro m b m' h
  cases h
  exact hf m.thread

theorem quiet_park (f : Fault) : Quiet (park f) := by
  refine quiet_onThread fun t => ?_
  unfold Thread.park
  split <;> rfl

theorem quiet_await (address : Nat) : Quiet (Native.await address) := by
  intro m a m' h
  rw [Native.await_eq] at h
  split at h
  · split at h
    · cases h
    · cases h
      rfl
  · cases h
    rfl

/-- A run goes on with the log that has been kept before it. -/
theorem Logs.append (hx : x.Logs lx) {m m' : Machine} {a : α} (h : x m = some (a, m'))
    {before : Int} {log : List ErrnoEvent} (hf : Faithful before log)
    (hs : m.thread.savedErrno = last before log) :
    Faithful before (log ++ lx m) ∧ m'.thread.savedErrno = last before (log ++ lx m) := by
  have hm := hx m a m' h
  rw [hs] at hm
  rw [faithful_append, last_append]
  exact ⟨⟨hf, hm.1⟩, hm.2⟩

/-- One run after another logs what the first does, then what the second does. -/
theorem Logs.bind (hx : x.Logs lx) (hk : ∀ a, (k a).Logs (g a)) :
    Logs (x >>= k) fun m => lx m ++ after x g m := by
  intro m b m'' h
  obtain ⟨⟨a, m'⟩, hm, hb⟩ := Option.bind_eq_some_iff.mp h
  obtain ⟨hf, hs⟩ := hx m a m' hm
  simp only [after, hm]
  exact (hk a).append hb hf hs

/-- A quiet run in front adds nothing. -/
theorem Quiet.bind_logs (hx : x.Quiet) (hk : ∀ a, (k a).Logs (g a)) :
    Logs (x >>= k) (after x g) :=
  fun m b m'' h => hx.logs.bind hk m b m'' h

/-- A quiet run behind adds nothing. -/
theorem Logs.bind_quiet (hx : x.Logs lx) (hk : ∀ a, (k a).Quiet) : Logs (x >>= k) lx := by
  intro m b m'' h
  obtain ⟨⟨a, m'⟩, hm, hb⟩ := Option.bind_eq_some_iff.mp h
  obtain ⟨hf, hs⟩ := hx m a m' hm
  exact ⟨hf, (hk a m' b m'' hb).trans hs⟩

/-- A run that first looks at the machine. -/
theorem logs_get {k : Machine → Run α} {g : Machine → Machine → List ErrnoEvent}
    (hk : ∀ m, (k m).Logs (g m)) : Logs (get >>= k) fun m => g m m :=
  fun m a m' h => hk m m a m' h

end Run

/-! ## The log of each kind of code -/

/-- What native code logs: `set` tells it of a step that sets the error number of the system, and
`entered` of the code at an address. -/
def Native.log {β : Type} (enter : Enter) (set : Int → List β)
    (entered : Nat → Call → Machine → List β) : Native → Machine → List β
  | .finish _ => fun _ => []
  | .look next => fun m => (next m.world.memory.heap).log enter set entered m
  | .store address bytes next =>
    Run.after (Run.change fun w =>
      { w with memory := { w.memory with heap := w.memory.heap.store address bytes } })
      fun _ => next.log enter set entered
  | .readErrno next => fun m => (next m.thread.osErrno).log enter set entered m
  | .setErrno code next => fun m => set code ++
    Run.after (Run.onThread fun t => { t with osErrno := code })
      (fun _ => next.log enter set entered) m
  | .report name items next =>
    Run.after (Run.change fun w => { w with events := w.events.push (.reported name items) })
      fun _ => next.log enter set entered
  | .enter address result arguments next => fun m =>
    entered address (Call.pushAll result arguments) m ++
      Run.after (enter address (Call.pushAll result arguments))
        (fun returned => (next (returned.toBytes result)).log enter set entered) m
  | .wait address next => Run.after (Native.await address) fun _ => next.log enter set entered

/-- What the body of a closure logs; `called` tells it of the calls that it makes. -/
def Managed.log (call : CallFunction) (called : FurtherCall → Machine → List ErrnoEvent) :
    Managed → Machine → List ErrnoEvent
  | .finish _ => fun _ => []
  | .act action next => Run.after (Run.act action) fun outcome => (next outcome).log call called
  | .readErrno next => fun m => .seen m.thread.savedErrno ::
    (next m.thread.savedErrno m.thread.osErrno).log call called m
  | .setErrno code next => fun m => .saved code ::
    Run.after (Run.onThread fun t => t.setErrno code) (fun _ => next.log call called) m
  | .call further next => fun m => called further m ++
    Run.after (call further) (fun outcome => (next outcome).log call called) m

/-- What a closure logs that is run with its arguments. -/
def closureLog (env : Environment) (call : CallFunction)
    (called : FurtherCall → Machine → List ErrnoEvent) (closure : Nat)
    (arguments : List Value) : Machine → List ErrnoEvent :=
  Run.after (Run.change fun w => { w with events := w.events.push (.entered closure arguments) })
    fun _ => (env.body closure arguments).log call called

/-- What a trampoline logs that is entered with a call. -/
def Slot.log (s : Slot) (env : Environment) (callFunction : CallFunction)
    (called : FurtherCall → Machine → List ErrnoEvent) (call : Call) :
    Machine → List ErrnoEvent :=
  match s.binding with
  | none => fun _ => []
  | some b =>
    let (arguments, _) :=
      (call.cursor b.signature.ret.record).popAll (b.signature.params.map Ty.record)
    Run.after (Run.act (b.signature.ofNatives arguments)) fun
      | .error _ => fun _ => []
      | .ok values => closureLog env callFunction called b.closure values

/-- What a call with converted arguments logs on the thread of its caller: what its native code logs
if that runs there, and the number of the system at the end of the native code if the call saves it,
whatever the call answers. -/
def executeLog (enter : Enter) (entered : Nat → Call → Machine → List ErrnoEvent) (s : Signature)
    (address : Nat) (frame : Frame) (interrupt : Option Nat) (m : Machine) : List ErrnoEvent :=
  let call := s.push frame m.world.memory.heap
  let helper := s.blocking || interrupt.isSome
  (if helper then [] else entered address call (m.entered helper interrupt)) ++
    Run.after (enter address call)
      (fun _ inside => if s.savesErrno then [.saved inside.thread.osErrno] else [])
      (m.entered helper interrupt)

/-- What a call logs: nothing when it is refused. -/
def Enter.log (enter : Enter) (entered : Nat → Call → Machine → List ErrnoEvent) (s : Signature)
    (address : Nat) (arguments : List Value) (block interrupt : Option Nat) :
    Machine → List ErrnoEvent :=
  if address = 0 then fun _ => []
  else match s.bindArguments arguments block with
    | .error _ => fun _ => []
    | .ok arguments =>
      Run.after (Run.act (toArguments s.enums (s.params.zip arguments))) fun
        | .error _ => fun _ => []
        | .ok frame => executeLog enter entered s address frame interrupt

/-- What a call of a variadic function logs. -/
def VariadicFunction.log (f : VariadicFunction) (enter : Enter)
    (entered : Nat → Call → Machine → List ErrnoEvent) (arguments : List Value)
    (extra : List (TypeSpec × Value)) : Machine → List ErrnoEvent :=
  if arguments.length ≠ f.fixed.length then fun _ => []
  else match f.promoteAll extra with
    | .error _ => fun _ => []
    | .ok types =>
      Run.after (Run.act (f.signatureFor types)) fun
        | .error _ => fun _ => []
        | .ok (s, f) =>
          Run.after
            (Run.act (toArguments s.enums (s.params.zip (arguments ++ extra.map Prod.snd)))) fun
            | .error _ => fun _ => []
            | .ok frame => executeLog enter entered s f.address frame none

/-- What a call logs that a closure makes. -/
def Enter.furtherLog (enter : Enter) (entered : Nat → Call → Machine → List ErrnoEvent) :
    FurtherCall → Machine → List ErrnoEvent
  | .function f arguments block interrupt =>
    enter.log entered f.signature f.address arguments block interrupt
  | .variadic f arguments extra => f.log enter entered arguments extra

namespace Environment

/-- What the code at an address logs on the thread that enters it. -/
def logWithin (env : Environment) : Nat → Nat → Call → Machine → List ErrnoEvent
  | 0, _, _ => fun _ => []
  | fuel + 1, address, call => fun m =>
    match m.world.pool.slotAt? address with
    | some slot => slot.log env (env.enterWithin fuel).callFunction
      ((env.enterWithin fuel).furtherLog (env.logWithin fuel)) call m
    | none =>
      match env.native address with
      | some f =>
        let (arguments, cursor) := (call.cursor f.result).popAll f.parameters
        (f.body arguments cursor).log (env.enterWithin fuel) (fun _ => []) (env.logWithin fuel) m
      | none => []

/-- What a closure logs whose calls go `fuel` deep. -/
def closureLogWithin (env : Environment) (fuel closure : Nat) (arguments : List Value) :
    Machine → List ErrnoEvent :=
  closureLog env (env.enterWithin fuel).callFunction
    ((env.enterWithin fuel).furtherLog (env.logWithin fuel)) closure arguments

end Environment

/-! ## Every kind of code keeps its log -/

section

variable {enter : Enter} {entered : Nat → Call → Machine → List ErrnoEvent} {call : CallFunction}
  {called : FurtherCall → Machine → List ErrnoEvent}

theorem Native.logs_run (he : ∀ address call, (enter address call).Logs (entered address call))
    (n : Native) : (n.run enter).Logs (n.log enter (fun _ => []) entered) := by
  induction n with
  | finish result => exact (Run.quiet_pure result).logs
  | look next ih =>
    exact Run.logs_get (g := fun m => (next m.world.memory.heap).log enter (fun _ => []) entered)
      fun m => ih m.world.memory.heap
  | store address bytes next ih => exact (Run.quiet_change _).bind_logs fun _ => ih
  | readErrno next ih =>
    exact Run.logs_get (g := fun m => (next m.thread.osErrno).log enter (fun _ => []) entered)
      fun m => ih m.thread.osErrno
  | setErrno code next ih =>
    exact (Run.quiet_onThread (f := fun t => { t with osErrno := code }) fun _ => rfl).bind_logs
      fun _ => ih
  | report name items next ih => exact (Run.quiet_change _).bind_logs fun _ => ih
  | enter address result arguments next ih => exact (he _ _).bind fun returned => ih _
  | wait address next ih =>
    rw [Native.run_wait]
    exact (Run.quiet_await address).bind_logs fun _ => ih

theorem Managed.logs_run (hc : ∀ further, (call further).Logs (called further))
    (b : Managed) : (b.run call).Logs (b.log call called) := by
  induction b with
  | finish outcome => exact (Run.quiet_pure outcome).logs
  | act action next ih => exact (Run.quiet_act action).bind_logs ih
  | readErrno next ih =>
    intro m a m' h
    obtain ⟨hf, hs⟩ := ih m.thread.savedErrno m.thread.osErrno m a m' h
    exact ⟨⟨rfl, hf⟩, hs⟩
  | setErrno code next ih =>
    -- the rest runs on the thread that has the number already
    exact fun m a m' h => ih ⟨m.world, m.thread.setErrno code, m.parked⟩ a m' h
  | call further next ih => exact (hc further).bind ih

theorem logs_runClosure (env : Environment)
    (hc : ∀ further, (call further).Logs (called further)) (closure : Nat)
    (arguments : List Value) :
    (runClosure env call closure arguments).Logs (closureLog env call called closure arguments) :=
  (Run.quiet_change _).bind_logs fun _ => Managed.logs_run hc _

theorem Slot.logs_enter (s : Slot) (env : Environment)
    (hc : ∀ further, (call further).Logs (called further)) (c : Call) :
    (s.enter env call c).Logs (s.log env call called c) := by
  unfold Slot.enter Slot.log
  cases s.binding with
  | none =>
    dsimp only
    cases s.result? env with
    | none => exact Run.quiet_stuck.logs
    | some result => exact (Run.quiet_park _).logs.bind_quiet fun _ => Run.quiet_pure _
  | some b =>
    refine Run.Logs.bind_quiet ?_ fun _ => Run.quiet_pure _
    unfold Binding.answer Binding.run
    refine Run.Logs.bind_quiet ((Run.quiet_act _).bind_logs fun values => ?_) fun outcome => ?_
    · cases values with
      | error e => exact (Run.quiet_pure _).logs
      | ok values =>
        refine (logs_runClosure env hc _ _).bind_quiet fun value => ?_
        cases value with
        | error e => exact Run.quiet_pure _
        | ok value => exact Run.quiet_act _
    · cases outcome with
      | ok storage => exact Run.quiet_pure _
      | error e =>
        intro m a m' h
        exact ((Run.quiet_park _).logs.bind_quiet fun _ => Run.quiet_pure _) m a m' h |>.2

/-- A call leaves the number that its native code has left for the system if it saves it, and
otherwise what the thread of the caller has. -/
theorem execute_savedErrno {s : Signature} {address : Nat} {frame : Frame}
    {interrupt : Option Nat} {m m' : Machine} {answer : Outcome Value}
    (h : execute enter s address frame interrupt m = some (answer, m')) :
    ∃ returned inside,
      enter address (s.push frame m.world.memory.heap)
        (m.entered (s.blocking || interrupt.isSome) interrupt) = some (returned, inside) ∧
      m'.thread.savedErrno =
        if s.savesErrno then inside.thread.osErrno
        else if s.blocking || interrupt.isSome then m.thread.savedErrno
        else inside.thread.savedErrno := by
  rw [execute_eq_map] at h
  obtain ⟨⟨returned, inside⟩, he, h⟩ := Option.map_eq_some_iff.mp h
  refine ⟨returned, inside, he, ?_⟩
  cases h
  exact m.returned_savedErrno s _ inside

theorem logs_execute (he : ∀ address call, (enter address call).Logs (entered address call))
    (s : Signature) (address : Nat) (frame : Frame) (interrupt : Option Nat) :
    (execute enter s address frame interrupt).Logs
      (executeLog enter entered s address frame interrupt) := by
  intro m answer m' h
  obtain ⟨returned, inside, hr, hs⟩ := execute_savedErrno h
  have hin := he _ _ _ _ _ hr
  unfold executeLog
  simp only [Run.after, hr]
  rw [faithful_append, last_append, hs]
  cases hb : s.blocking || interrupt.isSome <;> rw [hb] at hin
  · cases s.savesErrno
    · exact ⟨⟨hin.1, trivial⟩, hin.2⟩
    · exact ⟨⟨hin.1, trivial⟩, rfl⟩
  · cases s.savesErrno
    · exact ⟨⟨trivial, trivial⟩, rfl⟩
    · exact ⟨⟨trivial, trivial⟩, rfl⟩

theorem logs_call (he : ∀ address call, (enter address call).Logs (entered address call))
    (s : Signature) (address : Nat) (arguments : List Value) (block interrupt : Option Nat) :
    (enter.call s address arguments block interrupt).Logs
      (enter.log entered s address arguments block interrupt) := by
  unfold Enter.call Enter.log
  split
  · exact (Run.quiet_pure _).logs
  · cases s.bindArguments arguments block with
    | error f => exact (Run.quiet_pure _).logs
    | ok values =>
      refine (Run.quiet_act _).bind_logs fun frame => ?_
      cases frame with
      | error e => exact (Run.quiet_pure _).logs
      | ok frame => exact logs_execute he s address frame interrupt

theorem logs_variadic (he : ∀ address call, (enter address call).Logs (entered address call))
    (f : VariadicFunction) (arguments : List Value) (extra : List (TypeSpec × Value)) :
    (f.call enter arguments extra).Logs (f.log enter entered arguments extra) := by
  unfold VariadicFunction.call VariadicFunction.log
  split
  · exact (Run.quiet_pure _).logs
  · cases f.promoteAll extra with
    | error e => exact (Run.quiet_pure _).logs
    | ok types =>
      refine (Run.quiet_act _).bind_logs fun prepared => ?_
      cases prepared with
      | error e => exact (Run.quiet_pure _).logs
      | ok prepared =>
        refine (Run.quiet_act _).bind_logs fun frame => ?_
        cases frame with
        | error e => exact (Run.quiet_pure _).logs
        | ok frame => exact (logs_execute he _ _ _ _).bind_quiet fun _ => Run.quiet_pure _

theorem logs_callFunction (he : ∀ address call, (enter address call).Logs (entered address call))
    (further : FurtherCall) :
    (enter.callFunction further).Logs (enter.furtherLog entered further) := by
  cases further with
  | function f arguments block interrupt => exact logs_call he _ _ _ _ _
  | variadic f arguments extra =>
    exact (logs_variadic he f arguments extra).bind_quiet fun _ => Run.quiet_pure _

end

namespace Environment

/-- Code at an address keeps its log. -/
theorem logs_enterWithin (env : Environment) (fuel address : Nat) (call : Call) :
    (env.enterWithin fuel address call).Logs (env.logWithin fuel address call) := by
  induction fuel generalizing address call with
  | zero => exact Run.quiet_stuck.logs
  | succ fuel ih =>
    intro m returned m' h
    rw [logWithin]
    rw [enterWithin_succ] at h
    dsimp only
    cases hslot : m.world.pool.slotAt? address with
    | some slot =>
      rw [hslot] at h
      exact slot.logs_enter env (logs_callFunction ih) call m returned m' h
    | none =>
      rw [hslot] at h
      cases hf : env.native address with
      | some f =>
        rw [hf] at h
        exact ((Native.logs_run ih _).bind_quiet fun _ => Run.quiet_pure _) m returned m' h
      | none =>
        rw [hf] at h
        cases h

/-! ## Histories of a thread -/

/-- What is done on one thread from a machine on, as far as it returns, with its log. -/
inductive History (env : Environment) (m : Machine) : List ErrnoEvent → Machine → Prop where
  | nil : History env m [] m
  /-- The error number is set. -/
  | set {log : List ErrnoEvent} {n : Machine} (h : History env m log n) (code : Int) :
      History env m (log ++ [.saved code]) ⟨n.world, n.thread.setErrno code, n.parked⟩
  /-- The saved error number is looked at. -/
  | look {log : List ErrnoEvent} {n : Machine} (h : History env m log n) :
      History env m (log ++ [.seen n.thread.savedErrno]) n
  | call {log : List ErrnoEvent} {n n' : Machine} (h : History env m log n) {fuel address : Nat}
      {s : Signature} {arguments : List Value} {block interrupt : Option Nat}
      {answer : Outcome Value}
      (hc : (env.enterWithin fuel).call s address arguments block interrupt n =
        some (answer, n')) :
      History env m (log ++
        (env.enterWithin fuel).log (env.logWithin fuel) s address arguments block interrupt n) n'
  | variadic {log : List ErrnoEvent} {n n' : Machine} (h : History env m log n) {fuel : Nat}
      {f : VariadicFunction} {arguments : List Value} {extra : List (TypeSpec × Value)}
      {answer : Outcome Value × VariadicFunction}
      (hc : f.call (env.enterWithin fuel) arguments extra n = some (answer, n')) :
      History env m
        (log ++ f.log (env.enterWithin fuel) (env.logWithin fuel) arguments extra n) n'
  /-- A closure is run directly. -/
  | closure {log : List ErrnoEvent} {n n' : Machine} (h : History env m log n)
      {fuel closure : Nat} {arguments : List Value} {answer : Outcome Value}
      (hc : runClosure env (env.enterWithin fuel).callFunction closure arguments n =
        some (answer, n')) :
      History env m (log ++ env.closureLogWithin fuel closure arguments n) n'
  /-- Native code is entered by other native code. -/
  | enter {log : List ErrnoEvent} {n n' : Machine} (h : History env m log n) {fuel address : Nat}
      {call : Call} {returned : Returned}
      (hc : env.enterWithin fuel address call n = some (returned, n')) :
      History env m (log ++ env.logWithin fuel address call n) n'
  | act {log : List ErrnoEvent} {n : Machine} (h : History env m log n) (f : World → World) :
      History env m log ⟨f n.world, n.thread, n.parked⟩

theorem History.faithful {env : Environment} {m n : Machine} {log : List ErrnoEvent}
    (h : env.History m log n) : Faithful m.thread.savedErrno log ∧
      n.thread.savedErrno = last m.thread.savedErrno log := by
  induction h with
  | nil => exact ⟨trivial, rfl⟩
  | set h code ih => simp [faithful_append, last_append, Faithful, last, ih.1, Thread.setErrno]
  | look h ih => simp [faithful_append, last_append, Faithful, last, ih.1, ih.2]
  | call h hc ih => exact (logs_call (env.logs_enterWithin _) _ _ _ _ _).append hc ih.1 ih.2
  | variadic h hc ih => exact (logs_variadic (env.logs_enterWithin _) _ _ _).append hc ih.1 ih.2
  | closure h hc ih =>
    exact (logs_runClosure env (logs_callFunction (env.logs_enterWithin _)) _ _).append hc ih.1 ih.2
  | enter h hc ih => exact (env.logs_enterWithin _ _ _).append hc ih.1 ih.2
  | act h f ih => exact ih

/--
The saved error number of a thread is what was written to it last.

* Over every history of a thread, each look sees the number that was set last or that the last
  saving call has left, in the order in which calls end, and the history leaves that number.
* So does the code that a call enters, on whichever thread it runs, at any depth.
* A call that is refused leaves the thread as it was.
* A call that enters its native code and saves leaves the number that the system has for the thread
  of the native code when that comes back, whatever the call answers. A call that does not save
  leaves the number to the closures behind its native code, and on a helper thread not even to them.
-/
theorem savedErrno_faithful (env : Environment) :
    (∀ m log n, env.History m log n → Faithful m.thread.savedErrno log ∧
      n.thread.savedErrno = last m.thread.savedErrno log) ∧
    (∀ fuel address call m returned n, env.enterWithin fuel address call m = some (returned, n) →
      Faithful m.thread.savedErrno (env.logWithin fuel address call m) ∧
      n.thread.savedErrno = last m.thread.savedErrno (env.logWithin fuel address call m)) ∧
    ∀ fuel s address arguments block interrupt m answer n,
      (env.enterWithin fuel).call s address arguments block interrupt m = some (answer, n) →
      ((address = 0 ∨ ∃ f ids w, s.Refuses arguments block m.world f ids w) →
        n.thread = m.thread) ∧
      ∀ values frame w, address ≠ 0 → s.Binds arguments block values →
        toArguments s.enums (s.params.zip values) m.world = (.ok frame, w) →
        let helper := s.blocking || interrupt.isSome
        ∃ returned inside, env.enterWithin fuel address (s.push frame w.memory.heap)
            (Machine.entered ⟨w, m.thread, m.parked⟩ helper interrupt) = some (returned, inside) ∧
          n.thread.savedErrno = if s.savesErrno then inside.thread.osErrno
            else if helper then m.thread.savedErrno else inside.thread.savedErrno := by
  refine ⟨fun m log n h => h.faithful,
    fun fuel address call => env.logs_enterWithin fuel address call, ?_⟩
  intro fuel s address arguments block interrupt m answer n h
  constructor
  · intro hr
    by_cases ha : address = 0
    · rw [Enter.call, if_pos ha] at h
      cases h
      rfl
    · obtain ⟨f, ids, w, hr⟩ := hr.resolve_left ha
      rw [Enter.call_eq_error ha hr] at h
      cases h
      rfl
  · intro values frame w ha hv hf
    rw [call_eq_execute ha (Signature.bindArguments_eq_ok.mpr hv) hf] at h
    exact execute_savedErrno h

/-- A function that leaves 7, after it has entered a closure that calls a function that leaves 9,
looks at the saved number, and fails. -/
def erring : Environment where
  native := fun address =>
    if address = 16 then some ⟨.struct [], [], fun _ _ =>
      .enter (CodeMemory.nthCode 0) (.struct []) [] fun _ => .setErrno 7 (.finish [])⟩
    else if address = 32 then some ⟨.struct [], [], fun _ _ => .setErrno 9 (.finish [])⟩
    else none
  body := fun _ _ =>
    .callFunction (.atAddress 32 ⟨0, .builtin .void, [], none, .default, none, false, true⟩) []
      fun _ => .readErrno fun _ _ => .finish (.error (.fault (.runtime "failed")))

/-- The number is set to 5, then the function is called. What its closure has seen in between is not
what the failed call leaves. -/
theorem savedErrno_faithful_erring : ∃ (s : Signature) (m n : Machine) (log : List ErrnoEvent),
    erring.History m log n ∧ log = [.saved 5, .saved 9, .seen 9, .saved 7] ∧
    n.thread.savedErrno = 7 ∧
    ((erring.enterWithin 4).call s 16 [] none none
      ⟨m.world, m.thread.setErrno 5, m.parked⟩).map Prod.fst =
        some (.error (.fault (.runtime "failed"))) := by
  let s : Signature := ⟨0, .builtin .void, [], none, .default, none, false, true⟩
  let pool : Pool :=
    { World.start.pool with slots := #[⟨CodeMemory.nthCode 0, some ⟨s, 0⟩, none⟩] }
  let m : Machine := ⟨{ World.start with pool }, .start, []⟩
  let m₁ : Machine := ⟨m.world, m.thread.setErrno 5, m.parked⟩
  have hs : ((erring.enterWithin 4).call s 16 [] none none m₁).isSome = true := by decide +kernel
  obtain ⟨⟨answer, n⟩, hc⟩ := Option.isSome_iff_exists.mp hs
  have hl : (erring.enterWithin 4).log (erring.logWithin 4) s 16 [] none none m₁ =
      [.saved 9, .seen 9, .saved 7] := by decide +kernel
  have h : erring.History m [.saved 5, .saved 9, .seen 9, .saved 7] n := by
    have hset : erring.History m ([] ++ [.saved 5]) m₁ := .set .nil 5
    have hcall := History.call hset hc
    rwa [hl] at hcall
  exact ⟨s, m, n, _, h, rfl, ((savedErrno_faithful erring).1 m _ n h).2, by rfl⟩

end Environment

end ForeignCall
