import ForeignCall.Proofs.Actions
import ForeignCall.Proofs.Call.Scope
import ForeignCall.Proofs.Struct.Fresh
import Mathlib.Logic.Relation

/-!
# Which faults a call raises

A call fails with the first fault of the closures that its native code has entered directly, and
with no fault of another call (`Environment.faults_scoped`). The proof gives every kind of code its
place in a scope, by induction on how deep code enters code: a trampoline and native code park, a
call and a closure are neutral.
-/

namespace ForeignCall

open Abi

/-- The machine on which the native code of a call runs: nothing is parked there yet, and the thread
is a new one when there is a helper. -/
def Machine.entered (m : Machine) (helper : Bool) (interrupt : Option Nat) : Machine :=
  if helper then ⟨m.world, Thread.start.enterCall, .start interrupt :: m.parked⟩
  else ⟨m.world, m.thread.enterCall, m.parked⟩

/-- The machine that a call leaves to its caller when its native code comes back with `inside`: the
caller has its thread back, with the error number that the native code has left if the call saves
it. -/
def Machine.returned (m : Machine) (s : Signature) (helper : Bool) (inside : Machine) : Machine :=
  let thread := if helper then m.thread else inside.thread.leaveCall m.thread.pending
  ⟨inside.world, if s.savesErrno then thread.saveErrno inside.thread.osErrno else thread,
    if helper then inside.parked.tail else inside.parked⟩

namespace Machine

variable (m : Machine) (s : Signature) (helper : Bool) (inside : Machine)

theorem returned_savedErrno : (m.returned s helper inside).thread.savedErrno =
    if s.savesErrno then inside.thread.osErrno
    else if helper then m.thread.savedErrno else inside.thread.savedErrno := by
  unfold returned
  cases s.savesErrno <;> cases helper <;> rfl

end Machine

/-- What a call answers: the first fault of its closures, and without one what its result is
converted to. -/
def answerAfter (faults : List Fault) (converted : Outcome Value) : Outcome Value :=
  match faults with
  | f :: _ => .error (.fault f)
  | [] => converted

/-! ## Calls -/

section

variable {enter : Enter} {faults : Nat → Call → Machine → List Fault}

theorem Machine.enterCall_eq (m : Machine) :
    Machine.mk m.world m.thread.enterCall m.parked = m.scoped none (m.thread.depth + 1) := rfl

/-- A raw call collects the first fault of the code that it enters, and puts back what was parked
before it. -/
theorem rawCall_eq (he : ∀ address call, (enter address call).Parks (faults address call))
    (s : Signature) (address : Nat) (frame : Frame) (m : Machine) :
    rawCall enter s address frame m =
      (enter address (s.push frame m.world.memory.heap)
        ⟨m.world, m.thread.enterCall, m.parked⟩).map fun r =>
        (⟨r.1.toBytes s.ret.record, if s.savesErrno then some r.2.thread.osErrno else none,
          (faults address (s.push frame m.world.memory.heap)
            ⟨m.world, m.thread.enterCall, m.parked⟩).head?⟩,
          r.2.scoped m.thread.pending m.thread.depth) := by
  show Option.bind (enter address (s.push frame m.world.memory.heap)
    ⟨m.world, m.thread.enterCall, m.parked⟩) _ = _
  rcases hr : enter address (s.push frame m.world.memory.heap)
    ⟨m.world, m.thread.enterCall, m.parked⟩ with - | ⟨returned, m'⟩
  · rfl
  · have hs := (he _ _).scope hr
    rw [hs]
    rfl

theorem neutral_rawCall (he : ∀ address call, (enter address call).Parks (faults address call))
    (s : Signature) (address : Nat) (frame : Frame) :
    (rawCall enter s address frame).Neutral := by
  refine .mk fun m p d => ?_
  have hm : Machine.mk (m.scoped p d).world (m.scoped p d).thread.enterCall (m.scoped p d).parked =
      m.scoped none (d + 1) := rfl
  rw [rawCall_eq he, rawCall_eq he, hm, Machine.enterCall_eq, (he _ _).run, (he _ _).run,
    (he _ _).faults, (he _ _).faults, Option.map_map, Option.map_map, Option.map_map]
  rfl

/-- What a call makes of what the native code has left behind. -/
def Done.answer (done : Done) (s : Signature) : Run (Outcome Value) := do
  if let some code := done.errno then Run.onThread fun t => t.saveErrno code
  match done.fault with
  | some f => return .error (.fault f)
  | none => Run.act (s.ret.ofNative done.bytes)

theorem execute_eq_bind (s : Signature) (address : Nat) (frame : Frame)
    (interrupt : Option Nat) : execute enter s address frame interrupt =
      (if s.blocking || interrupt.isSome then
        Run.onHelper interrupt (rawCall enter s address frame)
      else rawCall enter s address frame) >>= fun done => done.answer s := by
  unfold execute
  split
  · congr 1
  · congr 1

theorem Done.neutral_answer (done : Done) (s : Signature) : (done.answer s).Neutral := by
  unfold Done.answer
  have hf : Run.Neutral (match done.fault with
      | some f => (return .error (.fault f) : Run (Outcome Value))
      | none => Run.act (s.ret.ofNative done.bytes)) := by
    cases done.fault with
    | some f => exact Run.neutral_pure _
    | none => exact Run.neutral_act _
  cases done.errno with
  | some code => exact (Run.neutral_onThread fun _ _ _ => rfl).bind fun _ => hf
  | none => exact hf

/-- A fault, or else what an operation answers. -/
def Act.unless (fault : Option Fault) (x : Act Value) : Act Value :=
  match fault with
  | some f => refuse f
  | none => x

/-- What native code has left behind decides the answer of a call and the saved error number, and
nothing else of the machine. -/
theorem Done.answer_eq (done : Done) (s : Signature) (m : Machine) :
    done.answer s m =
      let o := (s.ret.ofNative done.bytes).unless done.fault m.world
      some (o.1, ⟨o.2, done.errno.elim m.thread m.thread.saveErrno, m.parked⟩) := by
  obtain ⟨bytes, errno, fault⟩ := done
  cases errno <;> cases fault <;> rfl

/-- A call runs its native code once, and answers by the machine that the code comes back with. -/
theorem execute_eq_map (s : Signature) (address : Nat) (frame : Frame)
    (interrupt : Option Nat) (m : Machine) :
    execute enter s address frame interrupt m =
      (enter address (s.push frame m.world.memory.heap)
        (m.entered (s.blocking || interrupt.isSome) interrupt)).map fun r =>
        let n := m.returned s (s.blocking || interrupt.isSome) r.2
        let o := (s.ret.ofNative (r.1.toBytes s.ret.record)).unless r.2.thread.pending n.world
        (o.1, ⟨o.2, n.thread, n.parked⟩) := by
  rw [execute_eq_bind]
  by_cases hb : (s.blocking || interrupt.isSome) = true
  · rw [if_pos hb, hb]
    show Option.bind (Option.bind (Option.bind (enter address (s.push frame m.world.memory.heap)
      ⟨m.world, Thread.start.enterCall, .start interrupt :: m.parked⟩) _) _) _ =
      Option.map _ (enter address (s.push frame m.world.memory.heap)
        ⟨m.world, Thread.start.enterCall, .start interrupt :: m.parked⟩)
    rcases enter address (s.push frame m.world.memory.heap)
      ⟨m.world, Thread.start.enterCall, .start interrupt :: m.parked⟩ with - | ⟨returned, n⟩
    · rfl
    · refine (Done.answer_eq _ s _).trans ?_
      cases hsave : s.savesErrno <;> simp [Machine.returned, hsave]
  · rw [if_neg hb, Bool.eq_false_iff.mpr hb]
    show Option.bind (Option.bind (enter address (s.push frame m.world.memory.heap)
      ⟨m.world, m.thread.enterCall, m.parked⟩) _) _ =
      Option.map _ (enter address (s.push frame m.world.memory.heap)
        ⟨m.world, m.thread.enterCall, m.parked⟩)
    rcases enter address (s.push frame m.world.memory.heap)
      ⟨m.world, m.thread.enterCall, m.parked⟩ with - | ⟨returned, n⟩
    · rfl
    · refine (Done.answer_eq _ s _).trans ?_
      cases hsave : s.savesErrno <;> simp [Machine.returned, hsave]

theorem neutral_execute (he : ∀ address call, (enter address call).Parks (faults address call))
    (s : Signature) (address : Nat) (frame : Frame)
    (interrupt : Option Nat) : (execute enter s address frame interrupt).Neutral := by
  rw [execute_eq_bind]
  refine Run.Neutral.bind ?_ fun done => done.neutral_answer s
  split
  · exact Run.neutral_onHelper _ _
  · exact neutral_rawCall he s address frame

/-- Native code run with converted arguments answers with the first fault of the closures that it
enters directly, and otherwise with its result. -/
theorem execute_world (he : ∀ address call, (enter address call).Parks (faults address call))
    (s : Signature) (address : Nat) (frame : Frame)
    (interrupt : Option Nat) (m : Machine) :
    (execute enter s address frame interrupt m).map (fun r => (r.1, r.2.world)) =
      (enter address (s.push frame m.world.memory.heap)
        (m.entered (s.blocking || interrupt.isSome) interrupt)).map fun r =>
        (s.ret.ofNative (r.1.toBytes s.ret.record)).unless
          (faults address (s.push frame m.world.memory.heap)
            (m.entered (s.blocking || interrupt.isSome) interrupt)).head? r.2.world := by
  have hpending : (m.entered (s.blocking || interrupt.isSome) interrupt).thread.pending = none ∧
      (m.entered (s.blocking || interrupt.isSome) interrupt).thread.depth ≠ 0 := by
    unfold Machine.entered
    split <;> exact ⟨rfl, Nat.succ_ne_zero _⟩
  rw [execute_eq_map]
  rcases hr : enter address (s.push frame m.world.memory.heap)
    (m.entered (s.blocking || interrupt.isSome) interrupt) with - | ⟨returned, n⟩
  · rfl
  · -- nothing is parked where the native code begins, so what is parked at its end is its own
    have hscope := congrArg (fun n : Machine => n.thread.pending) ((he _ _).scope hr)
    change n.thread.pending = parkedAfter _ _ _ at hscope
    rw [parkedAfter, if_neg hpending.2, hpending.1] at hscope
    simp only [Option.map_some, hscope]
    rfl

theorem Act.unless_fst (l : List Fault) (x : Act Value) (w : World) :
    (x.unless l.head? w).1 = answerAfter l (x w).1 := by
  cases l <;> rfl

theorem execute_eq (he : ∀ address call, (enter address call).Parks (faults address call))
    (s : Signature) (address : Nat) (frame : Frame)
    (interrupt : Option Nat) (m : Machine) :
    (execute enter s address frame interrupt m).map Prod.fst =
      (enter address (s.push frame m.world.memory.heap)
        (m.entered (s.blocking || interrupt.isSome) interrupt)).map fun r =>
        answerAfter (faults address (s.push frame m.world.memory.heap)
          (m.entered (s.blocking || interrupt.isSome) interrupt))
          (s.ret.ofNative (r.1.toBytes s.ret.record) r.2.world).1 := by
  have h := congrArg (Option.map Prod.fst) (execute_world he s address frame interrupt m)
  rw [Option.map_map, Option.map_map] at h
  refine h.trans (congrArg (Option.map · _) (funext fun r => ?_))
  exact Act.unless_fst _ _ r.2.world

/-- A call is neutral, whether or not its arguments are converted. -/
theorem neutral_call (he : ∀ address call, (enter address call).Parks (faults address call))
    (s : Signature) (address : Nat) (arguments : List Value) (block interrupt : Option Nat) :
    (enter.call s address arguments block interrupt).Neutral := by
  unfold Enter.call
  split
  · exact Run.neutral_pure _
  · split
    · exact Run.neutral_pure _
    · refine (Run.neutral_act _).bind fun frame => ?_
      cases frame with
      | error e => exact Run.neutral_pure _
      | ok frame => exact neutral_execute he s address frame interrupt

/-- A call with further arguments is neutral, too. -/
theorem neutral_variadic (he : ∀ address call, (enter address call).Parks (faults address call))
    (f : VariadicFunction) (arguments : List Value) (extra : List (TypeSpec × Value)) :
    (f.call enter arguments extra).Neutral := by
  unfold VariadicFunction.call
  split
  · exact Run.neutral_pure _
  · split
    · exact Run.neutral_pure _
    · refine (Run.neutral_act _).bind fun prepared => ?_
      cases prepared with
      | error e => exact Run.neutral_pure _
      | ok prepared =>
        refine (Run.neutral_act _).bind fun frame => ?_
        cases frame with
        | error e => exact Run.neutral_pure _
        | ok frame => exact (neutral_execute he _ _ _ _).bind fun _ => Run.neutral_pure _

theorem neutral_callFunction
    (he : ∀ address call, (enter address call).Parks (faults address call))
    (further : FurtherCall) : (enter.callFunction further).Neutral := by
  cases further with
  | function f arguments block interrupt => exact neutral_call he _ _ _ _ _
  | variadic f arguments extra =>
    exact (neutral_variadic he f arguments extra).bind fun _ => Run.neutral_pure _

theorem Run.act_bind {α β : Type} {a : Act α} {k : Outcome α → Run β} {m : Machine}
    {o : Outcome α} {w : World} (h : a m.world = (o, w)) :
    (Run.act a >>= k) m = k o ⟨w, m.thread, m.parked⟩ := by
  show k (a m.world).1 ⟨(a m.world).2, m.thread, m.parked⟩ = _
  rw [h]

/-- A call whose arguments are converted runs the native code. -/
theorem call_eq_execute {s : Signature} {address : Nat} {arguments values : List Value}
    {block interrupt : Option Nat} {m : Machine} {frame : Frame} {w : World}
    (ha : address ≠ 0) (hv : s.bindArguments arguments block = .ok values)
    (hf : toArguments s.enums (s.params.zip values) m.world = (.ok frame, w)) :
    enter.call s address arguments block interrupt m =
      execute enter s address frame interrupt ⟨w, m.thread, m.parked⟩ := by
  unfold Enter.call
  rw [if_neg ha, hv]
  exact Run.act_bind hf

end

/-! ## Every kind of code in its scope -/

/-- Code at an address parks the faults of the closures that it enters directly. -/
theorem Environment.parks_enterWithin (env : Environment) (fuel address : Nat) (call : Call) :
    (env.enterWithin fuel address call).Parks (env.faultsWithin fuel address call) := by
  induction fuel generalizing address call with
  | zero => exact Run.neutral_stuck
  | succ fuel ih =>
    -- the calls of the closures below are neutral by the induction hypothesis
    have hc : ∀ further, ((env.enterWithin fuel).callFunction further).Neutral :=
      neutral_callFunction ih
    refine Run.Parks.congr (Run.parks_get (g := fun m m' => (m.world.pool.slotAt? address).elim
      ((env.native address).elim [] fun f =>
        (f.body ((call.cursor f.result).popAll f.parameters).1
          ((call.cursor f.result).popAll f.parameters).2).faults (env.enterWithin fuel)
            (env.faultsWithin fuel) m')
      fun slot => slot.faults env (env.enterWithin fuel).callFunction call m')
      (fun m => ?_) (fun _ _ _ => rfl) fun _ _ _ => rfl) fun m => ?_
    · cases m.world.pool.slotAt? address with
      | some slot => exact slot.parks_enter env hc call
      | none =>
        cases env.native address with
        | some f => exact (Native.parks_run ih _).bind_neutral fun _ => Run.neutral_pure _
        | none => exact Run.neutral_stuck
    · rw [faultsWithin]
      dsimp only
      cases m.world.pool.slotAt? address with
      | some slot => rfl
      | none => cases env.native address <;> rfl

/-! ## Results -/

theorem Act.exists_stringFrom (address : Nat) (w : World) :
    ∃ v w', Act.stringFrom address w = (.ok v, w') := by
  cases h : w.memory.stringAt address with
  | none => exact ⟨.nil, w, Act.bind_eq_ok.mpr ⟨none, w, Act.view_eq_ok.mpr ⟨h, rfl⟩, rfl⟩⟩
  | some bytes =>
    exact ⟨_, _, Act.bind_eq_ok.mpr ⟨some bytes, w, Act.view_eq_ok.mpr ⟨h, rfl⟩, rfl⟩⟩

/-- The result of a signature that has been accepted is always converted; only the copy of a struct
needs memory. -/
theorem Ty.exists_ofNative {t : Ty} {w : World} (ht : t.checkResult = .ok ())
    (hw : ∀ layout, t = .struct layout → w.memory.Grants layout.size) (bytes : List UInt8) :
    ∃ v w', t.ofNative bytes w = (.ok v, w') := by
  cases t with
  | builtin b =>
    cases b with
    | varargs => cases ht
    | string => exact Act.exists_stringFrom _ w
    | _ => exact ⟨_, w, rfl⟩
  | struct layout =>
    obtain ⟨_, _, _, w', hs, -⟩ := Instance.ofBytes_fresh (hw layout rfl) bytes
    exact ⟨_, w', Act.map_ok hs⟩
  | array c n => cases ht
  | charArray n => cases ht
  | enumeration table => exact ⟨_, w, rfl⟩
  | callback signature => exact ⟨_, w, rfl⟩

/-! ## Outermost operations -/

namespace Environment

variable {env : Environment}

/-- What is done on a thread outside any call. -/
inductive Outermost (env : Environment) : Machine → Machine → Prop where
  | call {m m' : Machine} {fuel address : Nat} {s : Signature} {arguments : List Value}
      {block interrupt : Option Nat} {answer : Outcome Value}
      (h : (env.enterWithin fuel).call s address arguments block interrupt m = some (answer, m')) :
      Outermost env m m'
  | variadic {m m' : Machine} {fuel : Nat} {f : VariadicFunction} {arguments : List Value}
      {extra : List (TypeSpec × Value)} {answer : Outcome Value × VariadicFunction}
      (h : f.call (env.enterWithin fuel) arguments extra m = some (answer, m')) :
      Outermost env m m'
  /-- A closure is run directly. -/
  | closure {m m' : Machine} {fuel closure : Nat} {arguments : List Value} {answer : Outcome Value}
      (h : runClosure env (env.enterWithin fuel).callFunction closure arguments m =
        some (answer, m')) : Outermost env m m'
  /-- Native code is entered by other native code. -/
  | enter {m m' : Machine} {fuel address : Nat} {call : Call} {returned : Returned}
      (h : env.enterWithin fuel address call m = some (returned, m')) : Outermost env m m'
  | act {m : Machine} (f : World → World) : Outermost env m ⟨f m.world, m.thread, m.parked⟩
  | errno {m : Machine} (code : Int) :
      Outermost env m ⟨m.world, m.thread.setErrno code, m.parked⟩

/-- Outside any call nothing is parked, and nothing stays in progress. -/
theorem Outermost.idle {m m' : Machine} (h : env.Outermost m m') (hd : m.thread.depth = 0) :
    m'.thread.pending = m.thread.pending ∧ m'.thread.depth = 0 := by
  have hs : ∀ {α : Type} {x : Run α} {fx : Machine → List Fault} {a : α}, x.Parks fx →
      x m = some (a, m') → m'.thread.pending = m.thread.pending ∧ m'.thread.depth = 0 := by
    intro α x fx a hx hm
    have he := hx.scope hm
    rw [hd, parkedAfter_zero] at he
    rw [he]
    exact ⟨rfl, rfl⟩
  cases h with
  | call h => exact hs (neutral_call (env.parks_enterWithin _) _ _ _ _ _) h
  | variadic h => exact hs (neutral_variadic (env.parks_enterWithin _) _ _ _) h
  | closure h =>
    exact hs (neutral_runClosure env (neutral_callFunction (env.parks_enterWithin _)) _ _) h
  | enter h => exact hs (env.parks_enterWithin _ _ _) h
  | act f => exact ⟨rfl, hd⟩
  | errno code => exact ⟨rfl, hd⟩

/--
The faults of closures belong to calls.

* A call with converted arguments answers exactly when its native code comes back. It fails with
  the first fault of the closures that the native code has entered directly, and only with that,
  unless a returned struct finds no memory.
* A call sees nothing of the calls around it, and leaves to them what they have parked.
* Code that is entered in a call parks the first of its own faults behind what is parked already,
  and outside any call it parks nothing.
* Between outermost operations nothing is parked and no call is in progress.
-/
theorem faults_scoped (env : Environment) :
    (∀ fuel s address arguments values block interrupt m frame w,
      address ≠ 0 → Signature.bindArguments s arguments block = .ok values →
      toArguments s.enums (s.params.zip values) m.world = (.ok frame, w) →
      let call := s.push frame w.memory.heap
      let inside :=
        Machine.entered ⟨w, m.thread, m.parked⟩ (s.blocking || interrupt.isSome) interrupt
      let faults := env.faultsWithin fuel address call inside
      ((env.enterWithin fuel).call s address arguments block interrupt m).map Prod.fst =
        (env.enterWithin fuel address call inside).map (fun r =>
          answerAfter faults (s.ret.ofNative (r.1.toBytes s.ret.record) r.2.world).1) ∧
      ∀ answer m' returned m₁,
        (env.enterWithin fuel).call s address arguments block interrupt m = some (answer, m') →
        env.enterWithin fuel address call inside = some (returned, m₁) →
        s.ret.checkResult = .ok () →
        (∀ layout, s.ret = .struct layout → m₁.world.memory.Grants layout.size) →
        ∀ e, answer = .error e ↔ ∃ f, faults.head? = some f ∧ e = .fault f) ∧
    (∀ fuel s address arguments block interrupt m p d,
      (env.enterWithin fuel).call s address arguments block interrupt (Machine.scoped m p d) =
        ((env.enterWithin fuel).call s address arguments block interrupt m).map
          fun r => (r.1, r.2.scoped p d)) ∧
    (∀ fuel address call m returned m', env.enterWithin fuel address call m = some (returned, m') →
      m'.thread.depth = m.thread.depth ∧ m'.thread.pending =
        parkedAfter m.thread.pending m.thread.depth (env.faultsWithin fuel address call m)) ∧
    ∀ m, Relation.ReflTransGen env.Outermost Machine.start m →
      m.thread.pending = none ∧ m.thread.depth = 0 := by
  refine ⟨?_, ?_, ?_, ?_⟩
  · intro fuel s address arguments values block interrupt m frame w ha hv hf call inside faults
    have hcall : ((env.enterWithin fuel).call s address arguments block interrupt m).map Prod.fst =
        (env.enterWithin fuel address call inside).map fun r =>
          answerAfter faults (s.ret.ofNative (r.1.toBytes s.ret.record) r.2.world).1 := by
      rw [call_eq_execute ha hv hf]
      exact execute_eq (env.parks_enterWithin fuel) s address frame interrupt _
    refine ⟨hcall, ?_⟩
    intro answer m' returned m₁ hc he ht hg e
    rw [hc, he, Option.map_some, Option.map_some, Option.some.injEq] at hcall
    subst hcall
    obtain ⟨v, w', hv⟩ := Ty.exists_ofNative ht hg (returned.toBytes s.ret.record)
    show answerAfter faults (s.ret.ofNative (returned.toBytes s.ret.record) m₁.world).1 = _ ↔ _
    rw [hv]
    cases faults with
    | nil => simp [answerAfter]
    | cons f rest => simp [answerAfter, eq_comm]
  · intro fuel s address arguments block interrupt m p d
    exact (neutral_call (env.parks_enterWithin fuel) s address arguments block interrupt).run m p d
  · intro fuel address call m returned m' h
    rw [(env.parks_enterWithin fuel address call).scope h]
    exact ⟨rfl, rfl⟩
  · intro m hm
    induction hm with
    | refl => exact ⟨rfl, rfl⟩
    | tail _ hstep ih =>
      obtain ⟨hp, hd⟩ := hstep.idle ih.2
      exact ⟨hp.trans ih.1, hd⟩

/-- Two closures behind native code. The first makes a call that enters the second, and fails with a
fault of its own whatever that call answers; the second always gives up. -/
def nested : Environment where
  native := fun address =>
    if address = 16 then some ⟨.struct [], [], fun _ _ =>
      .enter (CodeMemory.nthCode 0) (.struct []) [] fun _ =>
        .enter (CodeMemory.nthCode 1) (.struct []) [] fun _ => .finish []⟩
    else if address = 32 then some ⟨.struct [], [], fun _ _ =>
      .enter (CodeMemory.nthCode 1) (.struct []) [] fun _ => .finish []⟩
    else none
  body := fun closure _ =>
    if closure = 0 then
      .callFunction (.atAddress 32 ⟨0, .builtin .void, [], none, .default, none, false, false⟩) []
        fun _ => .finish (.error (.fault (.runtime "own")))
    else .finish (.error (.abort "inner"))

/-- The fault of the nested call is not the one that the outer call fails with. -/
theorem faults_scoped_nested : ∃ (s : Signature) (m : Machine),
    ((nested.enterWithin 4).call s 16 [] none none m).map Prod.fst =
      some (.error (.fault (.runtime "own"))) := by
  let s : Signature := ⟨0, .builtin .void, [], none, .default, none, false, false⟩
  let pool : Pool := { World.start.pool with
    slots := #[⟨CodeMemory.nthCode 0, some ⟨s, 0⟩, none⟩,
      ⟨CodeMemory.nthCode 1, some ⟨s, 1⟩, none⟩] }
  let m : Machine := ⟨{ World.start with pool }, .start, []⟩
  have h := (faults_scoped nested).1 4 s 16 [] [] none none m [] m.world (by decide) rfl rfl
  have hf : nested.faultsWithin 4 16 (s.push [] m.world.memory.heap) (m.entered false none) =
      [.runtime "own", .runtime "callback panicked: inner"] := by decide +kernel
  have he :
      (nested.enterWithin 4 16 (s.push [] m.world.memory.heap) (m.entered false none)).isSome =
      true := by decide +kernel
  obtain ⟨r, hr⟩ := Option.isSome_iff_exists.mp he
  refine ⟨s, m, h.1.trans ?_⟩
  show Option.map _ (nested.enterWithin 4 16 (s.push [] m.world.memory.heap)
    (m.entered false none)) = _
  rw [hr, Option.map_some]
  show some (answerAfter (nested.faultsWithin 4 16 (s.push [] m.world.memory.heap)
    (m.entered false none)) _) = _
  rw [hf]
  rfl

end Environment

end ForeignCall
