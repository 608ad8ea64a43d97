import ForeignCall.Proofs.Call.Conversion
import ForeignCall.Proofs.Call.Results

/-!
# Calls of functions made of closures

When a closure is called through its own code address, everything that crosses does so twice: the
arguments are converted to bytes and read again, and so is the result. Such a call is the closure
run on the images of the arguments (`Environment.call_ofClosure`), as long as the calling convention
hands the bytes over whole.
-/

namespace ForeignCall

open Abi

/-! ## Signatures that have been made -/

/-- A signature that has passed its checks, of types that have been built. -/
structure Signature.Accepted (s : Signature) : Prop where
  result : s.ret.checkResult = .ok ()
  parameters : ∀ t ∈ s.params, ∃ i, t.checkParameter i = .ok ()
  built : ∀ t ∈ s.ret :: s.params, t.Built
  tables : Enums.InRange s.enums

theorem Checked.forM_eq_ok {α : Type} {f : α → Checked Unit} {l : List α} (h : l.forM f = .ok ()) :
    ∀ a ∈ l, f a = .ok () := by
  induction l with
  | nil => simp
  | cons b l ih =>
    change (f b >>= fun _ => l.forM f) = .ok () at h
    cases hb : f b with
    | error e =>
      rw [hb] at h
      cases h
    | ok u =>
      rw [hb] at h
      intro a ha
      rcases List.mem_cons.mp ha with rfl | ha
      · exact hb
      · exact ih h a ha

theorem Signature.accepted_ofTypes {ret : Ty} {params : List Ty} {fixed : Option Nat}
    {o : SignatureOptions} {w w' : World} {s : Signature}
    (h : ofTypes ret params fixed o w = (.ok s, w')) (ht : ∀ t ∈ ret :: params, t.Built)
    (ho : Enums.InRange o.enums) : s.Accepted := by
  obtain ⟨_, w₁, hr, h⟩ := Act.bind_eq_ok.mp h
  obtain ⟨_, w₂, hp, h⟩ := Act.bind_eq_ok.mp h
  obtain ⟨id, w₃, hid, h⟩ := Act.bind_eq_ok.mp h
  obtain ⟨rfl, -⟩ := Act.pure_eq_ok.mp h
  refine ⟨(Act.ofChecked_eq_ok.mp hr).1, fun t hmem => ?_, ht, ho⟩
  obtain ⟨i, hi, rfl⟩ := List.mem_iff_getElem.mp hmem
  exact ⟨i, Checked.forM_eq_ok (Act.ofChecked_eq_ok.mp hp).1 (params[i], i)
    (List.mem_zipIdx_iff_getElem?.mpr (List.getElem?_eq_getElem hi))⟩

/-- A type that can be passed can be returned. -/
theorem Ty.checkResult_of_checkParameter {t : Ty} {i : Nat} (h : t.checkParameter i = .ok ()) :
    t.checkResult = .ok () := by
  cases t with
  | builtin b =>
    cases b with
    | varargs => cases h
    | _ => rfl
  | array c n => cases h
  | charArray n => cases h
  | _ => rfl

/-- The calling convention hands the bytes of every struct in a signature over whole. -/
def Signature.Whole (s : Signature) : Prop :=
  ∀ layout, Ty.struct layout ∈ s.ret :: s.params → layout.size ≤ (Ty.struct layout).record.size

theorem Signature.Accepted.size_le_record {s : Signature} (hs : s.Accepted) (h : s.Whole) :
    ∀ t ∈ s.ret :: s.params, t.size ≤ t.record.size := by
  intro t ht
  have hr : t.checkResult = .ok () := by
    rcases List.mem_cons.mp ht with rfl | hp
    · exact hs.result
    · obtain ⟨i, hi⟩ := hs.parameters t hp
      exact Ty.checkResult_of_checkParameter hi
  by_cases hl : ∃ layout, t = .struct layout
  · obtain ⟨layout, rfl⟩ := hl
    exact h layout ht
  · exact Nat.le_of_eq (Ty.size_eq_record (fun layout he => hl ⟨layout, he⟩) hr).symm

/-- An identity belongs to one signature at a time: every live callback of the identity is of this
signature. -/
def World.Identifies (w : World) (s : Signature) : Prop :=
  ∀ (id : Nat) (c : Callback), w.trampoline? id = some c → c.signature.id = s.id → c.signature = s

/-! ## Trampolines -/

/-- What a call makes of the bytes that a trampoline has left, or of its failure. -/
def Signature.conclude (s : Signature) : Outcome (List UInt8) → Act Value
  | .ok bytes => s.ret.ofNative bytes
  | .error e => Act.refuse e.toFault

section

variable {env : Environment} {fuel : Nat} {m : Machine} {s : Signature} {closure address : Nat}
  {interface : Option Nat}

/-- The bytes of the arguments that a trampoline takes from a call. -/
def Binding.natives (b : Binding) (c : Call) : List (List UInt8) :=
  ((c.cursor b.signature.ret.record).popAll (b.signature.params.map Ty.record)).1

/-- The bytes of the arguments of a frame as they arrive, with memory as it is. -/
def Frame.arriving (frame : Frame) (heap : Heap) : List (List UInt8) := handedOver (frame.load heap)

/-- From a call that was made for its own signature a trampoline takes what the call hands over. -/
theorem Binding.natives_push {frame : Frame} (heap : Heap)
    (hf : frame.map Prod.fst = s.params.map Ty.record) :
    (Binding.mk s closure).natives (s.push frame heap) = frame.arriving heap := by
  have hload : (frame.load heap).map Prod.fst = s.params.map Ty.record := by
    rw [← hf, Frame.load, List.map_map]
    rfl
  have hpop := Call.popAll_pushAll s.ret.record (frame.load heap)
  rw [hload] at hpop
  exact hpop

/-- Native code that enters a bound slot gets what the trampoline leaves in the storage. -/
theorem Environment.enterWithin_bound {slot : Slot} {b : Binding} {c : Call}
    (hslot : m.world.pool.slotAt? address = some slot) (hb : slot.binding = some b) :
    env.enterWithin (fuel + 1) address c m =
      (b.answer env (env.enterWithin fuel).callFunction (b.natives c)
        (Bytes.zeros b.signature.ret.resultSize) m).map
          fun r => (Returned.ofBytes b.signature.ret.record r.1, r.2) := by
  rw [env.enterWithin_slot fuel c hslot]
  unfold Slot.enter
  rw [hb]
  show Option.bind (b.answer env _ (b.natives c) _ m) _ = _
  rcases b.answer env _ (b.natives c) _ m with - | r <;> rfl

theorem Environment.faultsWithin_slot {slot : Slot} {c : Call}
    (hslot : m.world.pool.slotAt? address = some slot) :
    env.faultsWithin (fuel + 1) address c m =
      slot.faults env (env.enterWithin fuel).callFunction c m := by
  rw [faultsWithin]
  dsimp only
  rw [hslot]

theorem Environment.faultsWithin_bound {slot : Slot} {b : Binding} {c : Call}
    (hslot : m.world.pool.slotAt? address = some slot) (hb : slot.binding = some b) :
    env.faultsWithin (fuel + 1) address c m =
      Run.after (b.run env (env.enterWithin fuel).callFunction (b.natives c)
        (Bytes.zeros b.signature.ret.resultSize))
          (fun outcome _ => match outcome with
            | .ok _ => []
            | .error e => [e.toFault]) m := by
  rw [faultsWithin_slot hslot]
  unfold Slot.faults
  rw [hb]
  rfl

/-- Native code that is a trampoline of the signature of the call hands the bytes of the result
over as the closure has left them. -/
theorem execute_bound {frame : Frame}
    (hm : m.world.pool.slotAt? address = some ⟨address, some ⟨s, closure⟩, interface⟩)
    (hf : frame.map Prod.fst = s.params.map Ty.record) (hr : s.ret.size ≤ s.ret.record.size) :
    (execute (env.enterWithin (fuel + 1)) s address frame none m).map
        (fun r => (r.1, r.2.world)) =
      ((Binding.mk s closure).run env (env.enterWithin fuel).callFunction
        (frame.arriving m.world.memory.heap) (Bytes.zeros s.ret.resultSize)
          (m.entered s.blocking none)).map fun r => s.conclude r.1 r.2.world := by
  have hin : (m.entered s.blocking none).world = m.world := by
    unfold Machine.entered
    split <;> rfl
  rw [← hin] at hm
  rw [execute_world (env.parks_enterWithin (fuel + 1)), Option.isSome_none, Bool.or_false,
    env.enterWithin_bound hm rfl, env.faultsWithin_bound hm rfl, Binding.natives_push _ hf]
  unfold Run.after
  show Option.map _ (Option.map _ (Option.bind (Binding.run ..) _)) = _
  rcases Binding.run .. with - | ⟨e | bytes, m'⟩
  · rfl
  · rfl
  · show some (Act.unless none (s.ret.ofNative ((Returned.ofBytes s.ret.record bytes).toBytes
      s.ret.record)) m'.world) = _
    rw [Ty.ofNative_returned hr]
    rfl

/-- A closure is run on what its arguments are read as, and its result is converted. -/
theorem Binding.run_ok {b : Binding} {call : CallFunction} {natives : List (List UInt8)}
    {storage : List UInt8} {images : List Value} {w : World}
    (h : b.signature.ofNatives natives m.world = (.ok images, w)) :
    b.run env call natives storage m =
      (runClosure env call b.closure images ⟨w, m.thread, m.parked⟩).bind fun r =>
        match r.1 with
        | .error e => some (.error e, r.2)
        | .ok value =>
          Run.act (b.signature.ret.toResult b.signature.enums value storage) r.2 := by
  refine (Run.act_bind h).trans ?_
  show Option.bind _ _ = _
  congr 1
  funext r
  rcases r with ⟨e | value, m'⟩ <;> rfl

end

/-! ## What a closure is handed -/

theorem Ty.Conveys.fit {tables : Option Enums} {w : World} {t : Ty} {value : Value}
    {bytes : List UInt8} (h : t.Conveys tables w value bytes) (ht : t.size ≤ t.record.size) :
    t.Conveys tables w value (Bytes.fit t.record.size bytes) := by
  intro w' hext hp hroom hcap
  rw [ofNative_fit ht]
  exact h w' hext hp hroom hcap

/-- Converted arguments are handed to a closure as their images, if there is memory for the copies
that are made of strings and structs. -/
theorem Signature.ofNatives_images {s : Signature} (hs : s.Accepted) (hwhole : s.Whole)
    {w w' : World}
    (hcap : ∀ layout, Ty.struct layout ∈ s.params → w.memory.heap.Affords layout.size)
    (hw : w.Settled) {arguments : List Value} (hlen : arguments.length = s.params.length)
    {frame : Frame} (h : toArguments s.enums (s.params.zip arguments) w = (.ok frame, w'))
    (hroom : (s.ofNatives (frame.arriving w'.memory.heap) w').2.HasRoom) :
    frame.map Prod.fst = s.params.map Ty.record ∧ w.Prepared w' ∧
      ∃ images w'', s.ofNatives (frame.arriving w'.memory.heap) w' = (.ok images, w'') ∧
        w'.Extends w'' ∧ List.Forall₂ (fun a x => a.1.Image s.enums w' w'' a.2 x)
          (s.params.zip arguments) images := by
  have hparams : (s.params.zip arguments).map Prod.fst = s.params :=
    List.map_fst_zip (Nat.le_of_eq hlen.symm)
  have hmem : ∀ p ∈ s.params.zip arguments, p.1 ∈ s.params := fun p hp =>
    (List.of_mem_zip hp).1
  have hbuilt : ∀ p ∈ s.params.zip arguments, p.1.Built := fun p hp =>
    hs.built p.1 (List.mem_cons_of_mem _ (hmem p hp))
  obtain ⟨hprep, hall⟩ := toArguments_conveys hs.tables hbuilt hw h
  have hrecords := records_toArguments hlen h
  have hconveys : List.Forall₂ (fun p bytes => p.1.Conveys s.enums w' p.2 bytes)
      (s.params.zip arguments) (frame.arriving w'.memory.heap) := by
    refine List.forall₂_map_right_iff.mpr (List.forall₂_map_right_iff.mpr ?_)
    refine ((List.forall₂_and_left _ _).mpr ⟨hmem, hall⟩).imp ?_
    rintro p ⟨record, passed⟩ ⟨hp, rfl, hc⟩
    exact hc.fit (hs.size_le_record hwhole _ (List.mem_cons_of_mem _ hp))
  have himages := Ty.ofNatives_images hconveys
    (fun p hp layout he => hprep.affords (hcap layout (he ▸ hmem p hp))) (.refl w')
    (hw.prepared hprep).strings
  rw [hparams] at himages
  obtain ⟨images, w'', hof, hext, -, himage⟩ := himages hroom
  exact ⟨hrecords, hprep, images, w'', hof, hext, himage⟩

/-! ## Functions made of closures -/

/-- A function that has been made of a closure enters it as long as it is held. -/
theorem Holdings.bound_ofClosure {r t : Holdings} {s : Signature} {closure : Nat} {f : Function}
    {w : World} (hr : r.Reachable) (hc : r.world.isHeld r.held (.proc closure) = true)
    (hf : Function.ofClosure s closure r.world = (.ok f, w)) (hs : w.Identifies s)
    (hrun : Run ⟨w, f.refs ++ r.held⟩ t)
    (hheld : ∀ ref ∈ f.refs, t.world.isHeld t.held ref = true) :
    f.signature = s ∧ t.world.Tended ∧ t.world.Bound f.address ⟨s, closure⟩ := by
  obtain ⟨id, w₁, hm, hf⟩ := Act.bind_eq_ok.mp hf
  obtain ⟨address, w₂, hv, hf⟩ := Act.bind_eq_ok.mp hf
  obtain ⟨rfl, rfl⟩ := Act.view_eq_ok.mp hv
  obtain ⟨rfl, rfl⟩ := Act.pure_eq_ok.mp hf
  obtain ⟨hsound, cb, hcb, rfl, hid⟩ := hr.sound.makeCallback hc hm
  have hlive : w₁.trampoline? id = some cb :=
    World.trampoline?_eq_some.mpr ⟨hcb, (hsound.root _ List.mem_cons_self).2⟩
  obtain rfl := hs id cb hlive hid
  have ht := hrun.sound hsound
  obtain ⟨c, hc'⟩ := ht.trampoline_of_isHeld (hheld (.callback id) List.mem_cons_self)
  -- callbacks are never changed, so the one that is held is the one that was made
  have he := (World.trampoline?_eq_some.mp hc').1
  rw [hrun.getElem?_callbacks hcb, Option.some.injEq] at he
  subst he
  refine ⟨rfl, ht.tended, ?_⟩
  show t.world.Bound (w₁.callbackAddress id) _
  rw [World.callbackAddress_eq hcb]
  exact ht.bound hc'

/-- A call through the address of a closure runs the closure, and converts its result twice. -/
theorem Environment.call_bound (env : Environment) {s : Signature} {address closure : Nat}
    {w w' w'' : World} (hb : w'.Bound address ⟨s, closure⟩)
    (hr : s.ret.size ≤ s.ret.record.size) {arguments images : List Value}
    (hlen : arguments.length = s.params.length) {frame : Frame}
    (ha : toArguments s.enums (s.params.zip arguments) w = (.ok frame, w'))
    (hi : s.ofNatives (frame.arriving w'.memory.heap) w' = (.ok images, w'')) (fuel : Nat)
    (thread : Thread) (parked : List Parked) :
    ((env.enterWithin (fuel + 1)).call s address arguments none none ⟨w, thread, parked⟩).map
        (fun r => (r.1, r.2.world)) =
      (runClosure env (env.enterWithin fuel).callFunction closure images
        (Machine.entered ⟨w'', thread, parked⟩ s.blocking none)).bind fun r =>
          match r.1 with
          | .error e => some (s.conclude (.error e) r.2.world)
          | .ok value =>
            let written := s.ret.toResult s.enums value (Bytes.zeros s.ret.resultSize) r.2.world
            some (s.conclude written.1 written.2) := by
  have hargs : s.bindArguments arguments none = .ok arguments := if_pos hlen
  have hinside : (Machine.entered ⟨w', thread, parked⟩ s.blocking none).world = w' := by
    unfold Machine.entered
    split <;> rfl
  -- reading the arguments changes the world and nothing else of the machine
  have hentered : Machine.mk w''
      (Machine.entered ⟨w', thread, parked⟩ s.blocking none).thread
      (Machine.entered ⟨w', thread, parked⟩ s.blocking none).parked =
        Machine.entered ⟨w'', thread, parked⟩ s.blocking none := by
    unfold Machine.entered
    split <;> rfl
  obtain ⟨interface, hslot⟩ := hb.slotAt?
  rw [call_eq_execute hb.ne_zero hargs ha, execute_bound hslot (records_toArguments hlen ha) hr,
    Binding.run_ok (by rw [hinside]; exact hi), hentered]
  rcases runClosure .. with - | ⟨e | value, m'⟩ <;> rfl

/--
A function that has been made of a closure, called while it is held with arguments that are
converted, enters the closure exactly once.

* Converting the arguments changes no more than the byte behind strings that are passed as memory,
  and nothing is recorded before the closure is entered.
* The closure is run on the images of the arguments: each of the value as it stands when the code
  is entered. It is as it stood before the call, unless it is a struct with a byte behind a string
  in it, which another argument may have made zero.
* The call does not come back if the closure does not, and fails when the closure does.
* It fails when the closure returns what its type cannot be made of. Otherwise it returns what that
  stands for, and nothing is recorded after the closure has returned.
-/
theorem Environment.call_ofClosure (env : Environment) {s : Signature} (hs : s.Accepted)
    (hwhole : s.Whole) {r t : Holdings} {closure : Nat} {f : Function} {w : World}
    (hr : r.Reachable) (hc : r.world.isHeld r.held (.proc closure) = true)
    (hf : Function.ofClosure s closure r.world = (.ok f, w)) (hid : w.Identifies s)
    (hrun : Holdings.Run ⟨w, f.refs ++ r.held⟩ t)
    (hheld : ∀ ref ∈ f.refs, t.world.isHeld t.held ref = true) (ht : t.world.Placed)
    (hcap : ∀ layout, Ty.struct layout ∈ s.params → t.world.memory.heap.Affords layout.size)
    {arguments : List Value} (hlen : arguments.length = s.params.length) {frame : Frame}
    {w' : World} (ha : toArguments s.enums (s.params.zip arguments) t.world = (.ok frame, w'))
    (hroom : (s.ofNatives (frame.arriving w'.memory.heap) w').2.HasRoom) (fuel : Nat)
    (thread : Thread) (parked : List Parked) :
    let inside := (s.ofNatives (frame.arriving w'.memory.heap) w').2
    ∃ images, t.world.Prepared w' ∧ inside.events = t.world.events ∧
      List.Forall₂ (fun a x => a.1.Image s.enums w' inside a.2 x) (s.params.zip arguments) images ∧
      List.Forall₂ (fun a x => t.world.Unaffected a.1 a.2 →
        a.1.Image s.enums t.world inside a.2 x) (s.params.zip arguments) images ∧
      let call := (env.enterWithin (fuel + 1)).call f.signature f.address arguments none none
        ⟨t.world, thread, parked⟩
      let run := runClosure env (env.enterWithin fuel).callFunction closure images
        (Machine.entered ⟨inside, thread, parked⟩ s.blocking none)
      (run = none → call = none) ∧
      (∀ e m', run = some (.error e, m') →
        ∃ m'', call = some (.error (.fault e.toFault), m'') ∧ m''.world = m'.world) ∧
      ∀ value m', run = some (.ok value, m') →
        (∀ e v, s.ret.toResult s.enums value (Bytes.zeros s.ret.resultSize) m'.world =
            (.error e, v) →
          ∃ m'', call = some (.error (.fault e.toFault), m'') ∧ m''.world = v) ∧
        ∀ bytes v, s.ret.toResult s.enums value (Bytes.zeros s.ret.resultSize) m'.world =
            (.ok bytes, v) →
          (∀ layout, s.ret = .struct layout → m'.world.memory.Grants layout.size) →
          ∃ x m'', call = some (.ok x, m'') ∧ m'.world.Extends m''.world ∧
            s.ret.Returns s.enums m'.world m''.world value x := by
  obtain ⟨rfl, htended, hbound⟩ := Holdings.bound_ofClosure hr hc hf hid hrun hheld
  obtain ⟨-, hprep, images, w'', hof, hext, himages⟩ :=
    Signature.ofNatives_images hs hwhole hcap ⟨ht, htended⟩ hlen ha hroom
  have hinside : (f.signature.ofNatives (frame.arriving w'.memory.heap) w').2 = w'' :=
    congrArg Prod.snd hof
  rw [hinside]
  intro inside
  refine ⟨images, hprep, ?_, himages, ?_, ?_⟩
  · show w''.events = _
    rw [hext.events, hprep.events]
  · exact himages.imp fun a x himage hstruct => hprep.image ht hstruct himage
  · intro call run
    have hcall := env.call_bound (hprep.bound _ _ hbound)
      (hs.size_le_record hwhole _ List.mem_cons_self) hlen ha hof fuel thread parked
    have hanswer : ∀ o v, call.map (fun r => (r.1, r.2.world)) = some (o, v) →
        ∃ m'', call = some (o, m'') ∧ m''.world = v := by
      intro o v h
      obtain ⟨⟨o', m''⟩, hc, he⟩ := Option.map_eq_some_iff.mp h
      obtain ⟨rfl, rfl⟩ := Prod.mk.inj he
      exact ⟨m'', hc, rfl⟩
    change call.map _ = run.bind _ at hcall
    refine ⟨?_, ?_, ?_⟩
    · intro hrun
      rw [hrun] at hcall
      exact Option.map_eq_none_iff.mp hcall
    · intro e m' hrun
      rw [hrun] at hcall
      exact hanswer _ _ hcall
    · intro value m' hrun
      rw [hrun] at hcall
      refine ⟨?_, ?_⟩
      · intro e v hv
        refine hanswer _ _ (hcall.trans ?_)
        simp only [Option.bind_some, hv]
        rfl
      · intro bytes v hv hg
        obtain ⟨rfl, hyields⟩ :=
          (hs.built _ List.mem_cons_self).yields_toResult hs.result hs.tables hv
        obtain ⟨x, v', hx, hext', hreturns⟩ := hyields hg
        obtain ⟨m'', hm'', rfl⟩ := hanswer (.ok x) v' (hcall.trans (by
          simp only [Option.bind_some, hv]
          exact congrArg some hx))
        exact ⟨x, m'', hm'', hext', hreturns⟩

/-! ## An echo -/

/-- Every closure answers with its first argument. -/
def Environment.echo : Environment where
  native := fun _ => none
  body := fun _ arguments => .finish (.ok (arguments.headD .nil))

namespace Echo

/-- Two symbols of one value. -/
def states : Enumeration := ⟨none, [("ok", 0), ("done", 0)], by decide⟩

/-- A struct of four bytes. -/
def quad : Layout := ⟨[⟨"f", 0, .int32⟩], 4, 4, false, true⟩

/-- The signature of a callback. -/
def plain : Signature := ⟨1, .builtin .void, [], none, .default, none, false, false⟩

/-- The types of the parameters: an integer, a struct, a pointer, a string, an enumeration, and a
function pointer. -/
def params : List Ty :=
  [.builtin (.int ⟨true, .w8⟩), .struct quad, .builtin (.pointer .plain), .builtin .string,
    .enumeration states, .callback plain]

/-- A signature with these parameters. -/
def signature : Signature :=
  ⟨0, .builtin (.int ⟨true, .w8⟩), params, none, .default, none, false, false⟩

theorem ofTypes_signature : Signature.ofTypes (.builtin (.int ⟨true, .w8⟩)) params none
    ⟨.default, none, .empty, false, false⟩ World.start =
      (.ok signature, { World.start with identities := 1 }) := rfl

theorem accepted_signature : signature.Accepted := by
  have hquad : LayoutPlan.build (.ofFields [⟨"f", .descriptor
      ⟨.int32, Descriptor.firstFree⟩, none⟩] false) = .ok quad := rfl
  have hint : ∀ f ∈ quad.fields, f.ty.Built := by
    intro f hf
    obtain rfl := List.mem_singleton.mp hf
    exact .builtin _
  have hstates : states.InRange := by
    show ∀ p ∈ [("ok", (0 : Int)), ("done", 0)], _
    decide
  refine Signature.accepted_ofTypes ofTypes_signature (fun t ht => ?_) (fun all h => by cases h)
  simp only [params, List.mem_cons, List.not_mem_nil, or_false] at ht
  rcases ht with rfl | rfl | rfl | rfl | rfl | rfl | rfl
  · exact .builtin _
  · exact .builtin _
  · exact .struct hquad hint
  · exact .builtin _
  · exact .builtin _
  · exact .enumeration hstates
  · exact .callback plain

theorem eq_quad {layout : Layout} (h : Ty.struct layout ∈ signature.ret :: signature.params) :
    layout = quad := by
  simpa [signature, params] using h

theorem whole_signature : signature.Whole := by
  intro layout h
  rw [eq_quad h]
  decide

/-- Two closures have been made, and a handle of each is held. -/
def made : Holdings :=
  ⟨((Holdings.start ⟨.consecutive, some 2, 0⟩).world.withClosure "echo" []).withClosure "other" [],
    [.proc 1, .proc 0]⟩

theorem reachable_made : made.Reachable := by
  refine ⟨⟨.consecutive, some 2, 0⟩, ?_⟩
  exact .tail (.single (.closure "echo" [] (by simp))) (.closure "other" [] (by simp))

/-- The function made of the first closure. -/
def function : Function := ⟨CodeMemory.nthCode 1, signature, some 0, none⟩

/-- The world in which it has been made. -/
def madeWorld : World := (Function.ofClosure signature 0 made.world).2

theorem ofClosure_made : Function.ofClosure signature 0 made.world = (.ok function, madeWorld) :=
  Prod.ext rfl rfl

theorem identifies_madeWorld : madeWorld.Identifies signature := by
  intro id c hc _
  have hc := (World.trampoline?_eq_some.mp hc).1
  have hall : madeWorld.callbacks = #[⟨1, CodeMemory.nthCode 1, signature, 0⟩] := rfl
  rw [hall] at hc
  rw [List.mem_singleton.mp (Array.mem_def.mp (Array.mem_of_getElem? hc))]

/-- The world in which the letters a, b and c are a string, and the byte behind them is an A. -/
def world : World :=
  { madeWorld with
    memory := ⟨(Heap.empty (World.heapBase + 16) World.lacksHuge).store World.heapBase
      [97, 98, 99, 65], #[]⟩
    strings := #[⟨World.heapBase, 3⟩] }

/-- A struct over the letters and the byte behind them. -/
def overlay : Instance := ⟨quad, ⟨World.heapBase, 4, 1, .readWrite, true, none⟩, 0⟩

/-- An argument for each parameter; the struct stands where the string does. -/
def arguments : List Value :=
  [.int (-5), .struct overlay, .str 0, .str 0, .symbol "done", .proc 1]

theorem run_world : Holdings.Run ⟨madeWorld, function.refs ++ made.held⟩
    ⟨world, function.refs ++ made.held⟩ :=
  .single (.other ⟨⟨rfl, rfl, rfl⟩, rfl, rfl, rfl⟩)

theorem placed_world : world.Placed := by
  have hone : ∀ {id : Nat} {s : ManagedString}, world.strings[id]? = some s →
      s = ⟨World.heapBase, 3⟩ := fun hs =>
    List.mem_singleton.mp (Array.mem_def.mp (Array.mem_of_getElem? hs))
  refine ⟨fun id s hs => ?_, fun id id' s s' hs hs' => ?_, by decide +kernel⟩
  · rw [hone hs]
    decide +kernel
  · rw [hone hs, hone hs']
    exact Or.inr (Nat.le_refl _)

theorem load_world : world.memory.heap.load World.heapBase 4 = [97, 98, 99, 65] :=
  Heap.load_store _ World.heapBase [97, 98, 99, 65]

theorem load_letters {h : Heap} {b : UInt8}
    (hl : h.load World.heapBase 4 = [97, 98, 99] ++ [b]) :
    h.load World.heapBase 3 = [97, 98, 99] := by
  rw [Heap.load_add World.heapBase 3 1] at hl
  exact (List.append_inj hl rfl).1

/-! What the conversions of the arguments leave behind, one after another. -/

/-- The byte behind the string is zero. -/
def pinned : World := (pinString 0 world).2

/-- There is a copy of the string. -/
def copied : World := (pinned.placeBytes [97, 98, 99, 0]).2

/-- The second closure is compiled. -/
def converted : World := (callbackArgument plain (.proc 1) copied).2

theorem load_pinned : pinned.memory.heap.load World.heapBase 4 = [97, 98, 99, 0] := by
  have hpinned : pinned.memory.heap = world.memory.heap.store (World.heapBase + 3) [0] := rfl
  rw [hpinned, Heap.load_add World.heapBase 3 1,
    Heap.load_store_of_disjoint (Or.inl (Nat.le_refl _)), load_letters load_world]
  exact congrArg _ (Heap.load_store _ _ [0])

theorem memory_converted : converted.memory = copied.memory :=
  memory_makeCallback plain 1 (.ok ()) copied

theorem load_converted : converted.memory.heap.load World.heapBase 4 = [97, 98, 99, 0] := by
  rw [memory_converted, ← load_pinned]
  exact Heap.load_store_of_disjoint (Or.inl (by decide +kernel))

theorem load_copy :
    converted.memory.heap.load (World.heapBase + 16) 4 = [97, 98, 99, 0] := by
  rw [memory_converted]
  exact Heap.load_store _ _ [97, 98, 99, 0]

/-- What the arguments are converted to. -/
def frame : Frame :=
  [(.int ⟨true, .w8⟩, .bytes [251]), ((Ty.struct quad).record, .region World.heapBase 4),
    (.address, .address World.heapBase), (.address, .address (World.heapBase + 16)),
    ((Ty.enumeration states).record, .bytes [0, 0, 0, 0]),
    (.address, .address (CodeMemory.nthCode 0))]

theorem copyString_pinned : copyString 0 pinned = (.ok (World.heapBase + 16), copied) := by
  have hbytes : pinned.stringBytes 0 = [97, 98, 99] := load_letters load_pinned
  exact Act.bind_eq_ok.mpr ⟨[97, 98, 99], pinned, Act.view_eq_ok.mpr ⟨hbytes, rfl⟩, rfl⟩

theorem toArguments_world :
    toArguments none (params.zip arguments) world = (.ok frame, converted) := by
  have hcode : (callbackArgument plain (.proc 1) copied).1 = .ok (CodeMemory.nthCode 0) := by
    decide +kernel
  refine toArgumentsFrom_cons_eq_ok.mpr ⟨_, world, _, rfl, ?_, rfl⟩
  refine toArgumentsFrom_cons_eq_ok.mpr ⟨_, world, _, rfl, ?_, rfl⟩
  refine toArgumentsFrom_cons_eq_ok.mpr ⟨_, pinned, _, rfl, ?_, rfl⟩
  refine toArgumentsFrom_cons_eq_ok.mpr ⟨_, copied, _, Act.map_ok copyString_pinned, ?_, rfl⟩
  refine toArgumentsFrom_cons_eq_ok.mpr ⟨_, copied, _, rfl, ?_, rfl⟩
  exact toArgumentsFrom_cons_eq_ok.mpr
    ⟨_, converted, [], Act.map_ok (Prod.ext hcode rfl), rfl, rfl⟩

/-- The bytes that are handed over: of the struct, those that stand there by now. -/
theorem arriving_frame : frame.arriving converted.memory.heap =
    [[251], [97, 98, 99, 0], addressBytes World.heapBase, addressBytes (World.heapBase + 16),
      [0, 0, 0, 0], addressBytes (CodeMemory.nthCode 0)] := by
  unfold Frame.arriving frame Frame.load
  simp only [List.map_cons, List.map_nil, Passed.load, load_converted]
  rfl

theorem affords_world (layout : Layout) (h : Ty.struct layout ∈ signature.params) :
    world.memory.heap.Affords layout.size := by
  rw [eq_quad (List.mem_cons_of_mem _ h)]
  exact fun _ => rfl

/-- The world in which the closure is entered. -/
def inside : World := (signature.ofNatives (frame.arriving converted.memory.heap) converted).2

theorem grants_converted : converted.memory.Grants quad.size := by
  rw [memory_converted]
  have hroom : copied.memory.heap.next + bufferAlign < wordLimit := by decide +kernel
  exact World.HasRoom.grants hroom (by decide +kernel) fun _ => rfl

theorem stringsPlaced_converted : converted.StringsPlaced := by
  intro id s hs
  have hstrings : converted.strings = #[⟨World.heapBase, 3⟩] := rfl
  rw [hstrings] at hs
  rw [List.mem_singleton.mp (Array.mem_def.mp (Array.mem_of_getElem? hs)), memory_converted]
  decide +kernel

/-- The struct and the string are copied, and there is room for more. -/
theorem inside_copies :
    inside.HasRoom ∧ inside.StringsPlaced ∧ inside.callbacks = converted.callbacks := by
  obtain ⟨address, id, retention, w, hof, hext, hplaced, -, -, -⟩ :=
    Instance.ofBytes_fresh grants_converted [97, 98, 99, 0]
  have hbelow : World.heapBase + 16 + 4 ≤ converted.memory.heap.next := by
    rw [memory_converted]
    decide +kernel
  have hload : w.memory.heap.load (World.heapBase + 16) 4 = [97, 98, 99] ++ [0] :=
    (hext.load hbelow).trans load_copy
  have hletters : w.memory.heap.cString (World.heapBase + 16) = [97, 98, 99] :=
    Heap.cString_of_load (by decide) (by decide) hload
  have hstring : Act.stringFrom (World.heapBase + 16) w =
      (.ok (.str w.strings.size), (w.newString [97, 98, 99]).2) := by
    rw [Act.stringFrom_of_ne_zero (by decide), hletters]
  have hall : signature.ofNatives [[251], [97, 98, 99, 0], addressBytes World.heapBase,
      addressBytes (World.heapBase + 16), [0, 0, 0, 0], addressBytes (CodeMemory.nthCode 0)]
      converted = (.ok _, (w.newString [97, 98, 99]).2) :=
    Act.mapM_cons_ok rfl (Act.mapM_cons_ok (Act.map_ok hof) (Act.mapM_cons_ok rfl
      (Act.mapM_cons_ok hstring (Act.mapM_cons_ok rfl (Act.mapM_cons_ok rfl rfl)))))
  have hinside : inside = (w.newString [97, 98, 99]).2 := by
    rw [inside, arriving_frame, hall]
  rw [hinside]
  refine ⟨?_, (hplaced stringsPlaced_converted).newString _, hext.callbacks⟩
  have hw : (Instance.ofBytes quad [97, 98, 99, 0] converted).2 = w := congrArg Prod.snd hof
  show roundUp (w.memory.heap.next + 4 + 1) 16 + bufferAlign < wordLimit
  rw [← hw]
  decide +kernel

theorem callbacks_converted : converted.callbacks =
    #[⟨1, CodeMemory.nthCode 1, signature, 0⟩, ⟨0, CodeMemory.nthCode 0, plain, 1⟩] := rfl

theorem readBytes_overlay (m : Memory) :
    m.readBytes overlay.view 0 4 = .ok (m.heap.load World.heapBase 4) := rfl

/-- Another symbol of the value is handed over as the first one. -/
theorem eq_ok {x : Value} (h : (Ty.enumeration states).Image none converted inside
    (.symbol "done") x) : x = .symbol "ok" := by
  have hvalue : (Value.symbol "done").toEnum (some states) none = .ok 0 := rfl
  cases h with
  | enumeration h hs =>
    obtain rfl := Except.ok.inj (h.symm.trans hvalue)
    exact congrArg Value.symbol (Option.some.inj hs).symm
  | unmapped h hs =>
    obtain rfl := Except.ok.inj (h.symm.trans hvalue)
    cases hs

/-- The second closure is handed over as a function at the code of its callback. -/
theorem eq_function {x : Value} (h : (Ty.callback plain).Image none converted inside
    (.proc 1) x) : x = .function (.atAddress (CodeMemory.nthCode 0) plain) := by
  cases h with
  | @closure _ _ id c hc hclosure hs =>
    rw [inside_copies.2.2, callbacks_converted] at hc
    have hmem := Array.mem_def.mp (Array.mem_of_getElem? hc)
    rcases List.mem_pair.mp hmem with rfl | rfl
    · cases hclosure
    · rfl

/-- The images that the closure is handed: the struct has been copied with the zero byte. -/
theorem images_eq {images : List Value} (h : List.Forall₂
    (fun a x => a.1.Image none converted inside a.2 x) (params.zip arguments) images) :
    ∃ copy text, images = [.int (-5), .struct copy, .pointer (.pointer World.heapBase), .str text,
        .symbol "ok", .function (.atAddress (CodeMemory.nthCode 0) plain)] ∧
      inside.memory.readBytes copy.view 0 4 = .ok [97, 98, 99, 0] ∧
      copy.address + 4 ≤ inside.memory.heap.next ∧ text < inside.strings.size ∧
      inside.stringBytes text = [97, 98, 99] := by
  obtain ⟨_, _, hint, h₁, rfl⟩ := List.forall₂_cons_left_iff.mp h
  obtain ⟨_, _, hstruct, h₂, rfl⟩ := List.forall₂_cons_left_iff.mp h₁
  obtain ⟨_, _, hpointer, h₃, rfl⟩ := List.forall₂_cons_left_iff.mp h₂
  obtain ⟨_, _, hstring, h₄, rfl⟩ := List.forall₂_cons_left_iff.mp h₃
  obtain ⟨_, _, hstate, h₅, rfl⟩ := List.forall₂_cons_left_iff.mp h₄
  obtain ⟨_, _, hcallback, h₆, rfl⟩ := List.forall₂_cons_left_iff.mp h₅
  obtain rfl := List.forall₂_nil_left_iff.mp h₆
  obtain rfl := hint.eq_int
  cases hstruct with
  | @struct _ _ bytes address id retention _ hs _ hold hb =>
  cases hpointer
  cases hstring with
  | @string _ text _ hid hbytes =>
  obtain rfl : [97, 98, 99, 0] = bytes := by
    rw [← load_converted]
    exact Except.ok.inj ((readBytes_overlay _).symm.trans hs)
  refine ⟨⟨quad, .ofParts address quad.size 1 (some (.owner id)), retention⟩, text, ?_, hb, hold,
    hid, hbytes.trans (load_letters load_converted)⟩
  rw [eq_ok hstate, eq_function hcallback]
  rfl

end Echo

/-- A closure is called with a struct that stands where a string does, and the string is passed by
its own bytes, too. It is entered once, with a copy of the struct as it is by then, and its answer
comes back. -/
theorem Environment.call_ofClosure_echo : ∃ (copy : Instance) (text : Nat) (m : Machine),
    (Environment.echo.enterWithin 1).call Echo.function.signature Echo.function.address
        Echo.arguments none none ⟨Echo.world, .start, []⟩ = some (.ok (.int (-5)), m) ∧
      m.world.events = #[.entered 0 [.int (-5), .struct copy,
        .pointer (.pointer World.heapBase), .str text, .symbol "ok",
        .function (.atAddress (CodeMemory.nthCode 0) Echo.plain)]] ∧
      Echo.world.memory.readBytes Echo.overlay.view 0 4 = .ok [97, 98, 99, 65] ∧
      m.world.memory.readBytes copy.view 0 4 = .ok [97, 98, 99, 0] ∧
      m.world.stringBytes text = [97, 98, 99] := by
  obtain ⟨hroom, hplaced, -⟩ := Echo.inside_copies
  obtain ⟨images, -, hevents, himages, -, -, -, hcall⟩ := Environment.call_ofClosure .echo
    Echo.accepted_signature Echo.whole_signature Echo.reachable_made (by decide +kernel)
    Echo.ofClosure_made Echo.identifies_madeWorld Echo.run_world (by decide +kernel)
    Echo.placed_world Echo.affords_world rfl Echo.toArguments_world hroom 0 .start []
  obtain ⟨copy, text, rfl, hcopy, hplace, hid, htext⟩ := Echo.images_eq himages
  have hfive : Value.toInt ⟨true, .w8⟩ (.int (-5)) = .ok (-5) := by decide
  obtain ⟨-, hreturn⟩ := hcall (.int (-5)) _ rfl
  obtain ⟨x, m, hx, hext, hreturns⟩ := hreturn (Bytes.ofInt 8 (-5)) _
    (Act.map_ok (Act.map_ok (Act.ofChecked_eq_ok.mpr ⟨hfive, rfl⟩))) (fun _ hl => nomatch hl)
  cases hreturns with
  | image h =>
    obtain rfl := h.eq_int
    refine ⟨copy, text, m, hx, ?_, ?_, hext.readBytes hplace hcopy, ?_⟩
    · rw [hext.events]
      exact congrArg (Array.push · _) hevents
    · rw [Echo.readBytes_overlay, Echo.load_world]
    · exact (hext.stringBytes hplaced (Array.getElem?_eq_getElem hid)).trans htext

end ForeignCall
