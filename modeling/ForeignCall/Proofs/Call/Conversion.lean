import ForeignCall.Proofs.Call.Arguments
import ForeignCall.Proofs.Call.Faults

/-!
# Conversion before the call

The arguments of a call are converted one after another before any code is entered. A call whose
arguments do not convert fails with the fault of the first that does not, whatever code there is to
enter; one whose arguments convert enters its code exactly once (`Enter.call_converts`).

Converting leaves one trace: a string that is passed by its own bytes has a zero byte behind it from
then on (`World.Pinned`), and keeps it when a later argument fails.
-/

namespace ForeignCall

open Abi

/-! ## What converting leaves -/

namespace World

/-- A world in which old bytes are what they were, but that the byte behind each of some strings may
have become zero; no closure has been entered. -/
structure Pinned (ids : List Nat) (w w' : World) : Prop where
  next : w.memory.heap.next ≤ w'.memory.heap.next
  bytes : ∀ c, c < w.memory.heap.next ∨ w'.memory.heap.next ≤ c →
    w'.memory.heap.get c = w.memory.heap.get c ∨ w'.memory.heap.get c = 0 ∧
      ∃ id ∈ ids, ∃ s : ManagedString, w.strings[id]? = some s ∧ c = s.address + s.length
  owners : w'.memory.owners = w.memory.owners
  strings : w'.strings = w.strings
  events : w'.events = w.events

variable {ids ids' : List Nat} {w w' w'' : World}

theorem Pinned.of_memory_eq (hm : w'.memory = w.memory) (hs : w'.strings = w.strings)
    (he : w'.events = w.events) : w.Pinned ids w' :=
  ⟨Nat.le_of_eq (by rw [hm]), fun _ _ => Or.inl (by rw [hm]), by rw [hm], hs, he⟩

theorem Pinned.refl (w : World) : Pinned ids w w := .of_memory_eq rfl rfl rfl

theorem Pinned.mono (h : Pinned ids w w') (hi : ids ⊆ ids') : Pinned ids' w w' :=
  { h with bytes := fun c hc => (h.bytes c hc).imp_right fun ⟨hz, id, hid, hs⟩ =>
      ⟨hz, id, hi hid, hs⟩ }

theorem Pinned.trans (h : Pinned ids w w') (h' : Pinned ids w' w'') : Pinned ids w w'' where
  next := Nat.le_trans h.next h'.next
  bytes := by
    intro c hc
    have hn := h.next
    have hn' := h'.next
    rcases h'.bytes c (by omega) with he | ⟨hz, id, hid, s, hs, rfl⟩
    · rw [he]
      exact h.bytes c (by omega)
    · rw [h.strings] at hs
      exact Or.inr ⟨hz, id, hid, s, hs, rfl⟩
  owners := h'.owners.trans h.owners
  strings := h'.strings.trans h.strings
  events := h'.events.trans h.events

end World

namespace Act

variable {α β : Type} {ids : List Nat} {w w' : World}

/-- An operation that may put a zero byte behind strings when it succeeds, changes no old byte when
it fails, and is never abandoned. -/
structure Pins (x : Act α) (ids : List Nat) : Prop where
  ok : ∀ w r w', x w = (.ok r, w') → w.Pinned ids w'
  error : ∀ w e w', x w = (.error e, w') → (∃ f, e = .fault f) ∧ w.Pinned [] w'

/-- An operation that looks at the world. -/
theorem pins_ofChecked_read (f : World → Checked α) : Pins (fun w => ((f w).outcome, w)) ids := by
  constructor
  · intro w r w' h
    obtain ⟨-, rfl⟩ := Prod.mk.inj h
    exact .refl w
  · intro w e w' h
    obtain ⟨he, rfl⟩ := Prod.mk.inj h
    cases hf : f w with
    | ok r => rw [hf] at he; cases he
    | error g => rw [hf] at he; exact ⟨⟨g, (Except.error.inj he).symm⟩, .refl w⟩

theorem pins_pure (r : α) : (pure r : Act α).Pins ids := pins_ofChecked_read fun _ => .ok r

theorem pins_refuse (f : Fault) : (refuse f : Act α).Pins ids :=
  pins_ofChecked_read fun _ => .error f

theorem pins_ofChecked (c : Checked α) : (ofChecked c).Pins ids := pins_ofChecked_read fun _ => c

theorem pins_read (f : Memory → Checked α) : (read f).Pins ids :=
  pins_ofChecked_read fun w => f w.memory

theorem pins_view (f : World → α) : (view f).Pins ids := pins_ofChecked_read fun w => .ok (f w)

theorem Pins.bind {x : Act α} {f : α → Act β} (hx : x.Pins []) (hf : ∀ r, (f r).Pins ids) :
    (x >>= f).Pins ids := by
  constructor
  · intro w b w' h
    obtain ⟨r, w₁, hr, hb⟩ := bind_eq_ok.mp h
    exact ((hx.ok _ _ _ hr).mono (List.nil_subset _)).trans ((hf r).ok _ _ _ hb)
  · intro w e w' h
    rcases hr : x w with ⟨e' | r, w₁⟩
    · rw [bind_error hr, Prod.mk.injEq] at h
      obtain ⟨he, rfl⟩ := h
      obtain rfl := Except.error.inj he
      exact hx.error _ _ _ hr
    · rw [bind_ok hr] at h
      obtain ⟨hfault, hp⟩ := (hf r).error _ _ _ h
      exact ⟨hfault, (hx.ok _ _ _ hr).trans hp⟩

theorem Pins.map {x : Act α} (g : α → β) (hx : x.Pins ids) : (g <$> x).Pins ids := by
  constructor
  · intro w b w' h
    obtain ⟨r, hr, -⟩ := map_eq_ok.mp h
    exact hx.ok _ _ _ hr
  · intro w e w' h
    rcases hr : x w with ⟨e' | r, w₁⟩
    · have h' : (x >>= fun r => Act.pure (g r)) w = (.error e, w') := h
      rw [bind_error hr, Prod.mk.injEq] at h'
      obtain ⟨he, rfl⟩ := h'
      obtain rfl := Except.error.inj he
      exact hx.error _ _ _ hr
    · rw [map_ok hr] at h
      cases (Prod.mk.inj h).1

end Act

/-! ## Single arguments -/

/-- The strings that a value brings to a parameter by their own bytes. -/
def Ty.pinned (t : Ty) (value : Value) : List Nat :=
  match t, value with
  | .builtin (.pointer _), .str id => [id]
  | _, _ => []

theorem pins_pinString (id : Nat) : (pinString id).Pins [id] := by
  constructor
  · intro w a w' h
    unfold pinString at h
    split at h
    next s hs =>
      obtain ⟨-, rfl⟩ := Prod.mk.inj h
      refine ⟨Nat.le_of_eq (Heap.next_store ..).symm, fun c _ => ?_, rfl, rfl, rfl⟩
      show Heap.get (Heap.store _ _ _) c = _ ∨ Heap.get (Heap.store _ _ _) c = 0 ∧ _
      rw [Heap.get_store, List.length_singleton]
      split
      next hin =>
        obtain rfl : c = s.address + s.length := by omega
        rw [Nat.sub_self]
        exact Or.inr ⟨rfl, id, List.mem_singleton_self id, s, hs, rfl⟩
      next => exact Or.inl rfl
    next =>
      obtain ⟨-, rfl⟩ := Prod.mk.inj h
      exact .refl w
  · intro w e w' h
    unfold pinString at h
    split at h <;> cases (Prod.mk.inj h).1

/-- The copy of a string is fresh. -/
theorem pins_copyString (id : Nat) : (copyString id).Pins [] := by
  refine (Act.pins_view _).bind fun bytes => ?_
  have hplace : Act.Pins (fun w => (.ok (w.placeBytes (bytes ++ [0])).1,
      (w.placeBytes (bytes ++ [0])).2)) [] := by
    constructor
    · intro w a w' h
      obtain ⟨-, rfl⟩ := Prod.mk.inj h
      have hnext := w.memory.heap.next_obtain ((bytes ++ [0]).length + 1)
      have hstore : (w.placeBytes (bytes ++ [0])).2.memory.heap.next =
          (w.memory.heap.obtain ((bytes ++ [0]).length + 1)).2.next := Heap.next_store ..
      refine ⟨by omega, fun c hc => Or.inl ?_, rfl, rfl, rfl⟩
      exact Heap.get_store_of_outside (by omega)
    · intro w e w' h
      cases (Prod.mk.inj h).1
  cases bytes.contains 0 with
  | true => exact (Act.pins_refuse _).bind fun _ => hplace
  | false => exact hplace

theorem pins_makeCallback (signature : Signature) (closure : Nat) :
    (makeCallback signature closure).Pins [] := by
  constructor
  · intro w r w' h
    obtain ⟨pool, callbacks, closures, hs⟩ := makeCallback_snd signature closure (.ok ()) w
    rw [h] at hs
    subst hs
    exact .of_memory_eq rfl rfl rfl
  · intro w e w' h
    rcases World.makeCallback_cases signature closure (.ok ()) w with
      ⟨i, -, hm⟩ | ⟨i, -, -, hm⟩ | ⟨slot, pool, -, -, hm⟩ | ⟨f, pool, -, hm⟩ <;>
        rw [hm] at h <;> cases h
    exact ⟨⟨f, rfl⟩, .of_memory_eq rfl rfl rfl⟩

theorem pins_ensureLive (v : View) (a : Nat) : Act.Pins (do ensureLive v; return a) [] :=
  (Act.pins_read _).bind fun _ => Act.pins_pure a

theorem pins_pointerArgument (r : PointerRole) (value : Value) :
    (pointerArgument value).Pins ((Ty.builtin (.pointer r)).pinned value) := by
  cases value with
  | str id => exact pins_pinString id
  | pointer v => exact pins_ensureLive v _
  | struct s => exact pins_ensureLive s.view _
  | object id answer =>
    refine (Act.pins_ofChecked answer).bind fun inner => ?_
    cases inner with
    | pointer v => exact pins_ensureLive v _
    | struct s => exact pins_ensureLive s.view _
    | nil => exact Act.pins_pure 0
    | _ => exact Act.pins_refuse _
  | function f => exact Act.pins_pure f.address
  | nil => exact Act.pins_pure 0
  | int i => exact Act.pins_ofChecked _
  | _ => exact Act.pins_refuse _

theorem pins_stringArgument (value : Value) : (stringArgument value).Pins [] := by
  cases value with
  | nil => exact Act.pins_pure 0
  | str id => exact pins_copyString id
  | _ => exact Act.pins_refuse _

theorem pins_callbackArgument (signature : Signature) (value : Value) :
    (callbackArgument signature value).Pins [] := by
  cases value with
  | nil => exact Act.pins_pure 0
  | function f => exact Act.pins_pure f.address
  | pointer v => exact Act.pins_pure v.address
  | proc closure => exact (pins_makeCallback signature closure).bind fun _ => Act.pins_view _
  | _ => exact Act.pins_refuse _

theorem pins_structArgument (layout : Layout) (value : Value) :
    (structArgument layout value).Pins [] := by
  cases value with
  | struct s =>
    unfold structArgument
    dsimp only
    split
    · exact Act.pins_read _
    · exact Act.pins_refuse _
  | _ => exact Act.pins_refuse _

/-- Converting an argument writes nothing but the zero byte behind a string that is passed by its
own bytes. -/
theorem Ty.pins_toArgument (enums : Option Enums) (value : Value) (t : Ty) :
    (t.toArgument enums value).Pins (t.pinned value) := by
  cases t with
  | builtin b =>
    cases b with
    | int k =>
      cases value with
      | symbol name =>
        unfold toArgument
        dsimp only
        split
        · exact (Act.pins_ofChecked _).bind fun _ => Act.pins_pure _
        · exact Act.pins_refuse _
      | _ => exact (Act.pins_ofChecked _).bind fun _ => Act.pins_pure _
    | float k => exact (Act.pins_ofChecked _).bind fun _ => Act.pins_pure _
    | bool => exact (Act.pins_ofChecked _).bind fun _ => Act.pins_pure _
    | pointer r => exact (pins_pointerArgument r value).map _
    | string => exact (pins_stringArgument value).map _
    | void => exact Act.pins_refuse _
    | varargs => exact Act.pins_refuse _
  | enumeration table => exact (Act.pins_ofChecked _).bind fun _ => Act.pins_pure _
  | callback signature => exact (pins_callbackArgument signature value).map _
  | struct layout => exact pins_structArgument layout value
  | array c n => exact Act.pins_refuse _
  | charArray n => exact Act.pins_refuse _

/-! ## All arguments -/

/-- The strings that arguments bring by their own bytes. -/
def pinnedBy (arguments : List (Ty × Value)) : List Nat :=
  arguments.flatMap fun (t, value) => t.pinned value

section

variable {enums : Option Enums} {w w' : World}

/-- The arguments from a position on, each with the record it is passed by. -/
def toArgumentsFrom (enums : Option Enums) (k : Nat) (arguments : List (Ty × Value)) :
    Act Frame :=
  (arguments.zipIdx k).mapM fun ((t, value), i) => do
    let passed ← (t.toArgument enums value).atArgument i
    return (t.record, passed)

theorem toArgumentsFrom_cons (k : Nat) (a : Ty × Value) (rest : List (Ty × Value)) :
    toArgumentsFrom enums k (a :: rest) = (do
      let passed ← (a.1.toArgument enums a.2).atArgument k
      let frame ← toArgumentsFrom enums (k + 1) rest
      return (a.1.record, passed) :: frame) := by
  unfold toArgumentsFrom
  rw [List.zipIdx_cons, List.mapM_cons]
  simp only [bind_assoc, pure_bind]

theorem toArgumentsFrom_cons_eq_ok {k : Nat} {a : Ty × Value} {rest : List (Ty × Value)}
    {frame : Frame} :
    toArgumentsFrom enums k (a :: rest) w = (.ok frame, w') ↔
      ∃ passed w₁ frame', a.1.toArgument enums a.2 w = (.ok passed, w₁) ∧
        toArgumentsFrom enums (k + 1) rest w₁ = (.ok frame', w') ∧
        frame = (a.1.record, passed) :: frame' := by
  rw [toArgumentsFrom_cons, Act.bind_eq_ok]
  constructor
  · rintro ⟨passed, w₁, hb, hrest⟩
    obtain ⟨frame', w₂, hf, hp⟩ := Act.bind_eq_ok.mp hrest
    obtain ⟨rfl, rfl⟩ := Act.pure_eq_ok.mp hp
    exact ⟨passed, w₁, frame', Act.atArgument_eq_ok.mp hb, hf, rfl⟩
  · rintro ⟨passed, w₁, frame', hb, hf, rfl⟩
    exact ⟨passed, w₁, Act.atArgument_eq_ok.mpr hb,
      Act.bind_eq_ok.mpr ⟨frame', w', hf, Act.pure_eq_ok.mpr ⟨rfl, rfl⟩⟩⟩

theorem Act.atArgument_eq_error {α : Type} {x : Act α} {ids : List Nat} (hx : x.Pins ids) {i : Nat}
    {e : Failure} (h : x.atArgument i w = (.error e, w')) :
    ∃ f, x w = (.error (.fault f), w') ∧ e = .fault (f.atArgument i) := by
  unfold atArgument at h
  rcases hr : x w with ⟨e' | r, w₁⟩
  · obtain ⟨⟨f, rfl⟩, -⟩ := hx.error _ _ _ hr
    rw [hr] at h
    obtain ⟨he, rfl⟩ := Prod.mk.inj h
    exact ⟨f, rfl, (Except.error.inj he).symm⟩
  · rw [hr] at h
    cases (Prod.mk.inj h).1

/-- Arguments that convert leave zero bytes behind the strings among them, and nothing else. -/
theorem pinned_toArgumentsFrom {k : Nat} {arguments : List (Ty × Value)}
    {frame : Frame}
    (h : toArgumentsFrom enums k arguments w = (.ok frame, w')) :
    w.Pinned (pinnedBy arguments) w' := by
  induction arguments generalizing k w frame with
  | nil =>
    obtain ⟨-, rfl⟩ := Act.pure_eq_ok.mp h
    exact .refl w
  | cons a rest ih =>
    obtain ⟨passed, w₁, frame', hb, hrest, -⟩ := toArgumentsFrom_cons_eq_ok.mp h
    have hfirst := (a.1.pins_toArgument enums a.2).ok _ _ _ hb
    exact (hfirst.mono (List.subset_append_left ..)).trans
      ((ih hrest).mono (List.subset_append_right ..))

/-- The first argument that does not convert, at position `i` from `k` on: those before it convert,
and it is refused with a fault. -/
def StopsAt (enums : Option Enums) (k : Nat) (arguments : List (Ty × Value)) (i : Nat) (f : Fault)
    (w w' : World) : Prop :=
  ∃ frame w₁ t value, toArgumentsFrom enums k (arguments.take i) w = (.ok frame, w₁) ∧
    arguments[i]? = some (t, value) ∧ t.toArgument enums value w₁ = (.error (.fault f), w')

theorem StopsAt.pinned {k i : Nat} {arguments : List (Ty × Value)} {f : Fault}
    (h : StopsAt enums k arguments i f w w') : w.Pinned (pinnedBy (arguments.take i)) w' := by
  obtain ⟨frame, w₁, t, value, hbefore, -, hf⟩ := h
  exact (pinned_toArgumentsFrom hbefore).trans
    (((t.pins_toArgument enums value).error _ _ _ hf).2.mono (List.nil_subset _))

/-- Arguments that do not convert have a first one that does not. -/
theorem stopsAt_of_error {k : Nat} {arguments : List (Ty × Value)} {e : Failure}
    (h : toArgumentsFrom enums k arguments w = (.error e, w')) :
    ∃ i f, StopsAt enums k arguments i f w w' ∧ e = .fault (f.atArgument (k + i)) := by
  induction arguments generalizing k w with
  | nil => cases (Prod.mk.inj h).1
  | cons a rest ih =>
    rw [toArgumentsFrom_cons] at h
    rcases hb : (a.1.toArgument enums a.2).atArgument k w with ⟨e' | passed, w₁⟩
    · rw [Act.bind_error hb, Prod.mk.injEq] at h
      obtain ⟨he, rfl⟩ := h
      obtain rfl := Except.error.inj he
      obtain ⟨f, hf, rfl⟩ := Act.atArgument_eq_error (a.1.pins_toArgument enums a.2) hb
      exact ⟨0, f, ⟨[], w, a.1, a.2, rfl, rfl, hf⟩, rfl⟩
    · rw [Act.bind_ok hb] at h
      rcases hr : toArgumentsFrom enums (k + 1) rest w₁ with ⟨e' | frame, w₂⟩
      · rw [Act.bind_error hr, Prod.mk.injEq] at h
        obtain ⟨he, rfl⟩ := h
        obtain rfl := Except.error.inj he
        obtain ⟨i, f, ⟨frame, w₃, t, value, hbefore, hi, hf⟩, rfl⟩ := ih hr
        have hbefore' : toArgumentsFrom enums k (a :: rest.take i) w =
            (.ok ((a.1.record, passed) :: frame), w₃) := toArgumentsFrom_cons_eq_ok.mpr
          ⟨passed, w₁, frame, Act.atArgument_eq_ok.mp hb, hbefore, rfl⟩
        refine ⟨i + 1, f, ⟨_, w₃, t, value, hbefore', hi, hf⟩, ?_⟩
        rw [Nat.add_right_comm, Nat.add_assoc]
      · rw [Act.bind_ok hr] at h
        cases (Prod.mk.inj h).1

end

/-! ## The values that a call converts -/

namespace Signature

variable {s : Signature}

/-- The only parameter that is a function pointer. -/
def SoleCallback (s : Signature) (i : Nat) : Prop :=
  ∀ j, (∃ t, s.params[j]? = some t ∧ t.kind = .callback) ↔ j = i

theorem mem_callbackParams {j : Nat} :
    j ∈ s.callbackParams ↔ ∃ t, s.params[j]? = some t ∧ t.kind = .callback := by
  unfold callbackParams
  simp only [List.mem_map, List.mem_filter, Prod.exists, List.mk_mem_zipIdx_iff_getElem?,
    beq_iff_eq, exists_eq_right]

theorem nodup_callbackParams (s : Signature) : s.callbackParams.Nodup := by
  have hsub : s.callbackParams.Sublist (s.params.zipIdx.map Prod.snd) :=
    List.filter_sublist.map Prod.snd
  refine hsub.nodup ?_
  rw [List.zipIdx_map_snd]
  exact List.nodup_range'

theorem blockParam?_eq_some {i : Nat} : s.blockParam? = some i ↔ s.SoleCallback i := by
  have hlist : s.blockParam? = some i ↔ s.callbackParams = [i] := by
    unfold blockParam?
    split
    next h => rw [h]; simp
    next h =>
      refine iff_of_false (fun hn => by cases hn) fun he => h i he
  have hperm : s.callbackParams = [i] ↔ s.callbackParams.Perm [i] := by
    rw [List.perm_singleton]
  rw [hlist, hperm, List.perm_ext_iff_of_nodup s.nodup_callbackParams (List.nodup_singleton i)]
  simp only [mem_callbackParams, List.mem_singleton]
  rfl

/-- The values that a call with arguments and a block converts: the arguments, with the block in the
place of the only function pointer when one argument is missing. -/
inductive Binds (s : Signature) (arguments : List Value) : Option Nat → List Value → Prop where
  | whole {block : Option Nat} (h : arguments.length = s.params.length) :
    Binds s arguments block arguments
  | block {i closure : Nat} (h : arguments.length + 1 = s.params.length) (hi : s.SoleCallback i) :
    Binds s arguments (some closure) (arguments.insertIdx i (.proc closure))

theorem bindArguments_eq_ok {arguments values : List Value} {block : Option Nat} :
    s.bindArguments arguments block = .ok values ↔ s.Binds arguments block values := by
  unfold bindArguments
  split
  next hl =>
    refine ⟨fun h => Except.ok.inj h ▸ .whole hl, fun h => ?_⟩
    cases h with
    | whole => rfl
    | block h => omega
  next hl =>
    split
    next i closure hi =>
      split
      next hl' =>
        refine ⟨fun h => Except.ok.inj h ▸ .block hl' (blockParam?_eq_some.mp hi), fun h => ?_⟩
        cases h with
        | whole h => exact absurd h hl
        | block _ hj =>
          rw [blockParam?_eq_some.mpr hj] at hi
          rw [Option.some.inj hi]
      next hl' =>
        refine ⟨nofun, fun h => ?_⟩
        cases h with
        | whole h => exact absurd h hl
        | block h => exact absurd h hl'
    next hnone =>
      refine ⟨nofun, fun h => ?_⟩
      cases h with
      | whole h => exact absurd h hl
      | block _ hi => exact absurd rfl (hnone _ _ (blockParam?_eq_some.mpr hi))

/-- Arguments that cannot be bound are refused for their number. -/
theorem bindArguments_eq_error {arguments : List Value} {block : Option Nat}
    (h : ∀ values, ¬s.Binds arguments block values) :
    s.bindArguments arguments block = .error (.arity arguments.length s.params.length) := by
  cases hb : s.bindArguments arguments block with
  | ok values => exact absurd (bindArguments_eq_ok.mp hb) (h values)
  | error f =>
    unfold bindArguments at hb
    split at hb
    · cases hb
    · split at hb
      · split at hb
        · cases hb
        · exact hb.symm
      · exact hb.symm

end Signature

/-! ## Entering code once -/

/-- A computation that enters code at an address exactly once, on a given machine: nothing before it
depends on the code, and nothing after it enters any again. -/
def EntersOnce {β : Type} (x : Enter → Run β) (m : Machine) (address : Nat) (call : Call)
    (inside : Machine) : Prop :=
  ∃ k : Returned × Machine → Option (β × Machine),
    ∀ enter : Enter, x enter m = (enter address call inside).bind k

theorem EntersOnce.bind {β γ : Type} {x : Enter → Run β} {m inside : Machine} {address : Nat}
    {call : Call} (h : EntersOnce x m address call inside) (f : β → Run γ) :
    EntersOnce (fun enter => x enter >>= f) m address call inside := by
  obtain ⟨k, hk⟩ := h
  refine ⟨fun r => (k r).bind fun q => f q.1 q.2, fun enter => ?_⟩
  show Option.bind (x enter m) _ = _
  rw [hk, Option.bind_assoc]

theorem entersOnce_rawCall (s : Signature) (address : Nat) (frame : Frame)
    (m : Machine) : EntersOnce (fun enter => rawCall enter s address frame) m address
      (s.push frame m.world.memory.heap) ⟨m.world, m.thread.enterCall, m.parked⟩ :=
  ⟨_, fun _ => rfl⟩

/-- The helper thread runs what would have run on the thread of the caller. -/
theorem EntersOnce.onHelper {β : Type} {x : Enter → Run β} {m inside : Machine} {address : Nat}
    {call : Call} {interrupt : Option Nat}
    (h : EntersOnce x ⟨m.world, .start, .start interrupt :: m.parked⟩ address call inside) :
    EntersOnce (fun enter => Run.onHelper interrupt (x enter)) m address call inside := by
  obtain ⟨k, hk⟩ := h
  refine ⟨fun r => (k r).bind fun q => some (q.1, ⟨q.2.world, m.thread, q.2.parked.tail⟩),
    fun enter => ?_⟩
  rw [← Option.bind_assoc, ← hk]
  rfl

theorem entersOnce_execute (s : Signature) (address : Nat) (frame : Frame)
    (interrupt : Option Nat) (m : Machine) :
    EntersOnce (fun enter => execute enter s address frame interrupt) m address
      (s.push frame m.world.memory.heap)
      (m.entered (s.blocking || interrupt.isSome) interrupt) := by
  simp only [execute_eq_bind]
  refine EntersOnce.bind ?_ _
  by_cases hb : (s.blocking || interrupt.isSome) = true
  · simp only [hb, if_true]
    exact (entersOnce_rawCall s address frame _).onHelper
  · rw [Bool.eq_false_iff.mpr hb]
    exact entersOnce_rawCall s address frame m

/-! ## Calls -/

/-- How a call is refused before anything is entered: for the number of its arguments, or for the
first that does not convert. The strings are those that may have got a zero byte behind them. -/
inductive Signature.Refuses (s : Signature) (arguments : List Value) (block : Option Nat)
    (w : World) : Fault → List Nat → World → Prop where
  | arity (h : ∀ values, ¬s.Binds arguments block values) :
    Refuses s arguments block w (.arity arguments.length s.params.length) [] w
  | argument {values : List Value} {i : Nat} {f : Fault} {w' : World}
    (hv : s.Binds arguments block values)
    (h : StopsAt s.enums 0 (s.params.zip values) i f w w') :
    Refuses s arguments block w (f.atArgument i) (pinnedBy ((s.params.zip values).take i)) w'

theorem Signature.Refuses.pinned {s : Signature} {arguments : List Value} {block : Option Nat}
    {w w' : World} {f : Fault} {ids : List Nat} (h : s.Refuses arguments block w f ids w') :
    w.Pinned ids w' := by
  cases h with
  | arity h => exact .refl w
  | argument hv h => exact h.pinned

/-- A stop is what the conversion of all arguments answers with. -/
theorem StopsAt.toArgumentsFrom_eq {enums : Option Enums} {k i : Nat}
    {arguments : List (Ty × Value)} {f : Fault} {w w' : World}
    (h : StopsAt enums k arguments i f w w') :
    toArgumentsFrom enums k arguments w = (.error (.fault (f.atArgument (k + i))), w') := by
  obtain ⟨frame, w₁, t, value, hbefore, hi, hf⟩ := h
  induction arguments generalizing k i w frame with
  | nil => cases hi
  | cons a rest ih =>
    rw [toArgumentsFrom_cons]
    cases i with
    | zero =>
      obtain ⟨-, rfl⟩ := Act.pure_eq_ok.mp hbefore
      obtain rfl := Option.some.inj hi
      refine Act.bind_error ?_
      unfold Act.atArgument
      rw [hf]
      rfl
    | succ i =>
      obtain ⟨passed, w₂, frame', hb, hrest, -⟩ := toArgumentsFrom_cons_eq_ok.mp hbefore
      rw [Act.bind_ok (Act.atArgument_eq_ok.mpr hb), Act.bind_error (ih frame' hrest hi),
        Nat.add_right_comm, Nat.add_assoc]

theorem Enter.call_eq_error {enter : Enter} {s : Signature} {address : Nat} (ha : address ≠ 0)
    {arguments : List Value} {block interrupt : Option Nat} {m : Machine} {f : Fault}
    {ids : List Nat} {w : World} (h : s.Refuses arguments block m.world f ids w) :
    enter.call s address arguments block interrupt m =
      some (.error (.fault f), ⟨w, m.thread, m.parked⟩) := by
  unfold Enter.call
  rw [if_neg ha]
  cases h with
  | arity h =>
    rw [Signature.bindArguments_eq_error h]
    rfl
  | argument hv h =>
    rw [Signature.bindArguments_eq_ok.mpr hv]
    have he := h.toArgumentsFrom_eq
    rw [Nat.zero_add] at he
    exact Run.act_bind he

/-- A call is refused, or its arguments convert. -/
theorem Signature.refuses_or_converts (s : Signature) (arguments : List Value)
    (block : Option Nat) (w : World) :
    (∃ f ids w', s.Refuses arguments block w f ids w') ∨
    ∃ values frame w', s.Binds arguments block values ∧
      toArguments s.enums (s.params.zip values) w = (.ok frame, w') := by
  by_cases hv : ∃ values, s.Binds arguments block values
  · obtain ⟨values, hv⟩ := hv
    rcases hf : toArguments s.enums (s.params.zip values) w with ⟨e | frame, w'⟩
    · obtain ⟨i, f, hstop, -⟩ := stopsAt_of_error hf
      exact Or.inl ⟨_, _, _, .argument hv hstop⟩
    · exact Or.inr ⟨values, frame, w', hv, hf⟩
  · exact Or.inl ⟨_, _, _, .arity fun values h => hv ⟨values, h⟩⟩

/-! ## Variadic calls -/

namespace VariadicFunction

variable {f : VariadicFunction} {arguments : List Value} {extra : List (TypeSpec × Value)}

/-- How a variadic call is refused before anything is entered, and the function that it leaves: for
the number of its fixed arguments, a further type or a value outside its declared type, a signature
that cannot be made, or the first argument that does not convert. -/
inductive Refuses (f : VariadicFunction) (arguments : List Value)
    (extra : List (TypeSpec × Value)) (w : World) :
    Fault → VariadicFunction → List Nat → World → Prop where
  | arity (h : arguments.length ≠ f.fixed.length) :
    Refuses f arguments extra w (.arity arguments.length f.fixed.length) f [] w
  | declared {e : Fault} (hl : arguments.length = f.fixed.length)
    (h : f.promoteAll extra = .error e) : Refuses f arguments extra w e f [] w
  | signature {types : List Ty} {e : Fault} {w' : World} (hl : arguments.length = f.fixed.length)
    (ht : f.promoteAll extra = .ok types) (h : f.signatureFor types w = (.error (.fault e), w')) :
    Refuses f arguments extra w e f [] w'
  | argument {types : List Ty} {s : Signature} {f' : VariadicFunction} {i : Nat} {e : Fault}
    {w₁ w' : World} (hl : arguments.length = f.fixed.length)
    (ht : f.promoteAll extra = .ok types) (hs : f.signatureFor types w = (.ok (s, f'), w₁))
    (h : StopsAt s.enums 0 (s.params.zip (arguments ++ extra.map Prod.snd)) i e w₁ w') :
    Refuses f arguments extra w (e.atArgument i) f'
      (pinnedBy ((s.params.zip (arguments ++ extra.map Prod.snd)).take i)) w'

/-- The arguments of a variadic call convert, by the signature that its types give. -/
def Converts (f : VariadicFunction) (arguments : List Value) (extra : List (TypeSpec × Value))
    (w : World) (s : Signature) (frame : Frame) (w' : World) : Prop :=
  arguments.length = f.fixed.length ∧ ∃ types f' w₁, f.promoteAll extra = .ok types ∧
    f.signatureFor types w = (.ok (s, f'), w₁) ∧
    toArguments s.enums (s.params.zip (arguments ++ extra.map Prod.snd)) w₁ = (.ok frame, w')

/-- Making a signature hands out an identity, and touches no memory. -/
theorem pins_signatureFor (f : VariadicFunction) (types : List Ty) :
    (f.signatureFor types).Pins [] := by
  have hfresh : Act.fresh.Pins [] := by
    constructor
    · intro w r w' h
      obtain ⟨-, rfl⟩ := Prod.mk.inj h
      exact .of_memory_eq rfl rfl rfl
    · intro w e w' h
      cases (Prod.mk.inj h).1
  have hmake :
      (Signature.ofTypes f.ret (f.fixed ++ types) (some f.fixed.length) f.options).Pins [] :=
    (Act.pins_ofChecked _).bind fun _ => (Act.pins_ofChecked _).bind fun _ =>
      hfresh.bind fun _ => Act.pins_pure _
  unfold signatureFor
  split
  · exact Act.pins_pure _
  · refine hmake.bind fun s => ?_
    split <;> exact Act.pins_pure _

theorem Refuses.pinned {w w' : World} {e : Fault} {f' : VariadicFunction} {ids : List Nat}
    (h : f.Refuses arguments extra w e f' ids w') : w.Pinned ids w' := by
  cases h with
  | arity h => exact .refl w
  | declared hl h => exact .refl w
  | signature hl ht h => exact ((f.pins_signatureFor _).error _ _ _ h).2
  | argument hl ht hs h =>
    exact (((f.pins_signatureFor _).ok _ _ _ hs).mono (List.nil_subset _)).trans h.pinned

theorem call_eq_error {enter : Enter} {m : Machine} {e : Fault} {f' : VariadicFunction}
    {ids : List Nat} {w : World} (h : f.Refuses arguments extra m.world e f' ids w) :
    f.call enter arguments extra m =
      some ((.error (.fault e), f'), ⟨w, m.thread, m.parked⟩) := by
  unfold call
  cases h with
  | arity h => rw [if_pos h]; rfl
  | declared hl h => rw [if_neg (not_not.mpr hl), h]; rfl
  | signature hl ht h =>
    rw [if_neg (not_not.mpr hl), ht]
    exact Run.act_bind h
  | argument hl ht hs h =>
    rw [if_neg (not_not.mpr hl), ht]
    have he := h.toArgumentsFrom_eq
    rw [Nat.zero_add] at he
    exact (Run.act_bind hs).trans (Run.act_bind (m := ⟨_, m.thread, m.parked⟩) he)

theorem refuses_or_converts (f : VariadicFunction) (arguments : List Value)
    (extra : List (TypeSpec × Value)) (w : World) :
    (∃ e f' ids w', f.Refuses arguments extra w e f' ids w') ∨
    ∃ s frame w', f.Converts arguments extra w s frame w' := by
  by_cases hl : arguments.length = f.fixed.length
  · cases ht : f.promoteAll extra with
    | error e => exact Or.inl ⟨_, _, _, _, .declared hl ht⟩
    | ok types =>
      rcases hs : f.signatureFor types w with ⟨e | ⟨s, f'⟩, w₁⟩
      · obtain ⟨⟨e, rfl⟩, -⟩ := (f.pins_signatureFor types).error _ _ _ hs
        exact Or.inl ⟨_, _, _, _, .signature hl ht hs⟩
      · rcases hf : toArguments s.enums (s.params.zip (arguments ++ extra.map Prod.snd)) w₁ with
          ⟨e | frame, w'⟩
        · obtain ⟨i, g, hstop, -⟩ := stopsAt_of_error hf
          exact Or.inl ⟨_, _, _, _, .argument hl ht hs hstop⟩
        · exact Or.inr ⟨s, frame, w', hl, types, f', w₁, ht, hs, hf⟩
  · exact Or.inl ⟨_, _, _, _, .arity hl⟩

theorem address_of_signatureFor {types : List Ty} {s : Signature} {f' : VariadicFunction}
    {w w' : World} (h : f.signatureFor types w = (.ok (s, f'), w')) : f'.address = f.address := by
  unfold signatureFor at h
  cases hkept : (key? types).bind fun key => f.prepared.lookup key with
  | some kept =>
    rw [hkept] at h
    obtain ⟨hp, -⟩ := Act.pure_eq_ok.mp h
    rw [← (Prod.mk.inj hp).2]
  | none =>
    rw [hkept] at h
    obtain ⟨made, w₁, -, h⟩ := Act.bind_eq_ok.mp h
    cases hkey : key? types <;> rw [hkey] at h
    all_goals
      obtain ⟨hp, -⟩ := Act.pure_eq_ok.mp h
      rw [← (Prod.mk.inj hp).2]

theorem entersOnce_call {m : Machine} {s : Signature} {frame : Frame}
    {w : World} (h : f.Converts arguments extra m.world s frame w) :
    EntersOnce (fun enter => f.call enter arguments extra) m f.address
      (s.push frame w.memory.heap) (Machine.entered ⟨w, m.thread, m.parked⟩ s.blocking none) := by
  obtain ⟨hl, types, f', w₁, ht, hs, hf⟩ := h
  obtain ⟨k, hk⟩ := (entersOnce_execute s f.address frame none ⟨w, m.thread, m.parked⟩).bind
    fun answer => (pure (answer, f') : Run _)
  rw [Option.isSome_none, Bool.or_false] at hk
  refine ⟨k, fun enter => ?_⟩
  show f.call enter arguments extra m = _
  unfold call
  rw [if_neg (not_not.mpr hl), ht, ← hk enter, ← address_of_signatureFor hs]
  exact (Run.act_bind hs).trans (Run.act_bind (m := ⟨_, m.thread, m.parked⟩) hf)

end VariadicFunction

/-! ## Conversion first -/

/-- A block stands at the only function pointer exactly as if it had been passed there. -/
theorem Enter.call_block {enter : Enter} {s : Signature} {address i closure : Nat}
    {arguments : List Value} {interrupt : Option Nat} (hl : arguments.length + 1 = s.params.length)
    (hi : s.SoleCallback i) : enter.call s address arguments (some closure) interrupt =
      enter.call s address (arguments.insertIdx i (.proc closure)) none interrupt := by
  have hlt : i < s.params.length := by
    obtain ⟨t, ht, -⟩ := (hi i).mpr rfl
    exact (List.getElem?_eq_some_iff.mp ht).1
  have hwhole : (arguments.insertIdx i (.proc closure)).length = s.params.length := by
    rw [List.length_insertIdx, if_pos (by omega), hl]
  unfold Enter.call
  rw [Signature.bindArguments_eq_ok.mpr (.block hl hi),
    Signature.bindArguments_eq_ok.mpr (.whole hwhole)]

/--
Conversion is complete before anything is entered.

* A call that is refused, for the number of its arguments or for the first that does not convert,
  answers with that fault whatever code there is, and leaves the thread as it was. Of the memory
  only the byte behind strings that arguments before the failing one bring by their own bytes may
  have become zero.
* A call whose arguments convert enters its code exactly once, with what they have been converted
  to; a struct is passed with the bytes that it has then.
* Every call is of one of the two kinds, and a block is converted as if it had been passed.
* The same holds of variadic calls, which can be refused for their further types as well.
-/
theorem converts_before_entering {s : Signature} {address : Nat} (ha : address ≠ 0)
    (arguments : List Value) (block interrupt : Option Nat) (m : Machine) :
    ((∀ f ids w, s.Refuses arguments block m.world f ids w → m.world.Pinned ids w ∧
        ∀ enter : Enter, enter.call s address arguments block interrupt m =
          some (.error (.fault f), ⟨w, m.thread, m.parked⟩)) ∧
      (∀ values frame w, s.Binds arguments block values →
        toArguments s.enums (s.params.zip values) m.world = (.ok frame, w) →
        EntersOnce (fun enter => enter.call s address arguments block interrupt) m address
          (s.push frame w.memory.heap)
          (Machine.entered ⟨w, m.thread, m.parked⟩ (s.blocking || interrupt.isSome) interrupt)) ∧
      ((∃ f ids w, s.Refuses arguments block m.world f ids w) ∨
        ∃ values frame w, s.Binds arguments block values ∧
          toArguments s.enums (s.params.zip values) m.world = (.ok frame, w)) ∧
      ∀ i closure, block = some closure → arguments.length + 1 = s.params.length →
        s.SoleCallback i → ∀ enter : Enter,
          enter.call s address arguments block interrupt m =
            enter.call s address (arguments.insertIdx i (.proc closure)) none interrupt m) ∧
    ∀ (f : VariadicFunction) (extra : List (TypeSpec × Value)),
      (∀ e f' ids w, f.Refuses arguments extra m.world e f' ids w → m.world.Pinned ids w ∧
        ∀ enter : Enter, f.call enter arguments extra m =
          some ((.error (.fault e), f'), ⟨w, m.thread, m.parked⟩)) ∧
      (∀ s' frame w, f.Converts arguments extra m.world s' frame w →
        EntersOnce (fun enter => f.call enter arguments extra) m f.address
          (s'.push frame w.memory.heap)
          (Machine.entered ⟨w, m.thread, m.parked⟩ s'.blocking none)) ∧
      ((∃ e f' ids w, f.Refuses arguments extra m.world e f' ids w) ∨
        ∃ s' frame w, f.Converts arguments extra m.world s' frame w) := by
  refine ⟨⟨?_, ?_, ?_, ?_⟩, fun f extra => ⟨?_, ?_, ?_⟩⟩
  · exact fun f ids w h => ⟨h.pinned, fun enter => Enter.call_eq_error ha h⟩
  · intro values frame w hv hf
    obtain ⟨k, hk⟩ := entersOnce_execute s address frame interrupt ⟨w, m.thread, m.parked⟩
    exact ⟨k, fun enter =>
      (call_eq_execute ha (Signature.bindArguments_eq_ok.mpr hv) hf).trans (hk enter)⟩
  · exact s.refuses_or_converts arguments block m.world
  · rintro i closure rfl hl hi enter
    rw [Enter.call_block hl hi]
  · exact fun e f' ids w h => ⟨h.pinned, fun enter => VariadicFunction.call_eq_error h⟩
  · exact fun s' frame w h => VariadicFunction.entersOnce_call h
  · exact f.refuses_or_converts arguments extra m.world

/-! ## A string before an argument that does not convert -/

/-- A pointer, and an integer behind it. -/
def pointerThenInt : Signature :=
  ⟨0, .builtin .void, [.builtin (.pointer .plain), .int32], none, .default, none, false, false⟩

/-- A machine with one string of three bytes, the last of them 7, and a byte 65 behind it. -/
def tailed : Machine :=
  { Machine.start with world := { World.start with
    memory := { World.start.memory with heap := World.start.memory.heap.store 4098 [7, 65] }
    strings := #[⟨4096, 3⟩] } }

/-- The string is passed by its own bytes, and nil is no integer. -/
theorem refuses_tailed : ∃ w, w.memory.heap = tailed.world.memory.heap.store 4099 [0] ∧
    pointerThenInt.Refuses [.str 0, .nil] none tailed.world (.type "integer" "nil") [0] w :=
  ⟨_, rfl, .argument (i := 1) (.whole rfl) ⟨_, _, .int32, .nil, rfl, rfl, rfl⟩⟩

/-- The call fails for its integer, and the bytes of the string are what they were. -/
theorem converts_before_entering_tailed : ∃ w,
    (∀ enter : Enter, enter.call pointerThenInt 16 [.str 0, .nil] none none tailed =
      some (.error (.fault (.type "integer" "nil")), ⟨w, tailed.thread, tailed.parked⟩)) ∧
    w.memory.heap.get 4098 = 7 := by
  obtain ⟨w, hw, h⟩ := refuses_tailed
  obtain ⟨hp, hcall⟩ := (converts_before_entering (by decide : 16 ≠ 0) [.str 0, .nil] none none
    tailed).1.1 _ _ _ h
  refine ⟨w, hcall, ?_⟩
  rcases hp.bytes 4098 (Or.inl (by decide)) with he | ⟨-, id, hid, s, hs, hc⟩
  · rw [he]
    exact Heap.get_store ..
  · obtain rfl := List.mem_singleton.mp hid
    obtain rfl := Option.some.inj hs
    exact absurd hc (by decide)

/-- A call that fails for its second argument has already put a zero byte behind the string that is
its first. -/
theorem call_failed_terminates : tailed.world.memory.heap.get 4099 = 65 ∧
    4099 < tailed.world.memory.heap.next ∧ ∀ enter : Enter, ∃ w,
      enter.call pointerThenInt 16 [.str 0, .nil] none none tailed =
        some (.error (.fault (.type "integer" "nil")), ⟨w, tailed.thread, tailed.parked⟩) ∧
      w.memory.heap.get 4099 = 0 := by
  obtain ⟨w, hw, h⟩ := refuses_tailed
  refine ⟨Heap.get_store .., by decide, fun enter => ⟨w, Enter.call_eq_error (by decide) h, ?_⟩⟩
  rw [hw]
  exact Heap.get_store ..

end ForeignCall
