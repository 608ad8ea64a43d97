import ForeignCall.Call.Convert
import ForeignCall.Proofs.Actions

/-!
# What conversions are made of

The four conversions of a call are sequences of a few operations. A property that these have, and
that a sequence inherits from its parts (`Act.Inherited`), is one of every conversion.
-/

namespace ForeignCall

open Abi

/-- A property that the operations have of which conversions are made, and that sequences
inherit. -/
structure Act.Inherited (P : ∀ ⦃α : Type⦄, Act α → Prop) : Prop where
  ofOutcome {α : Type} (o : Outcome α) : P (ofOutcome o)
  read {α : Type} (f : Memory → Checked α) : P (read f)
  write (f : Memory → Checked Memory) : P (write f)
  make {α : Type} (f : Memory → Outcome (α × Memory)) : P (make f)
  bind {α β : Type} {x : Act α} {f : α → Act β} : P x → (∀ a, P (f a)) → P (x >>= f)
  atArgument {α : Type} {x : Act α} (index : Nat) : P x → P (x.atArgument index)
  stringFrom (address : Nat) : P (stringFrom address)
  pinString (id : Nat) : P (pinString id)
  copyString (id : Nat) : P (copyString id)
  makeCallback (signature : Signature) (closure : Nat) (prepared : Checked Unit) :
    P (makeCallback signature closure prepared)
  callbackAddress (id : Nat) : P (view fun w => w.callbackAddress id)
  newRetention : P Instance.newRetention

namespace Act.Inherited

variable {P : ∀ ⦃α : Type⦄, Act α → Prop} {α β : Type}

section

variable (h : Inherited P)

include h

/-! ## Sequences -/

theorem pure (a : α) : P (Pure.pure a : Act α) := h.ofOutcome (.ok a)

theorem refuse (f : Fault) : P (Act.refuse f : Act α) := h.ofOutcome (.error (.fault f))

theorem ofChecked (c : Checked α) : P (Act.ofChecked c) := h.ofOutcome c.outcome

theorem map {x : Act α} (hx : P x) (f : α → β) : P (f <$> x) := h.bind hx fun a => h.pure (f a)

theorem mapM {f : α → Act β} (hf : ∀ a, P (f a)) (l : List α) : P (l.mapM f) := by
  induction l with
  | nil => exact h.pure []
  | cons a l ih =>
    rw [List.mapM_cons]
    exact h.bind (hf a) fun b => h.bind ih fun bs => h.pure _

/-! ## Arguments -/

theorem pointerArgument (value : Value) : P (pointerArgument value) := by
  have hlive : ∀ (v : View) (a : Nat), P (do ensureLive v; return a) :=
    fun v a => h.bind (h.read _) fun _ => h.pure a
  cases value with
  | str id => exact h.pinString id
  | pointer v => exact hlive v _
  | struct s => exact hlive s.view _
  | object id answer =>
    refine h.bind (h.ofChecked answer) fun inner => ?_
    cases inner with
    | pointer v => exact hlive v _
    | struct s => exact hlive s.view _
    | nil => exact h.pure 0
    | _ => exact h.refuse _
  | function f => exact h.pure _
  | nil => exact h.pure 0
  | int i => exact h.ofChecked _
  | _ => exact h.refuse _

theorem stringArgument (value : Value) : P (stringArgument value) := by
  cases value with
  | nil => exact h.pure 0
  | str id => exact h.copyString id
  | _ => exact h.refuse _

theorem callbackArgument (signature : Signature) (value : Value) :
    P (callbackArgument signature value) := by
  cases value with
  | nil => exact h.pure 0
  | function f => exact h.pure _
  | pointer v => exact h.pure _
  | proc closure =>
    exact h.bind (h.makeCallback signature closure _) fun _ => h.callbackAddress _
  | _ => exact h.refuse _

theorem structArgument (layout : Layout) (value : Value) : P (structArgument layout value) := by
  cases value with
  | struct s =>
    unfold ForeignCall.structArgument
    dsimp only
    split
    · exact h.read _
    · exact h.refuse _
  | _ => exact h.refuse _

theorem toArgument (enums : Option Enums) (value : Value) (t : Ty) :
    P (t.toArgument enums value) := by
  cases t with
  | builtin b =>
    cases b with
    | int k =>
      cases value with
      | symbol name =>
        unfold Ty.toArgument
        dsimp only
        split
        · exact h.bind (h.ofChecked _) fun _ => h.pure _
        · exact h.refuse _
      | _ => exact h.bind (h.ofChecked _) fun _ => h.pure _
    | float k => exact h.bind (h.ofChecked _) fun _ => h.pure _
    | bool => exact h.bind (h.ofChecked _) fun _ => h.pure _
    | pointer r => exact h.map (h.pointerArgument value) _
    | string => exact h.map (h.stringArgument value) _
    | void => exact h.refuse _
    | varargs => exact h.refuse _
  | enumeration table => exact h.bind (h.ofChecked _) fun _ => h.pure _
  | callback signature => exact h.map (h.callbackArgument signature value) _
  | struct layout => exact h.structArgument layout value
  | array c n => exact h.refuse _
  | charArray n => exact h.refuse _

/-- The arguments of a call. -/
theorem toArguments (enums : Option Enums) (arguments : List (Ty × Value)) :
    P (toArguments enums arguments) :=
  h.mapM (fun ((t, value), i) =>
    h.bind (h.atArgument i (h.toArgument enums value t)) fun _ => h.pure _) _

/-! ## Native bytes -/

theorem instanceMake (layout : Layout) : P (Instance.make layout) :=
  h.bind (h.make _) fun _ => h.bind h.newRetention fun _ => h.pure _

theorem instanceOfBytes (layout : Layout) (bytes : List UInt8) :
    P (Instance.ofBytes layout bytes) :=
  h.bind (h.instanceMake layout) fun _ => h.bind (h.write _) fun _ => h.pure _

/-- The value of native bytes. -/
theorem ofNative (bytes : List UInt8) (t : Ty) : P (t.ofNative bytes) := by
  cases t with
  | builtin b =>
    cases b with
    | string => exact h.stringFrom _
    | varargs => exact h.refuse _
    | _ => exact h.pure _
  | struct layout => exact h.map (h.instanceOfBytes layout bytes) _
  | enumeration table => exact h.pure _
  | callback signature => exact h.pure _
  | array c n => exact h.refuse _
  | charArray n => exact h.refuse _

/-! ## Results of closures -/

theorem resultBytes (enums : Option Enums) (value : Value) (t : Ty) :
    P (t.resultBytes enums value) := by
  cases t with
  | builtin b =>
    cases b with
    | int k =>
      cases value with
      | symbol name =>
        unfold Ty.resultBytes
        dsimp only
        split
        · exact h.map (h.ofChecked _) _
        · exact h.refuse _
      | _ => exact h.map (h.ofChecked _) _
    | string =>
      cases value with
      | str id => exact h.refuse _
      | _ => exact h.map (h.ofChecked _) _
    | void => exact h.refuse _
    | varargs => exact h.refuse _
    | _ => exact h.map (h.ofChecked _) _
  | enumeration table => exact h.map (h.ofChecked _) _
  | callback signature =>
    cases value with
    | function f => exact h.pure _
    | pointer v => exact h.pure _
    | _ => exact h.refuse _
  | struct layout =>
    cases value with
    | struct s =>
      unfold Ty.resultBytes
      dsimp only
      split
      · exact h.read _
      · exact h.refuse _
    | _ => exact h.refuse _
  | array c n => exact h.refuse _
  | charArray n => exact h.refuse _

/-- The result of a closure. -/
theorem toResult (enums : Option Enums) (t : Ty) (value : Value) (storage : List UInt8) :
    P (t.toResult enums value storage) := by
  unfold Ty.toResult
  split
  · exact h.pure _
  · exact h.pure _
  · exact h.map (h.resultBytes enums value t) _

end

end Act.Inherited

end ForeignCall
