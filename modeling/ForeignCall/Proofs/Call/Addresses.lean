import ForeignCall.Proofs.Call.Liveness
import ForeignCall.Proofs.Call.Results
import ForeignCall.Struct.Field

/-!
# Values that stand for addresses

A value becomes an address in two ways: as the argument of a pointer parameter, where memory must
not have been released and a string is passed by its own bytes (`pointerArgument`), and wherever it
is stored as a pointer (`Value.toAddress`). `Value.Denotes` states the rule once, as a relation;
both ways follow it.

Main statement: `Value.addresses_agree`.
-/

namespace ForeignCall

namespace Value

/-! ## The rule -/

/-- What an object may answer with when it is asked for its address. -/
def IsAnswer : Value → Prop
  | .nil => True
  | .pointer _ => True
  | .struct _ => True
  | _ => False

/-- A value of a kind that may stand for an address. -/
def IsPointerLike : Value → Prop
  | .function _ => True
  | .int _ => True
  | .object _ _ => True
  | v => v.IsAnswer

/-- The address that a value stands for, or the fault of one that stands for none. -/
inductive Denotes : Value → Checked Nat → Prop where
  | nil : Denotes .nil (.ok 0)
  /-- A negative integer counts from the end of the address space. -/
  | int {n : Int} (h : -(signedLimit : Int) ≤ n ∧ n < wordLimit) :
      Denotes (.int n) (.ok (n % wordLimit).toNat)
  | outside {n : Int} (h : ¬(-(signedLimit : Int) ≤ n ∧ n < wordLimit)) :
      Denotes (.int n) (.error (.range n "pointer" (-(signedLimit : Int)) ((wordLimit : Int) - 1)))
  | pointer (v : View) : Denotes (.pointer v) (.ok v.address)
  | struct (s : Instance) : Denotes (.struct s) (.ok s.address)
  | function (f : Function) : Denotes (.function f) (.ok f.address)
  /-- An object stands for what it answers with. -/
  | answered (id : Nat) {answer : Value} {a : Nat} (h : answer.IsAnswer)
      (ha : Denotes answer (.ok a)) : Denotes (.object id (.ok answer)) (.ok a)
  /-- It is not asked any further. -/
  | strayed (id : Nat) {answer : Value} (h : ¬answer.IsAnswer) :
      Denotes (.object id (.ok answer)) (.error (.type "pointer from to_ptr" answer.typeName))
  | refused (id : Nat) (f : Fault) : Denotes (.object id (.error f)) (.error f)
  | other {v : Value} (h : ¬v.IsPointerLike) : Denotes v (.error (.type "pointer" v.typeName))

theorem addressOfInt_inside {n : Int} (h : -(signedLimit : Int) ≤ n ∧ n < wordLimit) :
    addressOfInt n = .ok (n % wordLimit).toNat := by
  unfold addressOfInt wordOfInt
  split
  next hn => rw [Int.emod_eq_of_lt hn.1 hn.2]
  next hn => rw [if_pos (by omega)]

theorem addressOfInt_outside {n : Int} (h : ¬(-(signedLimit : Int) ≤ n ∧ n < wordLimit)) :
    addressOfInt n =
      .error (.range n "pointer" (-(signedLimit : Int)) ((wordLimit : Int) - 1)) := by
  unfold addressOfInt
  rw [if_neg (by omega), if_neg (by omega)]

/-- The rule gives each value one address or one fault, the one it is stored by. -/
theorem denotes_iff {value : Value} {c : Checked Nat} : value.Denotes c ↔ value.toAddress = c := by
  constructor
  · intro h
    induction h with
    | int h => exact addressOfInt_inside h
    | outside h => exact addressOfInt_outside h
    | @answered id answer a h ha ih =>
      -- a nil, a view and a struct answer with what they stand for themselves
      cases answer with
      | nil => exact ih
      | pointer v => exact ih
      | struct s => exact ih
      | _ => cases h
    | @strayed id answer h =>
      cases answer with
      | nil => exact absurd trivial h
      | pointer v => exact absurd trivial h
      | struct s => exact absurd trivial h
      | _ => rfl
    | @other value h =>
      cases value with
      | nil => exact absurd trivial h
      | int n => exact absurd trivial h
      | pointer v => exact absurd trivial h
      | struct s => exact absurd trivial h
      | function f => exact absurd trivial h
      | object id answer => exact absurd trivial h
      | _ => rfl
    | _ => rfl
  · rintro rfl
    cases value with
    | nil => exact .nil
    | int n =>
      by_cases hn : -(signedLimit : Int) ≤ n ∧ n < wordLimit
      · rw [toAddress, addressOfInt_inside hn]
        exact .int hn
      · rw [toAddress, addressOfInt_outside hn]
        exact .outside hn
    | pointer v => exact .pointer v
    | struct s => exact .struct s
    | function f => exact .function f
    | object id answer =>
      cases answer with
      | error f => exact .refused id f
      | ok answer =>
        cases answer with
        | nil => exact .answered id trivial .nil
        | pointer v => exact .answered id trivial (.pointer v)
        | struct s => exact .answered id trivial (.struct s)
        | _ => exact .strayed id fun h => h
    | _ => exact .other fun h => h

end Value

/-! ## Parameters -/

variable {value : Value} {w : World}

/-- Memory that has not been released is passed as it is. -/
theorem ensureLive_bind_live {v : View} (h : ¬w.Released v) (a : Nat) :
    (do ensureLive v; return a : Act Nat) w = (.ok a, w) := by
  have hlive : (v.origin.any fun o => !w.memory.isLive o) = false := by
    cases ho : v.origin with
    | none => rfl
    | some o =>
      cases hl : w.memory.isLive o with
      | true => simp [hl]
      | false => exact absurd ⟨o, ho, hl⟩ h
  have hensure : ensureLive v w = (.ok (), w) := by
    unfold ensureLive Act.read
    dsimp only
    rw [hlive]
    rfl
  exact Act.bind_ok hensure

/-- A pointer parameter takes what a pointer is stored by. -/
theorem pointerArgument_eq_toAddress (hs : ∀ id, value ≠ .str id)
    (hl : ∀ v, value.view? = some v → ¬w.Released v) :
    pointerArgument value w = (value.toAddress.outcome, w) := by
  cases value with
  | str id => exact absurd rfl (hs id)
  | pointer v => exact ensureLive_bind_live (hl v rfl) _
  | struct s => exact ensureLive_bind_live (hl s.view rfl) _
  | object id answer =>
    cases answer with
    | error f => rfl
    | ok answer =>
      cases answer with
      | pointer v => exact ensureLive_bind_live (hl v rfl) _
      | struct s => exact ensureLive_bind_live (hl s.view rfl) _
      | _ => rfl
  | _ => rfl

/-! ## Stores -/

/-- A builtin type whose values are stored as addresses. -/
def Builtin.HoldsAddress : Builtin → Prop
  | .pointer _ => True
  | .string => True
  | _ => False

/-- An address written at an offset, or the fault of a value that has none. -/
def View.putAddress (v : View) (offset : Nat) : Checked Nat → Act Unit
  | .ok a => Act.write fun m => m.writeAddress v offset a
  | .error f => Act.refuse f

/-- The bytes of a result that is an address, or the fault of a value that has none. -/
def addressResult (storage : List UInt8) (c : Checked Nat) : Checked (List UInt8) :=
  c.map fun a => Bytes.overwrite storage (addressBytes a)

theorem View.ofChecked_bind_write (v : View) (offset : Nat) (c : Checked Nat) :
    (do let a ← Act.ofChecked c; Act.write fun m => m.writeAddress v offset a) =
      v.putAddress offset c := by
  cases c <;> rfl

variable {b : Builtin}

theorem View.put_eq_putAddress (hb : b.HoldsAddress) (hs : ∀ id, value ≠ .str id) (v : View)
    (offset : Nat) : v.put (.builtin b) offset value = v.putAddress offset value.toAddress := by
  rw [← v.ofChecked_bind_write]
  cases b with
  | pointer r => rfl
  | string =>
    cases value with
    | str id => exact absurd rfl (hs id)
    | _ => rfl
  | _ => cases hb

theorem Ty.putField_eq_putAddress (hb : b.HoldsAddress) (hs : ∀ id, value ≠ .str id) (v : View)
    (retention offset : Nat) : (Ty.builtin b).putField v retention offset value =
      v.putAddress offset value.toAddress := by
  cases b with
  | pointer r => exact v.put_eq_putAddress hb hs offset
  | string =>
    rw [← v.ofChecked_bind_write]
    cases value with
    | str id => exact absurd rfl (hs id)
    | _ => rfl
  | _ => cases hb

/-- Values that stand for addresses, one by one. -/
abbrev Value.AllDenote (values : List Value) (addresses : List Nat) : Prop :=
  List.Forall₂ (fun v a => v.Denotes (.ok a)) values addresses

theorem Value.AllDenote.mapM {values : List Value} {addresses : List Nat}
    (h : Value.AllDenote values addresses) : values.mapM Value.toAddress = .ok addresses := by
  induction h with
  | nil => rfl
  | cons hv _ ih =>
    rw [List.mapM_cons, Value.denotes_iff.mp hv, ih]
    rfl

/-- The first value that stands for no address decides. -/
theorem Value.AllDenote.mapM_error {before after : List Value} {addresses : List Nat}
    (h : Value.AllDenote before addresses) {f : Fault} (hf : value.toAddress = .error f) :
    (before ++ value :: after).mapM Value.toAddress = .error f := by
  induction h with
  | nil =>
    rw [List.nil_append, List.mapM_cons, hf]
    rfl
  | cons hv _ ih =>
    rw [List.cons_append, List.mapM_cons, Value.denotes_iff.mp hv, ih]
    rfl

/-! ## Results -/

theorem Ty.toResult_eq_addressResult (hb : b.HoldsAddress) (hs : ∀ id, value ≠ .str id)
    (hn : value ≠ .nil) (enums : Option Enums) (storage : List UInt8) :
    (Ty.builtin b).toResult enums value storage w =
      ((addressResult storage value.toAddress).outcome, w) := by
  have hv : Ty.builtin b ≠ .builtin .void := by
    rintro h
    cases h
    cases hb
  have hbytes : (Ty.builtin b).resultBytes enums value =
      addressBytes <$> Act.ofChecked value.toAddress := by
    cases b with
    | pointer r => rfl
    | string =>
      cases value with
      | str id => exact absurd rfl (hs id)
      | _ => rfl
    | _ => cases hb
  rw [Ty.toResult_of_ne_nil hv hn, hbytes]
  cases value.toAddress <;> rfl

/-! ## Both ways -/

/--
The ways in which a value comes to be an address, given the address or the fault that it denotes:
as an argument of a pointer type, stored by itself, as a field, among others, or as a result.
-/
structure Value.ComesTo (value : Value) (c : Checked Nat) (w : World) : Prop where
  argument : ∀ role enums, (Ty.builtin (.pointer role)).toArgument enums value w =
    (Checked.outcome (c.map Passed.address), w)
  /-- The fault of an argument is told its position. -/
  position : ∀ role enums index,
    ((Ty.builtin (.pointer role)).toArgument enums value).atArgument index w =
      (Checked.outcome ((c.map Passed.address).mapError (Fault.atArgument index)), w)
  put : ∀ (b : Builtin) (v : View) offset, b.HoldsAddress →
    v.put (.builtin b) offset value w = v.putAddress offset c w
  field : ∀ (b : Builtin) (v : View) retention offset, b.HoldsAddress →
    (Ty.builtin b).putField v retention offset value w = v.putAddress offset c w
  element : ∀ (v : View) offset before as after bs, Value.AllDenote before as →
    Value.AllDenote after bs → ∀ a, c = .ok a →
      v.putPointers offset (before ++ value :: after) w =
        Act.write (fun m => m.writeBitsArray v offset addressSize (as ++ a :: bs)) w
  refused : ∀ (v : View) offset before as after, Value.AllDenote before as → ∀ f, c = .error f →
    v.putPointers offset (before ++ value :: after) w = (.error (.fault f), w)
  result : ∀ (b : Builtin) enums storage, b.HoldsAddress → value ≠ .nil →
    (Ty.builtin b).toResult enums value storage w = ((addressResult storage c).outcome, w)

/--
The two conversions agree. A value that is no string and stands for no released memory denotes one
address or one fault, and comes to it as the argument of a pointer parameter, wherever a pointer is
stored, and as the result of a closure. A nil result alone is not converted, it is zero.
-/
theorem Value.addresses_agree (value : Value) (w : World) (hs : ∀ id, value ≠ .str id)
    (hl : ∀ v, value.view? = some v → ¬w.Released v) :
    (∃ c, value.Denotes c ∧ (∀ d, value.Denotes d → d = c) ∧ value.ComesTo c w) ∧
    ∀ (b : Builtin) enums storage, b.HoldsAddress →
      (Ty.builtin b).toResult enums .nil storage w =
        (.ok (Bytes.overwrite storage (Bytes.zeros addressSize)), w) := by
  refine ⟨⟨value.toAddress, denotes_iff.mpr rfl, fun d hd => (denotes_iff.mp hd).symm, ?_⟩, ?_⟩
  · have hargument : ∀ role enums, (Ty.builtin (.pointer role)).toArgument enums value w =
        (Checked.outcome (value.toAddress.map Passed.address), w) := by
      intro role enums
      show (Passed.address <$> pointerArgument value) w = _
      have hp := pointerArgument_eq_toAddress hs hl
      cases hc : value.toAddress with
      | error f =>
        rw [hc] at hp
        exact Act.bind_error hp
      | ok a =>
        rw [hc] at hp
        exact Act.map_ok hp
    refine ⟨hargument, fun role enums index => ?_, fun b v offset hb => ?_,
      fun b v retention offset hb => ?_, ?_, ?_, fun b enums storage hb hn => ?_⟩
    · unfold Act.atArgument
      rw [hargument]
      cases value.toAddress <;> rfl
    · rw [v.put_eq_putAddress hb hs]
    · rw [Ty.putField_eq_putAddress hb hs]
    · intro v offset before as after bs hbefore hafter a ha
      have hall : AllDenote (before ++ value :: after) (as ++ a :: bs) :=
        List.rel_append hbefore (.cons (denotes_iff.mpr ha) hafter)
      unfold View.putPointers
      rw [hall.mapM]
      rfl
    · intro v offset before as after hbefore f hf
      unfold View.putPointers
      rw [hbefore.mapM_error hf]
      rfl
    · exact Ty.toResult_eq_addressResult hb hs hn enums storage
  · intro b enums storage hb
    cases b with
    | pointer r => rfl
    | string => rfl
    | _ => cases hb

/-- The integer below zero is the last address, and the one above that is out of range; an object
stands for the view it answers with, and for no integer. -/
theorem Value.addresses_agree_limits :
    (Value.int (-1)).ComesTo (.ok (wordLimit - 1)) World.start ∧
    (Value.int wordLimit).ComesTo (.error (.range wordLimit "pointer" (-(signedLimit : Int))
      ((wordLimit : Int) - 1))) World.start ∧
    (Value.object 0 (.ok (.pointer (.sized 4096 8)))).ComesTo (.ok 4096) World.start ∧
    (Value.object 0 (.ok (.int 4096))).ComesTo
      (.error (.type "pointer from to_ptr" "integer")) World.start := by
  have hview : ¬World.start.Released (.sized 4096 8) := by
    rintro ⟨o, ho, -⟩
    cases ho
  have hagree : ∀ {value : Value} {c : Checked Nat}, (∀ id, value ≠ .str id) →
      (∀ v, value.view? = some v → ¬World.start.Released v) → value.Denotes c →
      value.ComesTo c World.start := by
    intro value c hs hl hc
    obtain ⟨⟨d, -, honly, hcomes⟩, -⟩ := Value.addresses_agree value World.start hs hl
    rw [honly c hc]
    exact hcomes
  refine ⟨hagree nofun nofun (.int (by decide)), hagree nofun nofun (.outside (by decide)),
    hagree nofun ?_ (.answered 0 trivial (.pointer _)), hagree nofun nofun (.strayed 0 fun h => h)⟩
  rintro v hv
  cases hv
  exact hview

end ForeignCall
