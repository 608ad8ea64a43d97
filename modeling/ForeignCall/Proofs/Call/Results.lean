import ForeignCall.Proofs.Call.Arguments

/-!
# Results and what they are returned as

What a closure returns is written to the storage of its result, widened to a register where its type
is an integer, and read from there as the result of the call. The two conversions compose to the
image of the value (`Ty.Built.yields_toResult`), and nil, which fits every type, is what zero bytes
are read as.
-/

namespace ForeignCall

open Abi

/-! ## Storage -/

namespace Bytes

theorem overwrite_of_length {store bytes : List UInt8} (h : bytes.length = store.length) :
    overwrite store bytes = bytes := by
  unfold overwrite
  rw [← h, List.take_length, h, List.drop_length, List.append_nil]

@[simp] theorem length_zeros (n : Nat) : (zeros n).length = n := List.length_replicate

theorem toNat_zeros (n : Nat) : toNat (zeros n) = 0 := by
  induction n with
  | zero => rfl
  | succ n ih =>
    show (0 : UInt8).toNat + 256 * toNat (zeros n) = 0
    rw [ih]
    rfl

theorem fit_zeros (m n : Nat) : fit m (zeros n) = zeros m := by
  have h : min m n + (m - n) = m := by omega
  simp only [fit, zeros, List.take_replicate, List.length_replicate,
    List.replicate_append_replicate, h]

theorem toNat_fit_zeros (m n : Nat) : toNat (fit m (zeros n)) = 0 := by
  rw [fit_zeros, toNat_zeros]

end Bytes

section

variable {w w' : World} {tables : Option Enums} {t : Ty} {value : Value} {bytes : List UInt8}

/-! ## One result -/

/-- Bytes that are read as what a call returns for a value, where there is memory for it. -/
def Ty.Yields (tables : Option Enums) (w : World) (t : Ty) (value : Value) (bytes : List UInt8) :
    Prop :=
  (∀ layout, t = .struct layout → w.memory.Grants layout.size) →
    ∃ x w', t.ofNative bytes w = (.ok x, w') ∧ w.Extends w' ∧ t.Returns tables w w' value x

theorem Ty.Yields.of_pure {x : Value} (h : t.ofNative bytes = pure x)
    (hx : t.Returns tables w w value x) : t.Yields tables w value bytes := by
  intro _
  exact ⟨x, w, by rw [h]; rfl, .refl w, hx⟩

/-- A value that is shown by its image alone. -/
theorem Ty.Yields.of_image {x : Value} (h : t.ofNative bytes = pure x)
    (hx : t.Image tables w w value x) : t.Yields tables w value bytes :=
  .of_pure h (.image hx)

/-- A string is returned by its address, and the caller gets a copy. -/
theorem Ty.yields_string {a : Nat} (h : wrap a = wrap (w.addressOf value)) :
    (Ty.builtin .string).Yields tables w value (addressBytes a) := by
  intro _
  by_cases hz : wrap (w.addressOf value) = 0
  · have hat : w.memory.stringAt (wrap a) = none := by
      unfold Memory.stringAt
      rw [h, if_pos hz]
    refine ⟨.nil, w, ?_, .refl w, .null hz⟩
    rw [ofNative_string]
    exact Act.bind_eq_ok.mpr ⟨_, w, Act.view_eq_ok.mpr ⟨hat, rfl⟩, rfl⟩
  · refine ⟨.str w.strings.size, _, ?_, w.extends_newString _,
      .text hz (Nat.le_refl _) ?_ (w.stringBytes_newString _)⟩
    · rw [ofNative_string, h, Act.stringFrom_of_ne_zero hz]
    · exact (Array.getElem?_eq_some_iff.mp (w.getElem?_strings_newString _)).1

theorem Ty.yields_struct {layout : Layout} {s : Instance} (hsize : s.size = layout.size)
    (h : w.memory.readBytes s.view 0 s.size = .ok bytes) :
    (Ty.struct layout).Yields tables w (.struct s) bytes := by
  intro hg
  have hlen : bytes.length = layout.size := by
    obtain ⟨-, rfl⟩ := Memory.readBytes_eq_ok h
    rw [Heap.length_load, hsize]
  obtain ⟨address, id, retention, w', hof, hext, -, hnew, hold, hb⟩ :=
    Instance.ofBytes_fresh (hg layout rfl) bytes
  rw [Bytes.fit_of_length hlen] at hb
  exact ⟨_, w', Act.map_ok hof, hext, .image (.struct hsize h hnew hold hb)⟩

theorem Ty.resultBytes_int {k : IntKind}
    (h : (Ty.builtin (.int k)).resultBytes tables value w = (.ok bytes, w')) :
    w' = w ∧ ∃ i, bytes = wideResult i ∧ value.Gives tables k i := by
  have hint : (wideResult <$> Act.ofChecked (value.toInt k)) w =
      ((.ok bytes : Outcome (List UInt8)), w') →
        w' = w ∧ ∃ i, bytes = wideResult i ∧ value.Gives tables k i := by
    intro hb
    obtain ⟨i, hc, rfl⟩ := Act.map_eq_ok.mp hb
    obtain ⟨hi, rfl⟩ := Act.ofChecked_eq_ok.mp hc
    exact ⟨rfl, i, rfl, Or.inl hi⟩
  cases value with
  | symbol name =>
    unfold resultBytes at h
    dsimp only at h
    split at h
    next hk =>
      obtain ⟨i, hc, rfl⟩ := Act.map_eq_ok.mp h
      obtain ⟨hi, rfl⟩ := Act.ofChecked_eq_ok.mp hc
      exact ⟨rfl, i, rfl, Or.inr ⟨name, rfl, hk, hi⟩⟩
    next => exact absurd h Act.refuse_ne_ok
  | _ => exact hint h

theorem Ty.resultBytes_string
    (h : (Ty.builtin .string).resultBytes tables value w = (.ok bytes, w')) :
    w' = w ∧ ∃ a, bytes = addressBytes a ∧ value.toAddress = .ok a := by
  have haddress : (addressBytes <$> Act.ofChecked value.toAddress) w =
      ((.ok bytes : Outcome (List UInt8)), w') →
        w' = w ∧ ∃ a, bytes = addressBytes a ∧ value.toAddress = .ok a := by
    intro hb
    obtain ⟨a, hc, rfl⟩ := Act.map_eq_ok.mp hb
    obtain ⟨ha, rfl⟩ := Act.ofChecked_eq_ok.mp hc
    exact ⟨rfl, a, rfl, ha⟩
  cases value with
  | str id => exact absurd h Act.refuse_ne_ok
  | _ => exact haddress h

/-- What is written for a value is as long as the storage of its type. -/
theorem Ty.length_resultBytes (h : t.resultBytes tables value w = (.ok bytes, w')) :
    bytes.length = t.resultSize := by
  cases t with
  | builtin b =>
    cases b with
    | int k =>
      obtain ⟨-, i, rfl, -⟩ := resultBytes_int h
      exact Bytes.length_ofInt 8 i
    | float k =>
      obtain ⟨bits, -, rfl⟩ := Act.map_eq_ok.mp h
      exact Bytes.length_ofNat _ _
    | bool =>
      obtain ⟨b, -, rfl⟩ := Act.map_eq_ok.mp h
      exact Bytes.length_ofInt 8 _
    | pointer role =>
      obtain ⟨a, -, rfl⟩ := Act.map_eq_ok.mp h
      exact Bytes.length_ofNat _ _
    | string =>
      obtain ⟨-, a, rfl, -⟩ := resultBytes_string h
      exact Bytes.length_ofNat _ _
    | void => exact absurd h Act.refuse_ne_ok
    | varargs => exact absurd h Act.refuse_ne_ok
  | array c n => exact absurd h Act.refuse_ne_ok
  | charArray n => exact absurd h Act.refuse_ne_ok
  | enumeration table =>
    obtain ⟨i, -, rfl⟩ := Act.map_eq_ok.mp h
    exact Bytes.length_ofInt 8 i
  | callback s =>
    cases value with
    | function f =>
      obtain ⟨rfl, -⟩ := Act.pure_eq_ok.mp h
      exact Bytes.length_ofNat _ _
    | pointer v =>
      obtain ⟨rfl, -⟩ := Act.pure_eq_ok.mp h
      exact Bytes.length_ofNat _ _
    | _ => exact absurd h Act.refuse_ne_ok
  | struct layout =>
    cases value with
    | struct s =>
      unfold resultBytes at h
      dsimp only at h
      split at h
      next hsize =>
        obtain ⟨hs, -⟩ := Act.read_eq_ok.mp h
        obtain ⟨-, rfl⟩ := Memory.readBytes_eq_ok hs
        rw [Heap.length_load, hsize]
        rfl
      next => exact absurd h Act.refuse_ne_ok
    | _ => exact absurd h Act.refuse_ne_ok

/-- What is written for a value is read as the value. -/
theorem Ty.Built.yields_resultBytes (ht : t.Built) (htables : Enums.InRange tables)
    (h : t.resultBytes tables value w = (.ok bytes, w')) :
    w' = w ∧ t.Yields tables w value bytes := by
  cases ht with
  | builtin b =>
    cases b with
    | int k =>
      obtain ⟨rfl, i, rfl, hi⟩ := resultBytes_int h
      exact ⟨rfl, .of_image (ofNative_int k.width.bytes_le (hi.range htables)) hi.image⟩
    | float k =>
      obtain ⟨bits, hc, rfl⟩ := Act.map_eq_ok.mp h
      obtain ⟨hbits, rfl⟩ := Act.ofChecked_eq_ok.mp hc
      refine ⟨rfl, ?_⟩
      cases k with
      | float32 => exact .of_image (ofNative_float32 bits) (.float32 hbits)
      | float64 => exact .of_image (ofNative_float64 bits) (.float64 hbits)
    | bool =>
      obtain ⟨b, hc, rfl⟩ := Act.map_eq_ok.mp h
      obtain ⟨hb, rfl⟩ := Act.ofChecked_eq_ok.mp hc
      refine ⟨rfl, ?_⟩
      cases value with
      | bool b' =>
        obtain rfl := Except.ok.inj hb
        exact .of_image (ofNative_bool (by decide) b') (.bool b')
      | _ => cases hb
    | pointer role =>
      obtain ⟨a, hc, rfl⟩ := Act.map_eq_ok.mp h
      obtain ⟨ha, rfl⟩ := Act.ofChecked_eq_ok.mp hc
      refine ⟨rfl, .of_image (ofNative_pointer role a) ?_⟩
      rw [World.toAddress_eq_ok ha]
      exact .pointer value
    | string =>
      obtain ⟨rfl, a, rfl, ha⟩ := resultBytes_string h
      exact ⟨rfl, yields_string (World.toAddress_eq_ok ha)⟩
    | void => exact absurd h Act.refuse_ne_ok
    | varargs => exact absurd h Act.refuse_ne_ok
  | array n _ => exact absurd h Act.refuse_ne_ok
  | charArray n => exact absurd h Act.refuse_ne_ok
  | @enumeration table hrange =>
    obtain ⟨i, hc, rfl⟩ := Act.map_eq_ok.mp h
    obtain ⟨hi, rfl⟩ := Act.ofChecked_eq_ok.mp hc
    have hrange' := Value.toEnum_range (by simpa using hrange) htables hi
    exact ⟨rfl, .of_image (ofNative_enumeration (by decide) hrange') (.shown hi)⟩
  | callback s =>
    cases value with
    | function f =>
      obtain ⟨rfl, rfl⟩ := Act.pure_eq_ok.mp h
      exact ⟨rfl, .of_image (ofNative_callback s _) (.function f)⟩
    | pointer v =>
      obtain ⟨rfl, rfl⟩ := Act.pure_eq_ok.mp h
      exact ⟨rfl, .of_image (ofNative_callback s _) (.code v)⟩
    | _ => exact absurd h Act.refuse_ne_ok
  | @struct _ layout _ _ =>
    cases value with
    | struct s =>
      unfold resultBytes at h
      dsimp only at h
      split at h
      next hsize =>
        obtain ⟨hs, rfl⟩ := Act.read_eq_ok.mp h
        exact ⟨rfl, yields_struct hsize hs⟩
      next => exact absurd h Act.refuse_ne_ok
    | _ => exact absurd h Act.refuse_ne_ok

/-! ## Nothing -/

/-- Zero bytes are read as what stands for nil. -/
theorem Ty.yields_zeros (hr : t.checkResult = .ok ()) (hv : t ≠ .builtin .void) :
    t.Yields tables w .nil (Bytes.zeros t.resultSize) := by
  cases t with
  | builtin b =>
    cases b with
    | int k =>
      have hzero : k.ofBits 0 = 0 := by
        obtain ⟨signed, width⟩ := k
        cases signed <;> cases width <;> rfl
      have hread : (Ty.builtin (.int k)).ofNative (Bytes.zeros 8) = pure (.int 0) := by
        simp only [ofNative, Bytes.toNat_fit_zeros, hzero]
      exact .of_pure hread (.zeroInt k)
    | float k =>
      have hzero : k.toDouble 0 = 0 := by
        cases k <;> decide
      have hread : (Ty.builtin (.float k)).ofNative (Bytes.zeros k.bytes) = pure (.float 0) := by
        simp only [ofNative, Bytes.toNat_fit_zeros, hzero]
      exact .of_pure hread (.zeroFloat k)
    | bool => exact .of_pure rfl .zeroBool
    | pointer role =>
      show Yields _ _ _ _ (addressBytes 0)
      exact .of_image (ofNative_pointer role 0) (.pointer .nil)
    | string =>
      show Yields _ _ _ _ (addressBytes 0)
      exact yields_string rfl
    | void => exact absurd rfl hv
    | varargs => cases hr
  | struct layout =>
    intro hg
    obtain ⟨address, id, retention, w', hof, hext, -, hnew, -, hb⟩ :=
      Instance.ofBytes_fresh (hg layout rfl) (Bytes.zeros layout.size)
    rw [Bytes.fit_of_length (Bytes.length_zeros _)] at hb
    exact ⟨_, w', Act.map_ok hof, hext, .zeroStruct hnew hb⟩
  | array c n => cases hr
  | charArray n => cases hr
  | enumeration table =>
    have hread : (Ty.enumeration table).ofNative (Bytes.zeros 8) =
        pure ((Value.ofEnum? (some table) 0).getD (.int 0)) := rfl
    refine .of_pure hread ?_
    unfold Value.ofEnum?
    cases hs : table.symbol? 0 with
    | some name =>
      rw [Option.bind_some, hs]
      exact .zeroEnumeration hs
    | none =>
      rw [Option.bind_some, hs]
      exact .zeroUnmapped hs
  | callback s =>
    show Yields _ _ _ _ (addressBytes 0)
    exact .of_image (ofNative_callback s 0) .nilFunction

theorem Ty.toResult_nil (hv : t ≠ .builtin .void) (storage : List UInt8) :
    t.toResult tables .nil storage =
      pure (Bytes.overwrite storage (Bytes.zeros t.resultSize)) := by
  unfold toResult
  split
  next => exact absurd rfl hv
  next => rfl
  next hn => exact absurd rfl hn

theorem Ty.toResult_of_ne_nil (hv : t ≠ .builtin .void) (hn : value ≠ .nil)
    (storage : List UInt8) :
    t.toResult tables value storage =
      Bytes.overwrite storage <$> t.resultBytes tables value := by
  unfold toResult
  split
  next => exact absurd rfl hv
  next => exact absurd rfl hn
  next => rfl

/-- What a closure returns is what the call returns. -/
theorem Ty.Built.yields_toResult (ht : t.Built) (hr : t.checkResult = .ok ())
    (htables : Enums.InRange tables)
    (h : t.toResult tables value (Bytes.zeros t.resultSize) w = (.ok bytes, w')) :
    w' = w ∧ t.Yields tables w value bytes := by
  by_cases hv : t = .builtin .void
  · subst hv
    obtain ⟨rfl, rfl⟩ := Act.pure_eq_ok.mp h
    exact ⟨rfl, .of_pure rfl (.void value)⟩
  · by_cases hn : value = .nil
    · subst hn
      rw [toResult_nil hv, Bytes.overwrite_of_length rfl] at h
      obtain ⟨rfl, rfl⟩ := Act.pure_eq_ok.mp h
      exact ⟨rfl, yields_zeros hr hv⟩
    · rw [toResult_of_ne_nil hv hn] at h
      obtain ⟨written, hw, rfl⟩ := Act.map_eq_ok.mp h
      obtain ⟨rfl, hy⟩ := ht.yields_resultBytes htables hw
      rw [Bytes.overwrite_of_length (by rw [length_resultBytes hw, Bytes.length_zeros])]
      exact ⟨rfl, hy⟩

end

end ForeignCall
