import ForeignCall.Call.Run
import ForeignCall.Proofs.Built
import ForeignCall.Proofs.Call.Preparing
import ForeignCall.Proofs.Memory.CStrings
import ForeignCall.Proofs.Struct.Fresh
import Mathlib.Data.List.Forall2

/-!
# Arguments and their images

What an argument is converted to is read as the image of the argument in the world that all
conversions leave (`Ty.Built.conveys_toArgument`), also while the values of others are read. So a
closure that is entered with the bytes of all arguments is handed their images
(`Ty.ofNatives_images`).
-/

namespace ForeignCall

open Abi

/-! ## Numbers -/

/-- An integer of a kind is read from the low bytes of any wider one. -/
theorem IntKind.ofBits_ofInt (k : IntKind) {n : Nat} (hn : k.bytes ≤ n) {i : Int}
    (h : k.min ≤ i ∧ i ≤ k.max) :
    k.ofBits (Bytes.toNat (Bytes.fit k.bytes (Bytes.ofInt n i))) = i := by
  have hm : k.modulus = Bytes.limit k.bytes := k.width.modulus_eq
  have hpos := Bytes.limit_pos k.bytes
  rw [Bytes.fit_ofInt hn, Bytes.ofInt, Bytes.toNat_ofNat, Nat.mod_eq_of_lt, ← hm]
  · exact k.ofBits_toBits i h
  · have h1 := Int.emod_nonneg i (show (Bytes.limit k.bytes : Int) ≠ 0 by omega)
    have h2 := Int.emod_lt_of_pos i (show (0 : Int) < Bytes.limit k.bytes by omega)
    omega

/-- The integer that a value is converted to where a kind of them is expected. A symbol is resolved
where that is a C `int`. -/
def Value.Gives (tables : Option Enums) (k : IntKind) (value : Value) (i : Int) : Prop :=
  value.toInt k = .ok i ∨
    ∃ name, value = .symbol name ∧ k = .int32 ∧ value.toEnum none tables = .ok i

theorem Value.Gives.range {tables : Option Enums} {k : IntKind} {value : Value} {i : Int}
    (h : value.Gives tables k i) (htables : Enums.InRange tables) : k.min ≤ i ∧ i ≤ k.max := by
  rcases h with h | ⟨name, rfl, rfl, h⟩
  · exact (toInt_eq_ok h).2
  · exact toEnum_range (by simp) htables h

theorem Bytes.toNat_fit_ofNat (n x : Nat) :
    Bytes.toNat (Bytes.fit n (Bytes.ofNat n x)) = x % Bytes.limit n := by
  rw [Bytes.fit_of_length (Bytes.length_ofNat n x), Bytes.toNat_ofNat]

theorem toNat_addressBytes (a : Nat) :
    Bytes.toNat (Bytes.fit addressSize (addressBytes a)) = wrap a :=
  Bytes.toNat_fit_ofNat 8 a

/-- A double crosses unchanged. -/
theorem toDouble_float64 (bits : UInt64) : FloatKind.float64.toDouble
    (Bytes.toNat (Bytes.fit 8 (Bytes.ofNat 8 (FloatKind.float64.ofDouble bits)))) = bits := by
  rw [Bytes.toNat_fit_ofNat]
  show UInt64.ofNat (bits.toNat % Bytes.limit 8) = bits
  rw [Nat.mod_eq_of_lt (show bits.toNat < Bytes.limit 8 from bits.toNat_lt), UInt64.ofNat_toNat]

/-- A float is the double that has been rounded to it. -/
theorem toDouble_float32 (bits : UInt64) : FloatKind.float32.toDouble
    (Bytes.toNat (Bytes.fit 4 (Bytes.ofNat 4 (FloatKind.float32.ofDouble bits)))) =
      Binary.widen (Binary.narrow bits) := by
  rw [Bytes.toNat_fit_ofNat]
  show Binary.widen (UInt32.ofNat ((Binary.narrow bits).toNat % Bytes.limit 4)) = _
  rw [Nat.mod_eq_of_lt (show (Binary.narrow bits).toNat < Bytes.limit 4 from
    (Binary.narrow bits).toNat_lt), UInt32.ofNat_toNat]

/-! ## Reading what has been written -/

namespace Ty

theorem ofNative_int {k : IntKind} {n : Nat} (hn : k.bytes ≤ n) {i : Int}
    (h : k.min ≤ i ∧ i ≤ k.max) :
    (Ty.builtin (.int k)).ofNative (Bytes.ofInt n i) = pure (.int i) := by
  simp only [ofNative, k.ofBits_ofInt hn h]

theorem ofNative_float64 (bits : UInt64) : (Ty.builtin (.float .float64)).ofNative
    (Bytes.ofNat 8 (FloatKind.float64.ofDouble bits)) = pure (.float bits) := by
  simp only [ofNative, FloatKind.bytes, toDouble_float64]

theorem ofNative_float32 (bits : UInt64) : (Ty.builtin (.float .float32)).ofNative
    (Bytes.ofNat 4 (FloatKind.float32.ofDouble bits)) =
      pure (.float (Binary.widen (Binary.narrow bits))) := by
  simp only [ofNative, FloatKind.bytes, toDouble_float32]

theorem ofNative_bool {n : Nat} (hn : 4 ≤ n) (b : Bool) :
    (Ty.builtin .bool).ofNative (Bytes.ofInt n (if b then 1 else 0)) = pure (.bool b) := by
  simp only [ofNative, Bytes.fit_ofInt hn]
  cases b <;> rfl

theorem ofNative_enumeration {table : Enumeration} {n : Nat} (hn : 4 ≤ n) {i : Int}
    (h : IntKind.int32.min ≤ i ∧ i ≤ IntKind.int32.max) :
    (Ty.enumeration table).ofNative (Bytes.ofInt n i) =
      pure ((Value.ofEnum? (some table) i).getD (.int i)) := by
  have hi := IntKind.int32.ofBits_ofInt (show IntKind.int32.bytes ≤ n from hn) h
  simp only [ofNative, show IntKind.int32.ofBits (Bytes.toNat (Bytes.fit 4 (Bytes.ofInt n i))) = i
    from hi]

theorem ofNative_pointer (role : PointerRole) (a : Nat) :
    (Ty.builtin (.pointer role)).ofNative (addressBytes a) =
      pure (.pointer (.pointer (wrap a))) := by
  simp only [ofNative, toNat_addressBytes]

theorem ofNative_string (a : Nat) :
    (Ty.builtin .string).ofNative (addressBytes a) = Act.stringFrom (wrap a) := by
  simp only [ofNative, toNat_addressBytes]

theorem ofNative_callback (s : Signature) (a : Nat) :
    (Ty.callback s).ofNative (addressBytes a) = pure (.functionAt s (wrap a)) := by
  simp only [ofNative, toNat_addressBytes, Value.functionAt]

end Ty

section

variable {w w' w'' : World} {tables : Option Enums}

/-! ## One argument -/

/-- Bytes that are read as the image of a value of `w`, in every world that grows out of it and has
memory for what is copied. -/
def Ty.Conveys (tables : Option Enums) (w : World) (t : Ty) (value : Value)
    (bytes : List UInt8) : Prop :=
  ∀ w', w.Extends w' → w'.StringsPlaced → w'.HasRoom →
    (∀ layout, t = .struct layout → w.memory.heap.Affords layout.size) →
    ∃ x w₁, t.ofNative bytes w' = (.ok x, w₁) ∧ w'.Extends w₁ ∧ w₁.StringsPlaced ∧
      t.Image tables w w₁ value x

/-- A value that is read without looking at the world. -/
theorem Ty.Conveys.of_pure {t : Ty} {value x : Value} {bytes : List UInt8}
    (h : t.ofNative bytes = pure x) (hx : ∀ w', w.Extends w' → t.Image tables w w' value x) :
    t.Conveys tables w value bytes := by
  intro w' hw hp _ _
  exact ⟨x, w', by rw [h]; rfl, .refl w', hp, hx w' hw⟩

theorem Ty.toArgument_int {k : IntKind} {value : Value} {passed : Passed}
    (h : (Ty.builtin (.int k)).toArgument tables value w = (.ok passed, w')) :
    w' = w ∧ ∃ i, passed = .bytes (Bytes.ofInt k.bytes i) ∧ value.Gives tables k i := by
  have hint : (do let i ← Act.ofChecked (value.toInt k)
                  return Passed.bytes (Bytes.ofInt k.bytes i)) w =
      ((.ok passed : Outcome Passed), w') →
        w' = w ∧ ∃ i, passed = .bytes (Bytes.ofInt k.bytes i) ∧ value.Gives tables k i := by
    intro hb
    obtain ⟨i, w₁, hc, hr⟩ := Act.bind_eq_ok.mp hb
    obtain ⟨hi, rfl⟩ := Act.ofChecked_eq_ok.mp hc
    obtain ⟨rfl, rfl⟩ := Act.pure_eq_ok.mp hr
    exact ⟨rfl, i, rfl, Or.inl hi⟩
  cases value with
  | symbol name =>
    unfold toArgument at h
    dsimp only at h
    split at h
    next hk =>
      obtain ⟨i, w₁, hc, hr⟩ := Act.bind_eq_ok.mp h
      obtain ⟨hi, rfl⟩ := Act.ofChecked_eq_ok.mp hc
      obtain ⟨rfl, rfl⟩ := Act.pure_eq_ok.mp hr
      exact ⟨rfl, i, rfl, Or.inr ⟨name, rfl, hk, hi⟩⟩
    next => exact absurd h Act.refuse_ne_ok
  | _ => exact hint h

theorem Ty.Image.shown {table : Enumeration} {value : Value} {i : Int}
    (h : value.toEnum (some table) tables = .ok i) :
    (Ty.enumeration table).Image tables w w' value
      ((Value.ofEnum? (some table) i).getD (.int i)) := by
  unfold Value.ofEnum?
  cases hs : table.symbol? i with
  | some name =>
    rw [Option.bind_some, hs]
    exact .enumeration h hs
  | none =>
    rw [Option.bind_some, hs]
    exact .unmapped h hs

/-- The integer that a value is converted to is the image of the value. -/
theorem Value.Gives.image {k : IntKind} {value : Value} {i : Int} (h : value.Gives tables k i) :
    (Ty.builtin (.int k)).Image tables w w' value (.int i) := by
  rcases h with h | ⟨name, rfl, rfl, h⟩
  · obtain ⟨rfl, -⟩ := toInt_eq_ok h
    exact .int i
  · exact .symbol h

/-- A string that has been copied is read again, whatever is converted behind it. -/
theorem Ty.conveys_string {w₁ : World} {id a : Nat} (hw : w.Settled)
    (h : copyString id w = (.ok a, w₁)) (hw₁ : w₁.Prepared w') :
    (Ty.builtin .string).Conveys tables w' (.str id) (addressBytes a) := by
  obtain ⟨hprep, rfl, hz, hlt, hload⟩ := World.copyString_eq_ok h
  have hsame := (hprep.trans hw₁).stringBytes hw.toPlaced id
  intro w'' hext hp hroom _
  have hnext := Nat.le_trans hw₁.next hext.next
  have hpos := hw.next
  have hword : w''.memory.heap.next < wordLimit := by
    unfold World.HasRoom bufferAlign at hroom
    omega
  -- the copy lies above all strings, so no byte of it is made zero by pinning one
  have hkept : w''.memory.heap.load w.memory.heap.next ((w.stringBytes id).length + 1) =
      w.stringBytes id ++ [0] := by
    have hn := hw₁.next
    rw [hext.load (by omega), hprep.load_fresh hw₁ hw.strings (Nat.le_refl _) (by omega), hload]
  have hc := Heap.cString_of_load hz (by omega) hkept
  have hwrap : wrap w.memory.heap.next = w.memory.heap.next := Nat.mod_eq_of_lt (by omega)
  refine ⟨.str (w''.newString (w.stringBytes id)).1, (w''.newString (w.stringBytes id)).2, ?_,
    w''.extends_newString _, hp.newString _, .string hext.size_strings ?_ ?_⟩
  · rw [ofNative_string, hwrap, Act.stringFrom_of_ne_zero (Nat.ne_of_gt hpos), hc]
    rfl
  · exact (Array.getElem?_eq_some_iff.mp (w''.getElem?_strings_newString _)).1
  · rw [hsame]
    exact w''.stringBytes_newString _

/-- A struct that is passed by value is copied as it is when the code is entered. -/
theorem Ty.conveys_struct {layout : Layout} {s : Instance} {address : Nat} (hw : w.Settled)
    (hsize : s.size = layout.size) (hs : w.memory.check s.view 0 s.size .read = .ok address)
    (hw₁ : w.Prepared w') :
    (Ty.struct layout).Conveys tables w' (.struct s) (w'.memory.heap.load address s.size) := by
  -- the struct is still readable there
  have hread : w'.memory.readBytes s.view 0 s.size = .ok (w'.memory.heap.load address s.size) := by
    unfold Memory.readBytes
    rw [hw₁.check, hs]
    rfl
  intro w'' hext hp hroom hcap
  have hpos : 0 < w''.memory.heap.next :=
    Nat.lt_of_lt_of_le hw.next (Nat.le_trans hw₁.next hext.next)
  have hlen : (w'.memory.heap.load address s.size).length = layout.size := by
    rw [Heap.length_load, hsize]
  obtain ⟨start, id, retention, w₁, hof, hext', hp', hnew, hold, hb⟩ :=
    Instance.ofBytes_fresh (hroom.grants hpos (hext.affords (hcap layout rfl)))
      (w'.memory.heap.load address s.size)
  rw [Bytes.fit_of_length hlen] at hb
  exact ⟨_, w₁, Act.map_ok hof, hext', hp' hp,
    .struct hsize hread (Nat.le_trans hext.next hnew) hold hb⟩

/-- Code is passed by its address, and a closure is compiled for that. -/
theorem Ty.conveys_callback {s : Signature} {value : Value} {passed : Passed} {w₁ : World}
    (hw : w.Settled) (h : (Ty.callback s).toArgument tables value w = (.ok passed, w₁)) :
    w.Prepared w₁ ∧ ∀ w', w₁.Prepared w' →
      (Ty.callback s).Conveys tables w' value (passed.load w'.memory.heap) := by
  obtain ⟨a, ha, rfl⟩ := Act.map_eq_ok.mp h
  cases value with
  | nil =>
    obtain ⟨rfl, rfl⟩ := Act.pure_eq_ok.mp ha
    exact ⟨.refl _, fun w' _ => .of_pure (ofNative_callback s 0) fun _ _ => .nilFunction⟩
  | function f =>
    obtain ⟨rfl, rfl⟩ := Act.pure_eq_ok.mp ha
    exact ⟨.refl _, fun w' _ => .of_pure (ofNative_callback s _) fun _ _ => .function f⟩
  | pointer v =>
    obtain ⟨rfl, rfl⟩ := Act.pure_eq_ok.mp ha
    exact ⟨.refl _, fun w' _ => .of_pure (ofNative_callback s _) fun _ _ => .code v⟩
  | proc closure =>
    obtain ⟨id, w₂, hm, hview⟩ := Act.bind_eq_ok.mp ha
    obtain ⟨rfl, rfl⟩ := Act.view_eq_ok.mp hview
    obtain ⟨hprep, c, hc, hclosure, hs⟩ := World.makeCallback_eq_ok hw.tended hm
    -- the callback is still there when the closure that is called reads its address
    refine ⟨hprep, fun w' hw' => .of_pure (ofNative_callback s _) fun w'' hext => ?_⟩
    have hc' := hw'.callbacks id c hc
    rw [← hext.callbacks] at hc'
    rw [World.callbackAddress_eq hc, (hprep.tended hw.tended).wrap_code hc]
    exact .closure hc' hclosure hs
  | _ => exact absurd ha Act.refuse_ne_ok

/-- What an argument is passed from is read as its image when the others have been converted as
well. -/
theorem Ty.Built.conveys_toArgument {t : Ty} (ht : t.Built) (htables : Enums.InRange tables)
    (hw : w.Settled) {value : Value} {passed : Passed} {w₁ : World}
    (h : t.toArgument tables value w = (.ok passed, w₁)) :
    w.Prepared w₁ ∧ ∀ w', w₁.Prepared w' →
      t.Conveys tables w' value (passed.load w'.memory.heap) := by
  cases ht with
  | builtin b =>
    cases b with
    | int k =>
      obtain ⟨rfl, i, rfl, hi⟩ := toArgument_int h
      exact ⟨.refl _, fun w' _ =>
        .of_pure (ofNative_int (Nat.le_refl _) (hi.range htables)) fun w'' _ => hi.image⟩
    | float k =>
      obtain ⟨bits, w₂, hc, hr⟩ := Act.bind_eq_ok.mp h
      obtain ⟨hbits, rfl⟩ := Act.ofChecked_eq_ok.mp hc
      obtain ⟨rfl, rfl⟩ := Act.pure_eq_ok.mp hr
      refine ⟨.refl _, fun w' _ => ?_⟩
      cases k with
      | float32 => exact .of_pure (ofNative_float32 bits) fun _ _ => .float32 hbits
      | float64 => exact .of_pure (ofNative_float64 bits) fun _ _ => .float64 hbits
    | bool =>
      obtain ⟨b, w₂, hc, hr⟩ := Act.bind_eq_ok.mp h
      obtain ⟨hb, rfl⟩ := Act.ofChecked_eq_ok.mp hc
      obtain ⟨rfl, rfl⟩ := Act.pure_eq_ok.mp hr
      refine ⟨.refl _, fun w' _ => ?_⟩
      cases value with
      | bool b' =>
        obtain rfl := Except.ok.inj hb
        exact .of_pure (ofNative_bool (Nat.le_refl _) b') fun _ _ => .bool b'
      | _ => cases hb
    | pointer role =>
      obtain ⟨a, ha, rfl⟩ := Act.map_eq_ok.mp h
      obtain ⟨hprep, hwrap⟩ := World.pointerArgument_eq_ok ha
      refine ⟨hprep, fun w' hw' => .of_pure (ofNative_pointer role a) fun _ _ => ?_⟩
      rw [hwrap, ← (hprep.trans hw').addressOf]
      exact .pointer value
    | string =>
      obtain ⟨a, ha, rfl⟩ := Act.map_eq_ok.mp h
      cases value with
      | nil =>
        obtain ⟨rfl, rfl⟩ := Act.pure_eq_ok.mp ha
        exact ⟨.refl _, fun w' _ => .of_pure (ofNative_string 0) fun _ _ => .nilString⟩
      | str id =>
        exact ⟨(World.copyString_eq_ok ha).1, fun w' hw' => conveys_string hw ha hw'⟩
      | _ => exact absurd ha Act.refuse_ne_ok
    | void => exact absurd h Act.refuse_ne_ok
    | varargs => exact absurd h Act.refuse_ne_ok
  | array n _ => exact absurd h Act.refuse_ne_ok
  | charArray n => exact absurd h Act.refuse_ne_ok
  | @enumeration table hrange =>
    obtain ⟨i, w₂, hc, hr⟩ := Act.bind_eq_ok.mp h
    obtain ⟨hi, rfl⟩ := Act.ofChecked_eq_ok.mp hc
    obtain ⟨rfl, rfl⟩ := Act.pure_eq_ok.mp hr
    have hrange' := Value.toEnum_range (by simpa using hrange) htables hi
    exact ⟨.refl _, fun w' _ =>
      .of_pure (ofNative_enumeration (Nat.le_refl _) hrange') fun _ _ => .shown hi⟩
  | callback s => exact conveys_callback hw h
  | @struct _ layout _ _ =>
    obtain ⟨rfl, s, address, rfl, hsize, -, hs, rfl⟩ := World.structArgument_eq_ok h
    exact ⟨.refl _, fun w' hw' => conveys_struct hw hsize hs hw'⟩

/-! ## All arguments -/

theorem Act.atArgument_eq_ok {α : Type} {index : Nat} {x : Act α} {a : α} :
    x.atArgument index w = (.ok a, w') ↔ x w = (.ok a, w') := by
  unfold Act.atArgument
  rcases x w with ⟨e | b, w₁⟩
  · cases e <;> simp
  · exact Iff.rfl

/-- Every argument has been converted for its type, and is passed by the record of the type. -/
theorem forall₂_toArguments {arguments : List (Ty × Value)} {frame : Frame}
    (h : toArguments tables arguments w = (.ok frame, w')) :
    List.Forall₂ (fun p b => b.1 = p.1.record ∧
      ∃ w₁ w₂, p.1.toArgument tables p.2 w₁ = (.ok b.2, w₂)) arguments frame := by
  have hall := Act.forall₂_mapM h
  rw [← List.zipIdx_map_fst 0 arguments, List.forall₂_map_left_iff]
  refine hall.imp ?_
  rintro ⟨⟨t, value⟩, i⟩ b ⟨w₁, w₂, hb⟩
  obtain ⟨passed, w₃, hpassed, hb⟩ := Act.bind_eq_ok.mp hb
  obtain ⟨rfl, rfl⟩ := Act.pure_eq_ok.mp hb
  exact ⟨rfl, w₁, w₃, Act.atArgument_eq_ok.mp hpassed⟩

theorem records_toArguments {params : List Ty} {arguments : List Value}
    (hlen : arguments.length = params.length) {frame : Frame}
    (h : toArguments tables (params.zip arguments) w = (.ok frame, w')) :
    frame.map Prod.fst = params.map Ty.record := by
  have heq : List.Forall₂ Eq ((params.zip arguments).map fun p => p.1.record)
      (frame.map Prod.fst) :=
    List.forall₂_map_left_iff.mpr
      (List.forall₂_map_right_iff.mpr ((forall₂_toArguments h).imp fun p b hb => hb.1.symm))
  rw [List.forall₂_eq_eq_eq] at heq
  have hparams := congrArg (List.map Ty.record) (List.map_fst_zip (Nat.le_of_eq hlen.symm))
  rw [List.map_map] at hparams
  exact heq.symm.trans hparams

/-- Each argument is conveyed, from the world that the conversions leave, by the bytes that it is
passed from there. -/
theorem toArguments_conveys (htables : Enums.InRange tables) {arguments : List (Ty × Value)}
    (ht : ∀ p ∈ arguments, p.1.Built) (hw : w.Settled) {frame : Frame}
    (h : toArguments tables arguments w = (.ok frame, w')) :
    w.Prepared w' ∧ List.Forall₂ (fun p b => b.1 = p.1.record ∧
      p.1.Conveys tables w' p.2 (b.2.load w'.memory.heap)) arguments frame := by
  unfold toArguments at h
  generalize 0 = k at h
  induction arguments generalizing w k frame with
  | nil =>
    obtain ⟨rfl, rfl⟩ := Act.pure_eq_ok.mp h
    exact ⟨.refl _, .nil⟩
  | cons p rest ih =>
    obtain ⟨t, value⟩ := p
    rw [List.zipIdx_cons, List.mapM_cons] at h
    obtain ⟨a, w₁, ha, h⟩ := Act.bind_eq_ok.mp h
    obtain ⟨others, w₂, hrest, h⟩ := Act.bind_eq_ok.mp h
    obtain ⟨rfl, rfl⟩ := Act.pure_eq_ok.mp h
    obtain ⟨passed, w₃, hb, hr⟩ := Act.bind_eq_ok.mp ha
    obtain ⟨rfl, rfl⟩ := Act.pure_eq_ok.mp hr
    obtain ⟨hprep, hconveys⟩ := (ht _ List.mem_cons_self).conveys_toArgument htables hw
      (Act.atArgument_eq_ok.mp hb)
    obtain ⟨hprep', hall⟩ := ih (fun q hq => ht q (List.mem_cons_of_mem _ hq))
      (hw.prepared hprep) (k + 1) hrest
    exact ⟨hprep.trans hprep', .cons ⟨rfl, hconveys w₂ hprep'⟩ hall⟩

/-! ## Entering a closure -/

theorem Ty.rises_ofNative (t : Ty) (bytes : List UInt8) : (t.ofNative bytes).Rises := by
  cases t with
  | builtin b =>
    cases b with
    | string =>
      refine Act.Rises.bind (fun w => Nat.le_refl _) fun text => ?_
      cases text with
      | none => exact Act.rises_pure _
      | some text =>
        exact fun w => Nat.le_of_lt (Nat.lt_of_le_of_lt (Nat.le_add_right ..)
          (w.next_newString text))
    | _ => exact fun w => Nat.le_refl _
  | struct layout => exact (Instance.rises_ofBytes layout bytes).bind fun s => Act.rises_pure _
  | _ => exact fun w => Nat.le_refl _

/-- A closure that is entered with bytes that convey arguments is handed the images of them. -/
theorem Ty.ofNatives_images {arguments : List (Ty × Value)} {natives : List (List UInt8)}
    (h : List.Forall₂ (fun p bytes => p.1.Conveys tables w p.2 bytes) arguments natives)
    (hcap : ∀ p ∈ arguments, ∀ layout, p.1 = .struct layout → w.memory.heap.Affords layout.size)
    (hext : w.Extends w') (hp : w'.StringsPlaced)
    (hroom : (((arguments.map Prod.fst).zip natives).mapM
      (fun p => p.1.ofNative p.2) w').2.HasRoom) :
    ∃ images w₁, ((arguments.map Prod.fst).zip natives).mapM (fun p => p.1.ofNative p.2) w' =
        (.ok images, w₁) ∧ w'.Extends w₁ ∧ w₁.StringsPlaced ∧
      List.Forall₂ (fun p x => p.1.Image tables w w₁ p.2 x) arguments images := by
  induction h generalizing w' with
  | nil => exact ⟨[], w', rfl, .refl _, hp, .nil⟩
  | @cons p bytes rest natives hconveys hrest ih =>
    rw [List.map_cons, List.zip_cons_cons, List.mapM_cons] at hroom ⊢
    -- reading never gives addresses back: room at the end is room now
    have hnow : w'.HasRoom := by
      have hr := Act.Rises.bind (p.1.rises_ofNative bytes) (fun x =>
        (Act.rises_mapM (l := (rest.map Prod.fst).zip natives)
          fun q => Ty.rises_ofNative q.1 q.2).bind fun xs => Act.rises_pure (x :: xs)) w'
      exact Nat.lt_of_le_of_lt (Nat.add_le_add_right hr _) hroom
    obtain ⟨x, w₁, hx, hext₁, hp₁, himage⟩ := hconveys w' hext hp hnow
      (hcap p List.mem_cons_self)
    rw [Act.bind_ok hx, Act.snd_bind_pure] at hroom
    obtain ⟨xs, w₂, hxs, hext₂, hp₂, himages⟩ := ih
      (fun q hq => hcap q (List.mem_cons_of_mem _ hq)) (hext.trans hext₁) hp₁ hroom
    refine ⟨x :: xs, w₂, ?_, hext₁.trans hext₂, hp₂, .cons (himage.mono hext₂ hp₁) himages⟩
    rw [Act.bind_ok hx, Act.bind_ok hxs]
    rfl

end

end ForeignCall
