import ForeignCall.Call.Convert
import ForeignCall.Proofs.Abi.Handover
import ForeignCall.Proofs.Memory.Growth

/-!
# Images of values

What a closure is to see of an argument, and a caller of a result, when both sides are managed. Most
values cross unchanged. A string and a struct are copied, anything that stands for an address
becomes a view without known end, and a number is what its type makes of it.

`Ty.Image` relates a value of one world to its image in another, and `Ty.Returns` does so for what a
closure returns. An image stays one while the world grows (`Image.mono`).
-/

namespace ForeignCall

open Abi

/-! ## Addresses of values -/

/-- The address that an object has answered with. -/
def Value.answered : Value → Nat
  | .pointer v => v.address
  | .struct s => s.address
  | _ => 0

/-- The address that a value stands for; a string stands for its own bytes. -/
def World.addressOf (w : World) : Value → Nat
  | .int i => wordOfInt i
  | .str id => ((w.strings[id]?).map ManagedString.address).getD 0
  | .pointer v => v.address
  | .struct s => s.address
  | .function f => f.address
  | .object _ (.ok answer) => answer.answered
  | _ => 0

/-- A code address as a value of a function pointer type. -/
def Value.functionAt (signature : Signature) (address : Nat) : Value :=
  if address = 0 then .nil else .function (.atAddress address signature)

/-! ## Images -/

/-- The value of the second world that a value of the first one becomes, passed as a type. -/
inductive Ty.Image (tables : Option Enums) (w w' : World) : Ty → Value → Value → Prop where
  | int {k : IntKind} (i : Int) : Image tables w w' (.builtin (.int k)) (.int i) (.int i)
  /-- Where a C `int` is expected, a symbol is the integer that it resolves to. -/
  | symbol {name : String} {i : Int} (h : (Value.symbol name).toEnum none tables = .ok i) :
      Image tables w w' .int32 (.symbol name) (.int i)
  | float64 {value : Value} {bits : UInt64} (h : value.toFloat = .ok bits) :
      Image tables w w' (.builtin (.float .float64)) value (.float bits)
  /-- Rounded to single precision, and promoted again. -/
  | float32 {value : Value} {bits : UInt64} (h : value.toFloat = .ok bits) :
      Image tables w w' (.builtin (.float .float32)) value
        (.float (Binary.widen (Binary.narrow bits)))
  | bool (b : Bool) : Image tables w w' (.builtin .bool) (.bool b) (.bool b)
  /-- The first symbol of the integer in the table of the type. -/
  | enumeration {table : Enumeration} {value : Value} {i : Int} {name : String}
      (h : value.toEnum (some table) tables = .ok i) (hs : table.symbol? i = some name) :
      Image tables w w' (.enumeration table) value (.symbol name)
  | unmapped {table : Enumeration} {value : Value} {i : Int}
      (h : value.toEnum (some table) tables = .ok i) (hs : table.symbol? i = none) :
      Image tables w w' (.enumeration table) value (.int i)
  | pointer {role : PointerRole} (value : Value) :
      Image tables w w' (.builtin (.pointer role)) value
        (.pointer (.pointer (wrap (w.addressOf value))))
  | nilString : Image tables w w' (.builtin .string) .nil .nil
  /-- A new string with the same bytes. -/
  | string {id id' : Nat} (hnew : w.strings.size ≤ id') (hid : id' < w'.strings.size)
      (hb : w'.stringBytes id' = w.stringBytes id) :
      Image tables w w' (.builtin .string) (.str id) (.str id')
  /-- A struct in fresh owned memory with the same bytes. -/
  | struct {layout : Layout} {s : Instance} {bytes : List UInt8} {address id retention : Nat}
      (hsize : s.size = layout.size) (hs : w.memory.readBytes s.view 0 s.size = .ok bytes)
      (hnew : w.memory.heap.next ≤ address)
      (hold : address + layout.size ≤ w'.memory.heap.next)
      (hb : w'.memory.readBytes (.ofParts address layout.size 1 (some (.owner id))) 0 layout.size =
        .ok bytes) :
      Image tables w w' (.struct layout) (.struct s)
        (.struct ⟨layout, .ofParts address layout.size 1 (some (.owner id)), retention⟩)
  | nilFunction {s : Signature} : Image tables w w' (.callback s) .nil .nil
  | function {s : Signature} (f : Function) :
      Image tables w w' (.callback s) (.function f) (.functionAt s (wrap f.address))
  | code {s : Signature} (v : View) :
      Image tables w w' (.callback s) (.pointer v) (.functionAt s (wrap v.address))
  /-- A function at the code address of a callback that the closure is compiled to. -/
  | closure {s : Signature} {closure id : Nat} {c : Callback} (hc : w'.callbacks[id]? = some c)
      (hclosure : c.closure = closure) (hs : c.signature.id = s.id) :
      Image tables w w' (.callback s) (.proc closure) (.functionAt s c.code)

/-- The value of the second world that a call returns, when the closure has returned a value in the
first one. -/
inductive Ty.Returns (tables : Option Enums) (w w' : World) : Ty → Value → Value → Prop where
  | void (value : Value) : Returns tables w w' (.builtin .void) value .nil
  | image {t : Ty} {value x : Value} (h : t.Image tables w w' value x) :
      Returns tables w w' t value x
  /-- What is not there is null. -/
  | null {value : Value} (h : wrap (w.addressOf value) = 0) :
      Returns tables w w' (.builtin .string) value .nil
  /-- A copy of the C string at an address. -/
  | text {value : Value} {id' : Nat} (h : wrap (w.addressOf value) ≠ 0)
      (hnew : w.strings.size ≤ id') (hid : id' < w'.strings.size)
      (hb : w'.stringBytes id' = w.memory.heap.cString (wrap (w.addressOf value))) :
      Returns tables w w' (.builtin .string) value (.str id')
  /-- In place of anything else, nil is zero. -/
  | zeroInt (k : IntKind) : Returns tables w w' (.builtin (.int k)) .nil (.int 0)
  | zeroFloat (k : FloatKind) : Returns tables w w' (.builtin (.float k)) .nil (.float 0)
  | zeroBool : Returns tables w w' (.builtin .bool) .nil (.bool false)
  | zeroEnumeration {table : Enumeration} {name : String} (hs : table.symbol? 0 = some name) :
      Returns tables w w' (.enumeration table) .nil (.symbol name)
  | zeroUnmapped {table : Enumeration} (hs : table.symbol? 0 = none) :
      Returns tables w w' (.enumeration table) .nil (.int 0)
  | zeroStruct {layout : Layout} {address id retention : Nat}
      (hnew : w.memory.heap.next ≤ address)
      (hb : w'.memory.readBytes (.ofParts address layout.size 1 (some (.owner id))) 0 layout.size =
        .ok (Bytes.zeros layout.size)) :
      Returns tables w w' (.struct layout) .nil
        (.struct ⟨layout, .ofParts address layout.size 1 (some (.owner id)), retention⟩)

section

variable {tables : Option Enums} {w w' w'' : World} {t : Ty} {value x : Value}

theorem Ty.Image.eq_int {k : IntKind} {i : Int}
    (h : (Ty.builtin (.int k)).Image tables w w' (.int i) x) : x = .int i := by
  cases h
  rfl

/-- What has been read of old memory is read again when more has been handed out. -/
theorem World.Extends.readBytes (h : w.Extends w') {v : View} {n : Nat} {bytes : List UInt8}
    (ha : v.address + n ≤ w.memory.heap.next) (hb : w.memory.readBytes v 0 n = .ok bytes) :
    w'.memory.readBytes v 0 n = .ok bytes := by
  obtain ⟨hadmits, rfl⟩ := Memory.readBytes_eq_ok hb
  have hadmits' : w'.memory.Admits v 0 n .read := by
    refine ⟨hadmits.address, ?_, hadmits.mode, hadmits.word, hadmits.inside⟩
    have hlive := hadmits.live
    simp only [h.live]
    exact hlive
  have hw : wrap (v.address + 0) ≤ v.address := Nat.mod_le _ _
  rw [hadmits'.readBytes, h.load (by omega)]

theorem World.Extends.size_strings (h : w.Extends w') : w.strings.size ≤ w'.strings.size := by
  by_cases hz : w.strings.size = 0
  · omega
  · have hlt : w.strings.size - 1 < w.strings.size := by omega
    have hs := h.strings _ _ (Array.getElem?_eq_getElem hlt)
    have := (Array.getElem?_eq_some_iff.mp hs).1
    omega

/-- An image stays one while the world grows. -/
theorem Ty.Image.mono (h : t.Image tables w w' value x) (hw : w'.Extends w'')
    (hp : w'.StringsPlaced) : t.Image tables w w'' value x := by
  cases h with
  | int i => exact .int i
  | symbol h => exact .symbol h
  | float64 h => exact .float64 h
  | float32 h => exact .float32 h
  | bool b => exact .bool b
  | enumeration h hs => exact .enumeration h hs
  | unmapped h hs => exact .unmapped h hs
  | pointer value => exact .pointer value
  | nilString => exact .nilString
  | string hnew hid hb =>
    refine .string hnew (Nat.lt_of_lt_of_le hid hw.size_strings) ?_
    rw [hw.stringBytes hp (Array.getElem?_eq_getElem hid), hb]
  | struct hsize hs hnew hold hb =>
    exact .struct hsize hs hnew (Nat.le_trans hold hw.next) (hw.readBytes hold hb)
  | nilFunction => exact .nilFunction
  | function f => exact .function f
  | code v => exact .code v
  | closure hc hclosure hs =>
    rw [← hw.callbacks] at hc
    exact .closure hc hclosure hs

end

/-! ## Bytes that have been handed over -/

namespace Ty

variable {t : Ty}

/-- A value is read from as many bytes as its type has. -/
theorem ofNative_congr {bytes bytes' : List UInt8}
    (h : Bytes.fit t.size bytes = Bytes.fit t.size bytes') :
    t.ofNative bytes = t.ofNative bytes' := by
  cases t with
  | builtin b =>
    cases b with
    | void => rfl
    | varargs => rfl
    | _ =>
      simp only [size, Builtin.size] at h
      simp only [ofNative, h]
  | struct layout =>
    simp only [size] at h
    simp only [ofNative, Instance.ofBytes, h]
  | array c n => rfl
  | charArray n => rfl
  | enumeration table =>
    simp only [size] at h
    simp only [ofNative, h]
  | callback s =>
    simp only [size] at h
    simp only [ofNative, h]

/-- The calling convention takes every type but a struct for as large as it is. -/
theorem size_eq_record (hs : ∀ layout, t ≠ .struct layout) (hr : t.checkResult = .ok ()) :
    t.record.size = t.size := by
  cases t with
  | builtin b =>
    cases b with
    | varargs => cases hr
    | _ => rfl
  | struct layout => exact absurd rfl (hs layout)
  | array c n => cases hr
  | charArray n => cases hr
  | enumeration table => rfl
  | callback s => rfl

/-- A calling convention that takes a type for at least as large as it is hands its values over
whole. -/
theorem ofNative_fit (h : t.size ≤ t.record.size) (bytes : List UInt8) :
    t.ofNative (Bytes.fit t.record.size bytes) = t.ofNative bytes :=
  ofNative_congr (Bytes.fit_fit h bytes)

theorem ofNative_returned (h : t.size ≤ t.record.size) (bytes : List UInt8) :
    t.ofNative ((Returned.ofBytes t.record bytes).toBytes t.record) = t.ofNative bytes := by
  rw [Returned.toBytes_ofBytes]
  split
  · rfl
  · exact ofNative_fit h bytes

end Ty

end ForeignCall
