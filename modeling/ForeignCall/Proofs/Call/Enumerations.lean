import ForeignCall.Proofs.Call.Loopback
import ForeignCall.Proofs.Memory.Numbers
import ForeignCall.Proofs.Struct.RoundTrip
import ForeignCall.Proofs.Struct.Slots

/-!
# Symbols that are read back

A slot of an enumeration resolves a symbol with its own table, and if that does not have it with the
earliest of the tables at hand that does (`Value.toEnum_symbol_eq_ok`). Whatever symbol has been
stored, the first one of its value is read back: from the field of a struct and the element of an
array in either byte order (`Enumeration.Keeps`), and across a call by the closure that is run and
by the caller (`Enumeration.Crosses`).

An array that is put as a whole is the exception: its elements are written in the host's order, and
read in the order of the view.

Main statement: `Enumeration.reads_back`.
-/

namespace ForeignCall

open Abi

/-! ## Resolving a symbol -/

namespace Value

variable {e : Enumeration} {tables : Option Enums} {symbol : String} {v : Int}

/-- A symbol that the slot's own table has is resolved by this table, whatever the others say. -/
theorem toEnum_of_find? (h : e.find? symbol = some v) :
    (Value.symbol symbol).toEnum (some e) tables = .ok v := by
  simp [toEnum, h]

/-- A symbol has its value in the table of the slot, or else in the earliest table that has it. -/
theorem toEnum_symbol_eq_ok : (Value.symbol symbol).toEnum (some e) tables = .ok v ↔
    e.find? symbol = some v ∨ e.find? symbol = none ∧ ∃ before t after,
      tables = some (before ++ t :: after) ∧ t.find? symbol = some v ∧
        ∀ u ∈ before, u.find? symbol = none := by
  cases hown : e.find? symbol with
  | some i => simp [toEnum_of_find? hown]
  | none =>
    cases tables with
    | none => simp [toEnum, hown]
    | some all =>
      have hall : all.findValue? symbol = some v ↔ _ := Enums.findValue?_eq_some_iff
      rw [toEnum]
      cases hfound : all.findValue? symbol with
      | none => simpa [hown, hfound] using hall
      | some i => simpa [hown, hfound] using hall

/-- A symbol that no table has is refused. -/
theorem toEnum_symbol_eq_error {f : Fault} :
    (Value.symbol symbol).toEnum (some e) tables = .error f ↔
      e.find? symbol = none ∧ (∀ all ∈ tables, ∀ t ∈ all, t.find? symbol = none) ∧
        f = .type "known enum symbol" s!":{symbol}" := by
  cases hown : e.find? symbol with
  | some i => simp [toEnum_of_find? hown]
  | none =>
    cases tables with
    | none => simp [toEnum, hown, eq_comm]
    | some all =>
      have hall : all.findValue? symbol = none ↔ _ := Enums.findValue?_eq_none_iff
      rw [toEnum]
      cases hfound : all.findValue? symbol with
      | none =>
        have hnone := hall.mp hfound
        simpa [hown, hfound, eq_comm] using fun _ => hnone
      | some i =>
        have hsome : ¬∀ t ∈ all, t.find? symbol = none := by
          rw [← hall, hfound]
          exact Option.some_ne_none i
        simpa [hown, hfound] using fun h => absurd h hsome

end Value

/-- A value that its table has is shown as its first symbol. -/
theorem Value.ofEnum?_of_symbol? {e : Enumeration} {v : Int} {first : String}
    (h : e.symbol? v = some first) : Value.ofEnum? (some e) v = some (.symbol first) := by
  rw [ofEnum?, Option.bind_some, h]
  rfl

/-! ## Fields and elements -/

/-- An integer that has been written through a view is read back through it. -/
theorem Memory.readInt_writeInt {m m' : Memory} {view : View} {offset : Nat} {k : IntKind} {i : Int}
    (h : m.writeInt view offset k i = .ok m') (hi : k.min ≤ i ∧ i ≤ k.max)
    (hr : view.access.allows .read = true) : m'.readInt view offset k = .ok i := by
  obtain ⟨ha, hm⟩ := Memory.writeBits_eq_ok.mp h
  have hadmits : m'.Admits view offset k.bytes .read := by
    subst hm
    exact ⟨ha.address, ha.live, hr, ha.word, ha.inside⟩
  have hread := Memory.readBits_writeBits h (k.toBits_lt_limit i) rfl hadmits
  rw [if_pos rfl] at hread
  unfold readInt
  rw [hread]
  exact congrArg Except.ok (k.ofBits_toBits i hi)

/-- A symbol that is put through a view reads back as the first symbol of its value. -/
theorem Ty.getField_enumeration {e : Enumeration} {symbol first : String} {v : Int}
    (he : e.InRange) (hv : e.find? symbol = some v) (hfirst : e.symbol? v = some first)
    {view : View} (hr : view.access.allows .read = true) {retention offset : Nat} {w w' : World}
    (h : (Ty.enumeration e).putField view retention offset (.symbol symbol) w = (.ok (), w'))
    (name : String) :
    (Ty.enumeration e).getField view retention name offset w' = (.ok (.symbol first), w') := by
  obtain ⟨i, w₁, hresolve, hwrite⟩ := Act.bind_eq_ok.mp h
  obtain ⟨hi, rfl⟩ := Act.ofChecked_eq_ok.mp hresolve
  obtain rfl : v = i := Except.ok.inj ((Value.toEnum_of_find? hv).symm.trans hi)
  obtain ⟨m, hm, rfl⟩ := Act.write_eq_ok.mp hwrite
  have hread := Memory.readInt_writeInt hm (he.find? hv) hr
  refine Act.bind_eq_ok.mpr ⟨v, _, Act.read_eq_ok.mpr ⟨hread, rfl⟩, ?_⟩
  rw [Value.ofEnum?_of_symbol? hfirst]
  rfl

/-! ## Items of arrays -/

/-- The item of a value that indices lead to, through arrays inside arrays. -/
def Value.item? : List Nat → Value → Option Value
  | [], value => some value
  | i :: path, .array items => items[i]?.bind (Value.item? path)
  | _ :: _, _ => none

/-- The type of the items that indices lead to. -/
def Ty.item? : List Nat → Ty → Option Ty
  | [], t => some t
  | i :: path, .array c n => if i < n then c.item? path else none
  | _ :: _, _ => none

/-- What the item that indices lead to shows. -/
def Content.item? : List Nat → Content → Option Content
  | [], c => some c
  | i :: path, .array items => items[i]?.bind (Content.item? path)
  | _ :: _, _ => none

/-- An item of an array shows what has been stored for it, its scalars written in the host's order
if it is not the whole value. -/
theorem Ty.item?_stored {t u : Ty} {path : List Nat} {value x : Value} (ht : t.item? path = some u)
    (hx : value.item? path = some x) (shown written : Bool) (w : World) (h : Heap) (a : Nat) :
    ∃ a', (t.stored shown written w h a value).item? path =
      some (u.stored shown (if path = [] then written else false) w h a' x) := by
  induction path generalizing t value written a with
  | nil =>
    obtain rfl := Option.some.inj ht
    obtain rfl := Option.some.inj hx
    exact ⟨a, rfl⟩
  | cons i path ih =>
    cases t with
    | array c n =>
      cases value with
      | array items =>
        obtain ⟨hi, hc⟩ := Option.ite_none_right_eq_some.mp ht
        obtain ⟨y, hy, hpath⟩ := Option.bind_eq_some_iff.mp hx
        obtain ⟨a', hitem⟩ := ih hc hpath false (a + i * c.size)
        refine ⟨a', ?_⟩
        rw [ite_self] at hitem
        rw [if_neg (List.cons_ne_nil i path), stored, Content.item?, List.getElem?_map,
          List.getElem?_range hi, Option.map_some, Option.bind_some, hy]
        exact hitem
      | _ => cases hx
    | _ => cases ht

/-- What is shown is shown item by item. -/
theorem Value.Shows.item? {w : World} {x : Value} {c d : Content} (h : x.Shows w c)
    {path : List Nat} (hd : c.item? path = some d) :
    ∃ y, x.item? path = some y ∧ y.Shows w d := by
  induction path generalizing x c with
  | nil =>
    obtain rfl := Option.some.inj hd
    exact ⟨x, rfl, h⟩
  | cons i path ih =>
    cases h with
    | @array items contents hl hitems =>
      obtain ⟨c', hc', hd⟩ := Option.bind_eq_some_iff.mp hd
      have hi : i < items.length := hl ▸ (List.getElem?_eq_some_iff.mp hc').1
      obtain ⟨y, hy, hshows⟩ := ih (hitems i _ c' (List.getElem?_eq_getElem hi) hc') hd
      refine ⟨y, ?_, hshows⟩
      rw [Value.item?, List.getElem?_eq_getElem hi, Option.bind_some, hy]
    | _ => cases hd

theorem Value.Shows.eq_symbol_iff {w : World} {x : Value} {c : Content} (h : x.Shows w c)
    {symbol : String} : x = .symbol symbol ↔ c = .symbol symbol := by
  cases h with
  | symbol name => simp
  | struct hb hp => simp [content_struct]
  | _ => simp

/-- A value that has been read has a symbol where the content has it. -/
theorem World.Answers.item?_eq_symbol {w w' : World} {c d : Content} {x : Value}
    (h : w.Answers c (.ok x, w')) {path : List Nat} (hd : c.item? path = some d) {symbol : String} :
    x.item? path = some (.symbol symbol) ↔ d = .symbol symbol := by
  obtain ⟨-, hshows, -⟩ := h
  obtain ⟨y, hy, hitem⟩ := hshows.item? hd
  rw [hy, Option.some.injEq]
  exact hitem.eq_symbol_iff

/-- An element of an array field answers with what its bytes show. -/
theorem Instance.answers_element {s : Instance} {f : Field} {w : World} {a : InlineArray} {i : Nat}
    (hb : Ty.Built (.struct s.layout)) (hf : s.layout.field? f.name = some f)
    (hplain : f.ty.isPlain = true) (hs : w.Covers s.view 0 s.size .read) (hp : w.StringsPlaced)
    (ha : InlineArray.ofField s f.name w = (.ok a, w)) {c : Ty} {n : Nat}
    (hty : f.ty = .array c n) (hi : i < n) :
    ∃ d, (f.ty.content s.view.swapped w.memory.heap (s.address + f.offset)).item? [i] = some d ∧
      w.Answers d (a.get i w) := by
  have hmem : f ∈ s.layout.fields := List.mem_of_find?_eq_some hf
  have hbuilt := Instance.built_field hb hmem
  have hcovers := Instance.covers_field hb hmem hs
  have hparts : a = ⟨s.view, f.offset, c, n, false, s.retention⟩ := by
    unfold InlineArray.ofField at ha
    rw [Instance.field_eq hf, pure_bind, hty] at ha
    exact (Act.pure_eq_ok.mp ha).1.symm
  subst hparts
  rw [hty] at hbuilt hcovers hplain ⊢
  obtain ⟨ho, helement⟩ := hcovers.element hi
  refine ⟨c.content s.view.swapped w.memory.heap (s.view.address + (i * c.size + f.offset)), ?_, ?_⟩
  · rw [Ty.content, Content.item?, List.getElem?_map, List.getElem?_range hi,
      Nat.add_comm (i * c.size), ← Nat.add_assoc]
    rfl
  · have hget : InlineArray.get ⟨s.view, f.offset, c, n, false, s.retention⟩ i w = _ :=
      Act.bind_ok (Act.ofChecked_eq_ok.mpr ⟨ho, rfl⟩)
    rw [hget]
    cases hbuilt with
    | array n hc => exact hc.answers_getField hplain _ _ _ helement hp

namespace Enumeration

variable {e : Enumeration} {symbol first : String} {v : Int}

theorem shown_eq_symbol : e.shown v = .symbol symbol ↔ e.symbol? v = some symbol := by
  unfold shown
  cases e.symbol? v <;> simp

/-- What the place of a symbol shows after it has been written in one order and is read in
another. -/
theorem stored_symbol (he : e.InRange) (hv : e.find? symbol = some v) (shown written : Bool)
    (w : World) (h : Heap) (a : Nat) :
    (Ty.enumeration e).stored shown written w h a (.symbol symbol) =
      e.shown (if shown = written then v else IntKind.int32.mirror v) := by
  rw [Ty.stored, Value.toEnum_of_find? hv]
  exact congrArg e.shown (IntKind.ofBits_decodeIn .int32 (he.find? hv) shown written)

/-- Whether it makes no difference to the symbol at the end of a path that items of an array are
written in the host's order. -/
def Survives (e : Enumeration) (first : String) (v : Int) (view : View) (path : List Nat) : Prop :=
  path = [] ∨ view.swapped = false ∨ e.symbol? (IntKind.int32.mirror v) = some first

theorem shown_eq_first_iff (hfirst : e.symbol? v = some first) (view : View) (path : List Nat) :
    e.shown (if view.swapped = (if path = [] then view.swapped else false) then v
      else IntKind.int32.mirror v) = .symbol first ↔ e.Survives first v view path := by
  rw [shown_eq_symbol, Survives]
  by_cases hpath : path = []
  · simp [hpath, hfirst]
  · cases view.swapped <;> simp [hpath, hfirst]

/--
Fields and elements read a symbol back as the first one of its value. A field that has been given
the symbol does, and so does an element of an array, in either byte order.

Where the symbol is put with an array, at the end of a path of indices, the first symbol is read
back with the array exactly when it survives. The field answers with what is shown, and each of its
elements with its item.
-/
structure Keeps (e : Enumeration) (symbol first : String) : Prop where
  field : ∀ (s : Instance) (f : Field) (w w' : World), s.layout.field? f.name = some f →
    f.ty = .enumeration e → s.view.access.allows .read = true →
    s.put f.name (.symbol symbol) w = (.ok (), w') →
    s.get f.name w' = (.ok (.symbol first), w')
  element : ∀ (a : InlineArray) (i : Nat) (w w' : World), a.component = .enumeration e →
    a.view.access.allows .read = true → a.put i (.symbol symbol) w = (.ok (), w') →
    a.get i w' = (.ok (.symbol first), w')
  whole : ∀ (s : Instance) (f : Field) (value : Value) (path : List Nat) (v : Int) (w w' : World),
    Ty.Built (.struct s.layout) → s.layout.field? f.name = some f → f.ty.isPlain = true →
    w.Covers s.view 0 s.size .read → w.StringsPlaced →
    (∀ src ∈ value.structs, src.address + src.size ≤ w.memory.heap.next) →
    f.ty.item? path = some (.enumeration e) → value.item? path = some (.symbol symbol) →
    e.find? symbol = some v → s.put f.name value w = (.ok (), w') →
    w'.memory.heap.next ≤ wordLimit →
    ∃ shown, w'.Answers shown (s.get f.name w') ∧
      (shown.item? path = some (.symbol first) ↔ e.Survives first v s.view path) ∧
      (∀ x w'', s.get f.name w' = (.ok x, w'') →
        (x.item? path = some (.symbol first) ↔ e.Survives first v s.view path)) ∧
      ∀ (a : InlineArray) (c : Ty) (n i : Nat), f.ty = .array c n → i < n →
        InlineArray.ofField s f.name w' = (.ok a, w') →
        ∃ d, shown.item? [i] = some d ∧ w'.Answers d (a.get i w')

theorem keeps (he : e.InRange) (hv : e.find? symbol = some v) (hfirst : e.symbol? v = some first) :
    e.Keeps symbol first where
  field := by
    intro s f w w' hf hty hr hput
    unfold Instance.put at hput
    unfold Instance.get Instance.getField
    rw [Instance.field_eq hf, pure_bind, hty] at hput ⊢
    exact Ty.getField_enumeration he hv hfirst hr hput f.name
  element := by
    intro a i w w' hty hr hput
    obtain ⟨o, w₁, ho, hput⟩ := Act.bind_eq_ok.mp hput
    obtain ⟨hoff, rfl⟩ := Act.ofChecked_eq_ok.mp ho
    rw [hty] at hput hoff
    refine Act.bind_eq_ok.mpr ⟨o, w', Act.ofChecked_eq_ok.mpr ⟨by rw [hty]; exact hoff, rfl⟩, ?_⟩
    rw [hty]
    exact Ty.getField_enumeration he hv hfirst hr hput _
  whole := by
    intro s f value path i w w' hb hf hplain hs hp hsrc ht hx hi hput hn
    obtain rfl : i = v := Option.some.inj (hi.symm.trans hv)
    obtain ⟨hs', hp', hstored⟩ := Instance.content_put hb hf hplain hs hp hsrc hput hn
    have hget := Instance.answers_get hb hf hplain hs' hp'
    obtain ⟨a', hitem⟩ := Ty.item?_stored ht hx s.view.swapped s.view.swapped w w.memory.heap
      (s.address + f.offset)
    rw [stored_symbol he hv, ← hstored] at hitem
    have hsurvives := shown_eq_first_iff hfirst s.view path
    refine ⟨_, hget, ?_, fun x w'' hx => ?_,
      fun a c n j hty hj ha => Instance.answers_element hb hf hplain hs' hp' ha hty hj⟩
    · rw [hitem, Option.some.injEq]
      exact hsurvives
    · rw [hx] at hget
      exact (hget.item?_eq_symbol hitem).trans hsurvives

end Enumeration

/-! ## Calls of closures -/

/-- A call of a function whose code is that of a closure, up to where the closure is run: its
arguments have been converted, and read again as `images`. -/
structure Function.Enters (f : Function) (closure : Nat) (arguments images : List Value)
    (w inside : World) : Prop where
  length : arguments.length = f.signature.params.length
  /-- The calling convention hands the result over whole. -/
  whole : f.signature.ret.size ≤ f.signature.ret.record.size
  images : ∃ frame w', w'.Bound f.address ⟨f.signature, closure⟩ ∧
    toArguments f.signature.enums (f.signature.params.zip arguments) w = (.ok frame, w') ∧
    f.signature.ofNatives (frame.arriving w'.memory.heap) w' = (.ok images, inside)

/-- What a call answers with when the closure has ended. -/
def Signature.finish (g : Signature) (r : Outcome Value × Machine) :
    Option (Outcome Value × World) :=
  match r.1 with
  | .error e => some (g.conclude (.error e) r.2.world)
  | .ok value =>
    let written := g.ret.toResult g.enums value (Bytes.zeros g.ret.resultSize) r.2.world
    some (g.conclude written.1 written.2)

namespace Function.Enters

variable {f : Function} {closure : Nat} {arguments images : List Value} {w inside : World}

/-- Such a call runs the closure on the images of its arguments. -/
theorem callFunction_eq (h : f.Enters closure arguments images w inside) (env : Environment)
    (fuel : Nat) (thread : Thread) (parked : List Parked) :
    ((env.enterWithin (fuel + 1)).callFunction (.function f arguments none none)
        ⟨w, thread, parked⟩).map
        (fun r => (r.1, r.2.world)) =
      (runClosure env (env.enterWithin fuel).callFunction closure images
        (Machine.entered ⟨inside, thread, parked⟩ f.signature.blocking none)).bind
          f.signature.finish := by
  obtain ⟨frame, w', hb, ha, hi⟩ := h.images
  exact env.call_bound hb h.whole h.length ha hi fuel thread parked

/-- An argument is converted to what is passed for it, and the closure gets a value of the bytes. -/
theorem exists_image (h : f.Enters closure arguments images w inside) {i : Nat} {t : Ty}
    {value : Value} (ht : f.signature.params[i]? = some t) (hv : arguments[i]? = some value) :
    ∃ x passed heap w₁ w₂ w₃ w₄, images[i]? = some x ∧
      t.toArgument f.signature.enums value w₁ = (.ok passed, w₂) ∧
      t.ofNative (Bytes.fit t.record.size (passed.load heap)) w₃ = (.ok x, w₄) := by
  obtain ⟨frame, w', -, ha, hi⟩ := h.images
  have hargument : (f.signature.params.zip arguments)[i]? = some (t, value) :=
    List.getElem?_zip_eq_some.mpr ⟨ht, hv⟩
  obtain ⟨⟨record, passed⟩, hframe, rfl, w₁, w₂, hpassed⟩ :=
    exists_of_forall₂ (forall₂_toArguments ha) hargument
  let bytes := Bytes.fit t.record.size (passed.load w'.memory.heap)
  have hnative : (frame.arriving w'.memory.heap)[i]? = some bytes := by
    rw [Frame.arriving, handedOver, Frame.load, List.getElem?_map, List.getElem?_map, hframe]
    rfl
  have hparameter : (f.signature.params.zip (frame.arriving w'.memory.heap))[i]? =
      some (t, bytes) := List.getElem?_zip_eq_some.mpr ⟨ht, hnative⟩
  obtain ⟨x, hx, w₃, w₄, hof⟩ := exists_of_forall₂ (Act.forall₂_mapM hi) hparameter
  exact ⟨x, passed, _, w₁, w₂, w₃, w₄, hx, hpassed, hof⟩

end Function.Enters

namespace Enumeration

variable {e : Enumeration} {tables : Option Enums} {symbol : String} {v : Int}

/--
Calls with the tables of a signature carry a symbol across as a value. The closure that is called
with the symbol for a parameter of the enumeration is run on the value, and when it answers with the
symbol for a result of the enumeration the call answers with the value.
-/
structure Crosses (e : Enumeration) (tables : Option Enums) (symbol : String) (x : Value) :
    Prop where
  argument : ∀ (f : Function) (closure : Nat) (arguments images : List Value) (w inside : World)
    (i : Nat), f.Enters closure arguments images w inside → f.signature.enums = tables →
    f.signature.params[i]? = some (.enumeration e) → arguments[i]? = some (.symbol symbol) →
    images[i]? = some x ∧
    ∀ (env : Environment) (fuel : Nat) (thread : Thread) (parked : List Parked),
      ((env.enterWithin (fuel + 1)).callFunction (.function f arguments none none)
        ⟨w, thread, parked⟩).map
          (fun r => (r.1, r.2.world)) =
        (runClosure env (env.enterWithin fuel).callFunction closure images
          (Machine.entered ⟨inside, thread, parked⟩ f.signature.blocking none)).bind
            f.signature.finish
  result : ∀ (f : Function) (closure : Nat) (arguments images : List Value) (w inside : World)
    (env : Environment) (fuel : Nat) (thread : Thread) (parked : List Parked) (m : Machine),
    f.Enters closure arguments images w inside → f.signature.enums = tables →
    f.signature.ret = .enumeration e →
    runClosure env (env.enterWithin fuel).callFunction closure images
      (Machine.entered ⟨inside, thread, parked⟩ f.signature.blocking none) =
        some (.ok (.symbol symbol), m) →
    ((env.enterWithin (fuel + 1)).callFunction (.function f arguments none none)
        ⟨w, thread, parked⟩).map
      (fun r => (r.1, r.2.world)) = some (.ok x, m.world)

/-- A result of an enumeration is written over the whole storage. -/
theorem toResult_symbol (hv : (Value.symbol symbol).toEnum (some e) tables = .ok v) (w : World) :
    (Ty.enumeration e).toResult tables (.symbol symbol)
      (Bytes.zeros (Ty.enumeration e).resultSize) w = (.ok (Bytes.ofInt 8 v), w) := by
  have hwide : (wideResult v).length = (Bytes.zeros (Ty.enumeration e).resultSize).length := by
    rw [wideResult, Bytes.length_ofInt, Bytes.length_zeros]
    rfl
  have hbytes : (Ty.enumeration e).resultBytes tables (.symbol symbol) w =
      (.ok (wideResult v), w) :=
    Act.map_ok (Act.ofChecked_eq_ok.mpr ⟨hv, rfl⟩)
  rw [Ty.toResult_of_ne_nil (by simp) (by simp), Act.map_ok hbytes, Bytes.overwrite_of_length hwide]
  rfl

theorem crosses (hv : (Value.symbol symbol).toEnum (some e) tables = .ok v)
    (hr : IntKind.int32.min ≤ v ∧ v ≤ IntKind.int32.max) :
    e.Crosses tables symbol ((Value.ofEnum? (some e) v).getD (.int v)) where
  argument := by
    rintro f closure arguments images w inside i h rfl hi ha
    refine ⟨?_, h.callFunction_eq⟩
    obtain ⟨x, passed, heap, w₁, w₂, w₃, w₄, hx, hargument, hof⟩ := h.exists_image hi ha
    obtain ⟨j, w₅, hresolve, hbytes⟩ := Act.bind_eq_ok.mp hargument
    obtain ⟨hj, rfl⟩ := Act.ofChecked_eq_ok.mp hresolve
    obtain ⟨rfl, rfl⟩ := Act.pure_eq_ok.mp hbytes
    obtain rfl : v = j := Except.ok.inj (hv.symm.trans hj)
    have hwhole : (Ty.enumeration e).size ≤ (Ty.enumeration e).record.size := Nat.le_refl 4
    rw [Ty.ofNative_fit hwhole, Passed.load, Ty.ofNative_enumeration (Nat.le_refl 4) hr] at hof
    rw [hx, (Act.pure_eq_ok.mp hof).1]
  result := by
    rintro f closure arguments images w inside env fuel thread parked m h rfl hret hrun
    rw [h.callFunction_eq, hrun, Option.bind_some, Signature.finish, hret]
    dsimp only
    rw [toResult_symbol hv, Signature.conclude, hret, Ty.ofNative_enumeration (by decide) hr]
    rfl

/-! ## The table -/

/--
A table of symbols with 32-bit values, in both directions and in the slots of its type.

* It is refused exactly when a symbol is repeated.
* Otherwise a symbol has the value that stands next to it, a value has the first symbol that is
  declared with it, and it has none exactly when no pair has the value.
* A slot resolves a symbol with this table, and if that does not have it with the earliest of the
  tables at hand that does.
* What a slot has been given a symbol of the table for reads back as the first symbol of its value.
  Across a call the symbol of another table reads back as what this one has for the value.
-/
theorem reads_back (tag : Option String) (pairs : List (String × Int))
    (hr : ∀ p ∈ pairs, IntKind.int32.min ≤ p.2 ∧ p.2 ≤ IntKind.int32.max) :
    ((∃ symbol, ofPairs? tag pairs = .error symbol) ↔ ¬(pairs.map Prod.fst).Nodup) ∧
    ∀ e, ofPairs? tag pairs = .ok e → e.pairs = pairs ∧
      (∀ symbol v, e.find? symbol = some v ↔ (symbol, v) ∈ pairs) ∧
      (∀ v symbol, e.symbol? v = some symbol ↔ e.DeclaredFirst v symbol) ∧
      (∀ v, e.symbol? v = none ↔ ∀ p ∈ pairs, p.2 ≠ v) ∧
      (∀ v symbol, e.symbol? v = some symbol → e.find? symbol = some v) ∧
      (∀ tables symbol v, (Value.symbol symbol).toEnum (some e) tables = .ok v ↔
        e.find? symbol = some v ∨ e.find? symbol = none ∧ ∃ before t after,
          tables = some (before ++ t :: after) ∧ t.find? symbol = some v ∧
            ∀ u ∈ before, u.find? symbol = none) ∧
      (∀ tables symbol f, (Value.symbol symbol).toEnum (some e) tables = .error f ↔
        e.find? symbol = none ∧ (∀ all ∈ tables, ∀ t ∈ all, t.find? symbol = none) ∧
          f = .type "known enum symbol" s!":{symbol}") ∧
      (∀ tables symbol v, Enums.InRange tables →
        (Value.symbol symbol).toEnum (some e) tables = .ok v →
        e.Crosses tables symbol ((Value.ofEnum? (some e) v).getD (.int v))) ∧
      ∀ symbol v, e.find? symbol = some v → ∃ first, e.symbol? v = some first ∧
        e.Keeps symbol first ∧ ∀ tables, e.Crosses tables symbol (.symbol first) := by
  refine ⟨ofPairs?_eq_error_iff tag pairs, fun e h => ?_⟩
  obtain rfl := pairs_ofPairs? h
  have he : e.InRange := hr
  refine ⟨rfl, fun symbol v => find?_eq_some_iff, fun v symbol => symbol?_eq_some_iff,
    fun v => symbol?_eq_none_iff, fun v symbol => find?_of_symbol?,
    fun tables symbol v => Value.toEnum_symbol_eq_ok,
    fun tables symbol f => Value.toEnum_symbol_eq_error,
    fun tables symbol v ht hv => ?_, fun symbol v hv => ?_⟩
  · exact crosses hv (Value.toEnum_range (by simpa using he) ht hv)
  · obtain ⟨first, hfirst⟩ := exists_symbol? hv
    refine ⟨first, hfirst, keeps he hv hfirst, fun tables => ?_⟩
    have hown : (Value.symbol symbol).toEnum (some e) tables = .ok v := Value.toEnum_of_find? hv
    have hcross := crosses hown (he.find? hv)
    rw [Value.ofEnum?_of_symbol? hfirst] at hcross
    exact hcross

/-! ## Two symbols of one value -/

/-- Two symbols of one value, and a third. -/
def outcomes : Enumeration := ⟨none, [("ok", 0), ("success", 0), ("failed", 1)], by decide⟩

theorem inRange_outcomes : outcomes.InRange := by
  show ∀ p ∈ [("ok", 0), ("success", 0), ("failed", 1)], _
  decide

/-- A struct of four bytes at a fixed place, with one field, in the opposite order. -/
def holder (t : Ty) : Instance :=
  ⟨⟨[⟨"f", 0, t⟩], 4, 4, false, true⟩, ⟨4096, 4, 1, .readWrite, true, none⟩, 0⟩

theorem covers_holder (t : Ty) :
    World.start.Covers (holder t).view 0 (holder t).size .read where
  admits := ⟨(by decide : 4096 ≠ 0), rfl, rfl, (by decide : 0 + 4 < wordLimit), Nat.le_refl 4⟩
  word := (by decide : 4096 + 0 + 4 ≤ wordLimit)
  old := (by decide : 4096 + 0 + 4 ≤ World.heapBase)

theorem built_holder :
    Ty.Built (.struct (holder (.array (.enumeration outcomes) 1)).layout) := by
  have hplan : LayoutPlan.build (.ofFields [⟨"f", .descriptor
      ⟨.array (.enumeration outcomes) 1, Descriptor.firstFree⟩, none⟩] false) =
        .ok (holder (.array (.enumeration outcomes) 1)).layout := rfl
  refine .struct hplan fun f hf => ?_
  obtain rfl := List.mem_singleton.mp hf
  exact .array 1 (.enumeration inRange_outcomes)

/-- Every closure answers with the symbol `success`. -/
def succeeding : Environment where
  native := fun _ => none
  body := fun _ _ => .finish (.ok (.symbol "success"))

/-- A signature from outcomes to outcomes. -/
def outcomeSignature : Signature :=
  ⟨0, .enumeration outcomes, [.enumeration outcomes], none, .default, none, false, false⟩

/-- A closure that takes an outcome and gives one has been made, and its handle is held. -/
def outcomeMade : Holdings :=
  ⟨(Holdings.start ⟨.consecutive, some 1, 0⟩).world.withClosure "outcome" [], [.proc 0]⟩

theorem reachable_outcomeMade : outcomeMade.Reachable :=
  ⟨⟨.consecutive, some 1, 0⟩, .single (.closure "outcome" [] (by simp))⟩

/-- The function that is made of the closure. -/
def outcomeFunction : Function := ⟨CodeMemory.nthCode 0, outcomeSignature, some 0, none⟩

/-- The world in which the function has been made. -/
def outcomeWorld : World := (Function.ofClosure outcomeSignature 0 outcomeMade.world).2

theorem callbacks_outcomeWorld :
    outcomeWorld.callbacks = #[⟨0, CodeMemory.nthCode 0, outcomeSignature, 0⟩] := rfl

theorem identifies_outcomeWorld : outcomeWorld.Identifies outcomeSignature := by
  intro id c hc _
  have hc := (World.trampoline?_eq_some.mp hc).1
  rw [callbacks_outcomeWorld] at hc
  rw [List.mem_singleton.mp (Array.mem_def.mp (Array.mem_of_getElem? hc))]

/-- The closure can be entered through its own code. -/
theorem enters_outcomeFunction :
    outcomeFunction.Enters 0 [.symbol "success"] [.symbol "ok"] outcomeWorld outcomeWorld := by
  have hf : Function.ofClosure outcomeSignature 0 outcomeMade.world =
      (.ok outcomeFunction, outcomeWorld) := Prod.ext rfl rfl
  obtain ⟨-, -, hbound⟩ := Holdings.bound_ofClosure reachable_outcomeMade (by decide +kernel) hf
    identifies_outcomeWorld (t := ⟨outcomeWorld, outcomeFunction.refs ++ outcomeMade.held⟩) .refl
    (by decide +kernel)
  let frame : Frame := [((Ty.enumeration outcomes).record, .bytes (Bytes.ofInt 4 0))]
  exact ⟨rfl, by decide, frame, outcomeWorld, hbound, rfl, rfl⟩

/-- The second symbol of a value that is put, passed and returned reads back as the first. -/
theorem reads_back_outcomes :
    (∃ w', (holder (.enumeration outcomes)).put "f" (.symbol "success") World.start =
        (.ok (), w') ∧
      (holder (.enumeration outcomes)).get "f" w' = (.ok (.symbol "ok"), w')) ∧
    ∃ (f : Function) (w : World) (m : Machine), f.signature = outcomeSignature ∧
      ((succeeding.enterWithin 1).callFunction (.function f [.symbol "success"] none none)
        ⟨w, .start, []⟩).map
        (fun r => (r.1, r.2.world)) = some (.ok (.symbol "ok"), m.world) := by
  obtain ⟨-, htable⟩ := reads_back none outcomes.pairs (by decide)
  obtain ⟨-, -, -, -, -, -, -, -, hread⟩ := htable outcomes rfl
  obtain ⟨first, hfirst, hkeeps, hcrosses⟩ := hread "success" 0 rfl
  obtain rfl : "ok" = first := Option.some.inj hfirst
  refine ⟨⟨_, rfl, hkeeps.field (holder (.enumeration outcomes)) ⟨"f", 0, .enumeration outcomes⟩
    World.start _ rfl rfl rfl rfl⟩, ?_⟩
  exact ⟨outcomeFunction, outcomeWorld, _, rfl, (hcrosses none).result outcomeFunction 0 _ _ _ _
    succeeding 0 .start [] _ enters_outcomeFunction rfl rfl rfl⟩

/-- In the opposite order a symbol that has been put with an array does not read back. -/
theorem reads_back_swapped : ∃ w' failure w'',
    (holder (.array (.enumeration outcomes) 1)).put "f" (.array [.symbol "failed"]) World.start =
        (.ok (), w') ∧
      (holder (.array (.enumeration outcomes) 1)).get "f" w' = (.error failure, w'') := by
  let s := holder (.array (.enumeration outcomes) 1)
  have hput : ∃ w', s.put "f" (.array [.symbol "failed"]) World.start = (.ok (), w') ∧
      w'.memory.heap.next ≤ wordLimit := by
    refine ⟨_, rfl, ?_⟩
    show (s.put "f" (.array [.symbol "failed"]) World.start).2.memory.heap.next ≤ wordLimit
    decide +kernel
  obtain ⟨w', hput, hn⟩ := hput
  have hsrc : ∀ src ∈ (Value.array [.symbol "failed"]).structs,
      src.address + src.size ≤ World.start.memory.heap.next := by simp [Value.structs]
  have hstored : (Ty.array (.enumeration outcomes) 1).stored true true World.start
      World.start.memory.heap 4096 (.array [.symbol "failed"]) =
        .array [.unmapped 16777216] := rfl
  have hget := Instance.answers_stored (f := ⟨"f", 0, .array (.enumeration outcomes) 1⟩)
    built_holder rfl rfl (covers_holder _) Instance.stringsPlaced_start hsrc hput hn
  change w'.Answers ((Ty.array (.enumeration outcomes) 1).stored true true World.start
    World.start.memory.heap 4096 (.array [.symbol "failed"])) _ at hget
  rw [hstored] at hget
  rcases hr : s.get "f" w' with ⟨failure | x, w''⟩
  · exact ⟨w', failure, w'', hput, hr⟩
  · -- no symbol has the value that the bytes show in the opposite order
    rw [hr] at hget
    cases hget.1 with
    | array hall => cases hall (.unmapped 16777216) List.mem_cons_self

end Enumeration

end ForeignCall
