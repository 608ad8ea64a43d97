import ForeignCall.Proofs.Memory.Derived
import ForeignCall.Session

/-!
# Foreign memory taken into care

Foreign memory is taken into care by a new view of the same region, which has an owner. The region,
its size and the size of its elements are carried over; permissions and byte order are not: the new
view has all permissions in the host's byte order (`adopt_eq`).

Main statement: `adopt_alike`. The two views, and whatever is made of them by the same steps, admit
the same accesses with the same outcome exactly where the steps have set what was lost, or nothing
was lost because the first view had all permissions and the host's order.
-/

namespace ForeignCall

namespace View

variable {v u : View}

/-! ## Steps -/

/-- A way to make one view out of another, other permissions among them. -/
inductive Adjustment where
  | derive (d : Derivation)
  | permit (access : Access)
  deriving DecidableEq, Repr

namespace Adjustment

/-- The view that a step makes. -/
def apply : Adjustment → View → Outcome View
  | .derive d, v => d.apply v
  | .permit access, v => .ok (v.withAccess access)

/-- The permissions after a step. -/
def access : Adjustment → Access → Access
  | .derive d, a => d.access a
  | .permit a, _ => a

/-- Whether the byte order is not the host's after a step. -/
def swaps : Adjustment → Bool → Bool
  | .derive d, swapped => d.swaps swapped
  | .permit _, swapped => swapped

/-- A step that sets the permissions, whatever they were before. -/
def SetsAccess : Adjustment → Prop
  | .derive .readOnly => True
  | .permit _ => True
  | _ => False

/-- A step that sets the byte order, whatever it was before. -/
def SetsOrder : Adjustment → Prop
  | .derive (.order _) => True
  | _ => False

end Adjustment

/-- The view after steps, one after another. -/
def adjustedBy (v : View) (steps : List Adjustment) : Outcome View :=
  steps.foldlM (fun v s => s.apply v) v

/-- The same region with permissions, byte order and origin of its own. -/
def dressed (v : View) (access : Access) (swapped : Bool) (origin : Option Origin) : View :=
  { v with access, swapped, origin }

/-- What a step does to the region depends on the region alone. -/
theorem Derivation.apply_dressed (d : Derivation) (v : View) (a : Access) (s : Bool)
    (o : Option Origin) : d.apply (v.dressed a s o) =
      (d.apply v).map fun u => u.dressed (d.access a) (d.swaps s) o := by
  have hslice : ∀ offset size : Nat, (v.dressed a s o).slice offset size =
      (v.slice offset size).map fun u => u.dressed a s o := by
    intro offset size
    unfold View.slice
    show (if offset + size < wordLimit ∧ offset + size ≤ v.size then
      (orOverflow (addWords v.address offset) >>= fun address =>
        pure ((v.dressed a s o).derive address size) : Outcome View) else _) = _
    split
    · cases addWords v.address offset <;> rfl
    · rfl
  cases d with
  | offset delta =>
    show (v.dressed a s o).offset delta = (v.offset delta).map _
    unfold View.offset
    show (if v.isUnbounded = true then _ else _ : Outcome View) = _
    split
    · rfl
    · show (if delta < 0 ∨ (v.size : Int) < delta then _ else
        (orOverflow (addWords v.address delta.toNat) >>= _) : Outcome View) = _
      split
      · rfl
      · cases addWords v.address delta.toNat <;> rfl
  | slice offset size => exact hslice offset size
  | index i =>
    show (v.dressed a s o).index i = (v.index i).map _
    have hsize : (v.dressed a s o).typeSize = v.typeSize := rfl
    unfold View.index
    rw [hsize]
    cases mulWords i v.typeSize with
    | some start => exact hslice start v.typeSize
    | none => rfl
  | typed width => rfl
  | order order => rfl
  | readOnly => rfl

theorem Adjustment.apply_dressed (step : Adjustment) (v : View) (a : Access) (s : Bool)
    (o : Option Origin) : step.apply (v.dressed a s o) =
      (step.apply v).map fun u => u.dressed (step.access a) (step.swaps s) o := by
  cases step with
  | derive d => exact d.apply_dressed v a s o
  | permit access => rfl

theorem adjustedBy_dressed (steps : List Adjustment) (v : View) (a : Access) (s : Bool)
    (o : Option Origin) : (v.dressed a s o).adjustedBy steps =
      (v.adjustedBy steps).map fun u =>
        u.dressed (steps.foldl (fun a step => step.access a) a)
          (steps.foldl (fun s step => step.swaps s) s) o := by
  unfold adjustedBy
  induction steps generalizing v a s with
  | nil => rfl
  | cons step steps ih =>
    rw [List.foldlM_cons, List.foldlM_cons, step.apply_dressed]
    cases step.apply v with
    | error e => rfl
    | ok u => exact ih u _ _

/-- Steps forget what they began with where one of them sets it, and nowhere else. -/
theorem foldl_eq_foldl_iff {σ α : Type} {f : α → σ → α} {sets : σ → Prop}
    (hset : ∀ step a b, sets step → f a step = f b step)
    (hkeep : ∀ step a, ¬sets step → f a step = a) (steps : List σ) (a b : α) :
    steps.foldl f a = steps.foldl f b ↔ a = b ∨ ∃ step ∈ steps, sets step := by
  induction steps generalizing a b with
  | nil => simp
  | cons step steps ih =>
    rw [List.foldl_cons, List.foldl_cons, ih]
    by_cases hs : sets step
    · exact iff_of_true (Or.inl (hset step a b hs)) (Or.inr ⟨step, List.mem_cons_self, hs⟩)
    · rw [hkeep step a hs, hkeep step b hs]
      simp [hs]

theorem foldl_access_eq_iff (steps : List Adjustment) (a b : Access) :
    steps.foldl (fun a step => step.access a) a = steps.foldl (fun a step => step.access a) b ↔
      a = b ∨ ∃ step ∈ steps, step.SetsAccess := by
  refine foldl_eq_foldl_iff ?_ ?_ steps a b <;> intro step
  · intro a b h
    cases step with
    | permit access => rfl
    | derive d => cases d <;> first | rfl | exact h.elim
  · intro a h
    cases step with
    | permit access => exact absurd trivial h
    | derive d => cases d <;> first | rfl | exact absurd trivial h

/-- Steps take no permission from what begins with more of them. -/
theorem foldl_access_allows (steps : List Adjustment) {a b : Access}
    (h : ∀ mode, a.allows mode = true → b.allows mode = true) (mode : Mode)
    (hm : (steps.foldl (fun a step => step.access a) a).allows mode = true) :
    (steps.foldl (fun a step => step.access a) b).allows mode = true := by
  induction steps generalizing a b with
  | nil => exact h mode hm
  | cons step steps ih =>
    refine ih (fun mode hm => ?_) hm
    cases step with
    | permit access => exact hm
    | derive d => cases d <;> first | exact h mode hm | exact hm

theorem foldl_swaps_eq_iff (steps : List Adjustment) (a b : Bool) :
    steps.foldl (fun s step => step.swaps s) a = steps.foldl (fun s step => step.swaps s) b ↔
      a = b ∨ ∃ step ∈ steps, step.SetsOrder := by
  refine foldl_eq_foldl_iff ?_ ?_ steps a b <;> intro step
  · intro a b h
    cases step with
    | permit access => exact h.elim
    | derive d => cases d <;> first | rfl | exact h.elim
  · intro a h
    cases step with
    | permit access => rfl
    | derive d => cases d <;> first | rfl | exact absurd trivial h

/-! ## Accesses -/

/-- An access through a view; the type is that of its answer. -/
inductive Use : Type → Type where
  /-- A number of a width, in the order of the view. -/
  | number (offset width : Nat) : Use Nat
  | numbers (offset width count : Nat) : Use (List Nat)
  | bytes (offset length : Nat) : Use (List UInt8)
  | string (offset : Nat) (limit : Option Nat) : Use (List UInt8)
  | strings (offset : Nat) (count : Option Nat) : Use (List (Option String))
  | value (kind : Kind) (offset : Nat) : Use Value
  | setNumber (offset width bits : Nat) : Use Unit
  | setNumbers (offset width : Nat) (values : List Nat) : Use Unit
  | setPointers (offset : Nat) (values : List Value) : Use Unit
  | setBytes (offset : Nat) (data : List UInt8) : Use Unit
  | setString (offset : Nat) (data : List UInt8) : Use Unit
  | setValue (kind : Kind) (offset : Nat) (x : Value) : Use Unit
  /-- A closure, compiled for a signature. -/
  | setCallback (offset closure : Nat) (signature : Signature) : Use Nat
  | clear : Use Unit
  /-- The first bytes of another view, copied to an offset of this one. -/
  | copyFrom (offset : Nat) (src : View) (length : Nat) : Use Unit
  /-- The first bytes of this view, copied to an offset of another one. -/
  | copyTo (dst : View) (offset length : Nat) : Use Unit

/-- An access made through a view. -/
def Use.run {α : Type} : Use α → View → Act α
  | .number offset width, v => Act.read fun m => m.readBits v offset width
  | .numbers offset width count, v => Act.read fun m => m.readBitsArray v offset width count
  | .bytes offset length, v => Act.read fun m => m.readBytes v offset length
  | .string offset limit, v => Act.read fun m => m.readString v offset limit
  | .strings offset count, v => fun w => (w.memory.readStrings v offset count, w)
  | .value kind offset, v => v.get kind offset
  | .setNumber offset width bits, v => Act.write fun m => m.writeBits v offset width bits
  | .setNumbers offset width values, v =>
    Act.write fun m => m.writeBitsArray v offset width values
  | .setPointers offset values, v => v.putPointers offset values
  | .setBytes offset data, v => Act.write fun m => m.writeBytes v offset data
  | .setString offset data, v => Act.write fun m => m.writeString v offset data
  | .setValue kind offset x, v => v.put kind offset x
  | .setCallback offset closure signature, v => putCallback v offset closure signature
  | .clear, v => Act.write fun m => m.clear v
  | .copyFrom offset src length, v => Act.write fun m => m.copy v offset src length
  | .copyTo dst offset length, v => Act.write fun m => m.copy dst offset v length

/-- The same view, kept alive by an origin. -/
def keptBy (v : View) (o : Origin) : View := { v with origin := some o }

section

variable {o : Origin} {m : Memory} {x : World}

/-- An origin that is alive admits what a view without origin admits. -/
theorem check_keptBy (hv : v.origin = none) (hl : m.isLive o = true) (offset width : Nat)
    (mode : Mode) : m.check (v.keptBy o) offset width mode = m.check v offset width mode := by
  unfold Memory.check keptBy
  simp only [hv, hl, Option.any_some, Option.any_none, Bool.not_true]

theorem readBytes_keptBy (hv : v.origin = none) (hl : m.isLive o = true) (offset length : Nat) :
    m.readBytes (v.keptBy o) offset length = m.readBytes v offset length := by
  unfold Memory.readBytes
  rw [check_keptBy hv hl]

theorem readBits_keptBy (hv : v.origin = none) (hl : m.isLive o = true) (offset width : Nat) :
    m.readBits (v.keptBy o) offset width = m.readBits v offset width := by
  unfold Memory.readBits
  rw [readBytes_keptBy hv hl]
  rfl

theorem writeBytes_keptBy (hv : v.origin = none) (hl : m.isLive o = true) (offset : Nat)
    (bytes : List UInt8) :
    m.writeBytes (v.keptBy o) offset bytes = m.writeBytes v offset bytes := by
  unfold Memory.writeBytes
  rw [check_keptBy hv hl]

theorem writeBits_keptBy (hv : v.origin = none) (hl : m.isLive o = true)
    (offset width bits : Nat) :
    m.writeBits (v.keptBy o) offset width bits = m.writeBits v offset width bits :=
  writeBytes_keptBy hv hl offset _

theorem writeBitsArray_keptBy (hv : v.origin = none) (hl : m.isLive o = true)
    (offset width : Nat) (values : List Nat) :
    m.writeBitsArray (v.keptBy o) offset width values = m.writeBitsArray v offset width values := by
  unfold Memory.writeBitsArray
  simp only [check_keptBy hv hl]
  rfl

theorem readStringsFrom_keptBy (hv : v.origin = none) (hl : m.isLive o = true) (offset : Nat)
    (count : Option Nat) (index : Nat) :
    m.readStringsFrom (v.keptBy o) offset count index = m.readStringsFrom v offset count index := by
  fun_induction Memory.readStringsFrom m v offset count index with
  | case1 index h =>
    rw [Memory.readStringsFrom, if_pos h]
  | case2 index h hw ih =>
    rw [Memory.readStringsFrom, if_neg h, if_pos hw]
    unfold Memory.readAddress
    rw [readBits_keptBy hv hl]
    simp only [ih]
  | case3 index h hw => rw [Memory.readStringsFrom, if_neg h, if_neg hw]

theorem readBitsArray_keptBy (hv : v.origin = none) (hl : m.isLive o = true)
    (offset width count : Nat) :
    m.readBitsArray (v.keptBy o) offset width count = m.readBitsArray v offset width count := by
  unfold Memory.readBitsArray
  simp only [check_keptBy hv hl]
  rfl

theorem readString_keptBy (hv : v.origin = none) (hl : m.isLive o = true) (offset : Nat)
    (limit : Option Nat) :
    m.readString (v.keptBy o) offset limit = m.readString v offset limit := by
  unfold Memory.readString
  simp only [readBytes_keptBy hv hl, check_keptBy hv hl]
  rfl

theorem clear_keptBy (hv : v.origin = none) (hl : m.isLive o = true) :
    m.clear (v.keptBy o) = m.clear v := by
  unfold Memory.clear
  simp only [check_keptBy hv hl]
  rfl

theorem get_keptBy (hv : v.origin = none) (hl : x.memory.isLive o = true) (kind : Kind)
    (offset : Nat) : (v.keptBy o).get kind offset x = v.get kind offset x := by
  have hbind : ∀ {α β : Type} {f g : Memory → Checked α} (k : α → Act β),
      f x.memory = g x.memory → (Act.read f >>= k) x = (Act.read g >>= k) x := by
    intro α β f g k h
    show Act.bind _ _ _ = Act.bind _ _ _
    unfold Act.bind Act.read
    rw [h]
  have hbits := fun width => readBits_keptBy hv hl offset width
  cases kind with
  | builtin b =>
    cases b with
    | int k => exact hbind _ (by unfold Memory.readInt; rw [hbits])
    | float k => exact hbind _ (hbits _)
    | bool => exact hbind _ (by unfold Memory.readInt; rw [hbits])
    | pointer role => exact hbind _ (by unfold Memory.readPointer Memory.readAddress; rw [hbits])
    | string => exact hbind _ (hbits _)
    | void => rfl
    | varargs => rfl
  | _ => rfl

theorem write_congr {f g : Memory → Checked Memory} (h : f x.memory = g x.memory) :
    Act.write f x = Act.write g x := by
  unfold Act.write
  rw [h]

theorem write_writeBits_keptBy (hv : v.origin = none) (hl : x.memory.isLive o = true)
    (offset width bits : Nat) :
    Act.write (fun m => m.writeBits (v.keptBy o) offset width bits) x =
      Act.write (fun m => m.writeBits v offset width bits) x :=
  write_congr (writeBits_keptBy hv hl offset width bits)

/-- A value is converted before the view is looked at. -/
theorem ofChecked_bind_congr {α β : Type} {c : Checked α} {f g : α → Act β}
    (h : ∀ a, f a x = g a x) : (Act.ofChecked c >>= f) x = (Act.ofChecked c >>= g) x := by
  cases c with
  | ok a => exact h a
  | error e => rfl

theorem put_keptBy (hv : v.origin = none) (hl : x.memory.isLive o = true) (kind : Kind)
    (offset : Nat) (value : Value) :
    (v.keptBy o).put kind offset value x = v.put kind offset value x := by
  have hwrite := fun width bits => write_writeBits_keptBy hv hl offset width bits
  cases kind with
  | builtin b =>
    cases b with
    | string =>
      cases value with
      | str id => rfl
      | _ => exact ofChecked_bind_congr fun address => hwrite _ _
    | void => rfl
    | varargs => rfl
    | _ => exact ofChecked_bind_congr fun _ => hwrite _ _
  | _ => rfl

theorem putPointers_keptBy (hv : v.origin = none) (hl : x.memory.isLive o = true) (offset : Nat)
    (values : List Value) :
    (v.keptBy o).putPointers offset values x = v.putPointers offset values x :=
  ofChecked_bind_congr fun addresses =>
    write_congr (writeBitsArray_keptBy hv hl offset addressSize addresses)

theorem putCallback_keptBy (hv : v.origin = none) (hl : x.memory.isLive o = true)
    (offset closure : Nat) (signature : Signature) :
    putCallback (v.keptBy o) offset closure signature x =
      putCallback v offset closure signature x := by
  have hm := memory_makeCallback signature closure (.ok ()) x
  unfold putCallback
  rcases hc : makeCallback signature closure (.ok ()) x with ⟨e | id, y⟩
  · rw [Act.bind_error hc, Act.bind_error hc]
  · rw [hc] at hm
    rw [Act.bind_ok hc, Act.bind_ok hc]
    have hview : (Act.view fun w => w.callbackAddress id) y = (.ok (y.callbackAddress id), y) := rfl
    rw [Act.bind_ok hview, Act.bind_ok hview]
    have hw := write_writeBits_keptBy (x := y) hv ((congrArg (Memory.isLive · o) hm).trans hl)
      offset addressSize (y.callbackAddress id)
    show Act.bind _ _ _ = Act.bind _ _ _
    unfold Act.bind
    unfold Memory.writeAddress
    rw [hw]

/-- Every access through a view without origin is the same access through the view with an origin
that is alive. -/
theorem Use.run_keptBy {α : Type} (use : Use α) (hv : v.origin = none)
    (hl : x.memory.isLive o = true) : use.run (v.keptBy o) x = use.run v x := by
  cases use with
  | number offset width => simp only [run, Act.read, readBits_keptBy hv hl]
  | numbers offset width count => simp only [run, Act.read, readBitsArray_keptBy hv hl]
  | bytes offset length => simp only [run, Act.read, readBytes_keptBy hv hl]
  | string offset limit => simp only [run, Act.read, readString_keptBy hv hl]
  | strings offset count => simp only [run, Memory.readStrings, readStringsFrom_keptBy hv hl]
  | value kind offset => exact get_keptBy hv hl kind offset
  | setNumber offset width bits => exact write_writeBits_keptBy hv hl offset width bits
  | setNumbers offset width values => simp only [run, Act.write, writeBitsArray_keptBy hv hl]
  | setPointers offset values => exact putPointers_keptBy hv hl offset values
  | setBytes offset data => simp only [run, Act.write, writeBytes_keptBy hv hl]
  | setString offset data =>
    simp only [run, Act.write, Memory.writeString, writeBytes_keptBy hv hl]
  | setValue kind offset value => exact put_keptBy hv hl kind offset value
  | setCallback offset closure signature => exact putCallback_keptBy hv hl offset closure signature
  | clear => simp only [run, Act.write, clear_keptBy hv hl]
  | copyFrom offset src length => simp only [run, Act.write, Memory.copy, check_keptBy hv hl]
  | copyTo dst offset length => simp only [run, Act.write, Memory.copy, check_keptBy hv hl]

end

/-- Permissions that are not the same, but are all among others, lack one of those. -/
theorem exists_mode_of_ne {a b : Access}
    (h : ∀ mode, b.allows mode = true → a.allows mode = true) (hne : a ≠ b) :
    ∃ mode, a.allows mode = true ∧ b.allows mode = false := by
  have hread := h .read
  have hwrite := h .write
  obtain ⟨ar, aw⟩ := a
  obtain ⟨br, bw⟩ := b
  by_cases hr : ar = br
  · have hw : aw ≠ bw := fun hw => hne (by rw [hr, hw])
    refine ⟨.write, ?_⟩
    cases aw <;> cases bw <;> simp_all [Access.allows]
  · refine ⟨.read, ?_⟩
    cases ar <;> cases br <;> simp_all [Access.allows]

/-- Other permissions than those of a view that has fewer admit an access that the view refuses. -/
theorem exists_mode_dressed {a : Access} {s : Bool} {o : Origin} (hz : v.address ≠ 0)
    (ha : ∀ mode, v.access.allows mode = true → a.allows mode = true) (hne : a ≠ v.access) :
    ∃ mode, ∀ m : Memory, m.isLive o = true →
      (∃ address, m.check (v.dressed a s (some o)) 0 0 mode = .ok address) ∧
      ∀ address, m.check v 0 0 mode ≠ .ok address := by
  obtain ⟨mode, hmode, hlost⟩ := exists_mode_of_ne ha hne
  refine ⟨mode, fun m hl => ⟨⟨_, Memory.Admits.check ?_⟩, fun address h => ?_⟩⟩
  · exact ⟨hz, by simp [dressed, hl], hmode, by decide, Nat.zero_le _⟩
  · have hallowed := (Memory.check_eq_ok h).1.mode
    rw [hlost] at hallowed
    cases hallowed

/-- Views in different orders read a number from its bytes in opposite order. -/
theorem decode_of_swapped_ne {u' : View} (h : u'.swapped ≠ v.swapped) (bytes : List UInt8) :
    u'.decode bytes = v.decode bytes.reverse := by
  unfold decode
  cases hu : u'.swapped <;> cases hv : v.swapped <;> simp_all

/-- More permissions admit whatever fewer admit. -/
theorem check_dressed {m : Memory} {a : Access} {s : Bool} {o : Origin} (hl : m.isLive o = true)
    (ha : ∀ mode, v.access.allows mode = true → a.allows mode = true) {offset width : Nat}
    {mode : Mode} {address : Nat} (h : m.check v offset width mode = .ok address) :
    m.check (v.dressed a s (some o)) offset width mode = .ok address := by
  obtain ⟨hv, rfl⟩ := Memory.check_eq_ok h
  have hd : m.Admits (v.dressed a s (some o)) offset width mode :=
    ⟨hv.address, by simp [dressed, hl], ha mode hv.mode, hv.word, hv.inside⟩
  exact hd.check

end View

/-! ## Taking memory into care -/

open View

variable {v : View}

/-- The new view is the old one with all permissions, in the host's order, with an owner. -/
theorem adopt_eq (label : String) (ho : v.origin = none) (ht : 0 < v.typeSize) (w : World) :
    adopt label v w =
      (.ok (v.dressed .readWrite false (some (.owner w.memory.owners.size))),
        { w with memory := { w.memory with
          owners := w.memory.owners.push ⟨.foreign label, v.address, v.size, true, false⟩ } }) := by
  have hmax : Nat.max v.typeSize 1 = v.typeSize := Nat.max_eq_left ht
  unfold adopt View.ofParts
  rw [ho, hmax]
  rfl

/-- Neither fails nor succeeds where the other does not; the views are those of one region. -/
theorem adjustedBy_dressed_eq_ok {u : View} {steps : List Adjustment} (a : Access) (s : Bool)
    (o : Option Origin) (h : v.adjustedBy steps = .ok u) :
    (v.dressed a s o).adjustedBy steps =
      .ok (u.dressed (steps.foldl (fun a step => step.access a) a)
        (steps.foldl (fun s step => step.swaps s) s) o) ∧
    u = u.dressed (steps.foldl (fun a step => step.access a) v.access)
      (steps.foldl (fun s step => step.swaps s) v.swapped) v.origin := by
  constructor
  · rw [adjustedBy_dressed, h]
    rfl
  · have hself := adjustedBy_dressed steps v v.access v.swapped v.origin
    rw [show v.dressed v.access v.swapped v.origin = v from rfl, h] at hself
    exact Except.ok.inj hself

/-- Whatever is made of a view has its origin. -/
theorem origin_adjustedBy {u : View} {steps : List Adjustment} (h : v.adjustedBy steps = .ok u) :
    u.origin = v.origin := by
  obtain ⟨-, hself⟩ := adjustedBy_dressed_eq_ok v.access v.swapped v.origin h
  rw [hself]
  rfl

/--
Foreign memory without an owner, and the view by which it is taken into care.

* The same steps fail with the same failure on both, or make views of one region with elements of
  one size, the second of which has the new owner.
* As long as that has not released the region, what the first of them admits the second admits too,
  at the same address.
* Their permissions are the same exactly when the first view had all of them or a step sets them,
  and their byte order exactly when the first view had the host's or a step sets it.
* Where both are the same, every access has the same outcome through both. Permissions that are not
  the same admit an access that the first one refuses, and numbers of views in different orders are
  read from their bytes in opposite order.
-/
theorem adopt_alike (label : String) (ho : v.origin = none) (ht : 0 < v.typeSize) (w : World) :
    ∃ a w' owner, adopt label v w = (.ok a, w') ∧ a.origin = some owner ∧
      w'.memory.isLive owner = true ∧ w'.memory.heap = w.memory.heap ∧
      ∀ steps : List Adjustment,
        (∀ e, v.adjustedBy steps = .error e → a.adjustedBy steps = .error e) ∧
        ∀ u, v.adjustedBy steps = .ok u → ∃ u', a.adjustedBy steps = .ok u' ∧
          (u'.address = u.address ∧ u'.size = u.size ∧ u'.typeSize = u.typeSize ∧
            u'.origin = some owner) ∧
          (∀ (m : Memory) (offset width : Nat) (mode : Mode) (address : Nat),
            m.isLive owner = true → m.check u offset width mode = .ok address →
            m.check u' offset width mode = .ok address) ∧
          (u'.access = u.access ↔ v.access = .readWrite ∨ ∃ s ∈ steps, s.SetsAccess) ∧
          (u'.swapped = u.swapped ↔ v.swapped = false ∨ ∃ s ∈ steps, s.SetsOrder) ∧
          (u'.access = u.access → u'.swapped = u.swapped → ∀ (α : Type) (use : Use α) (x : World),
            x.memory.isLive owner = true → use.run u' x = use.run u x) ∧
          (u'.access ≠ u.access → u.address ≠ 0 → ∃ mode, ∀ m : Memory, m.isLive owner = true →
            (∃ address, m.check u' 0 0 mode = .ok address) ∧
            ∀ address, m.check u 0 0 mode ≠ .ok address) ∧
          (u'.swapped ≠ u.swapped → ∀ bytes, u'.decode bytes = u.decode bytes.reverse) := by
  refine ⟨_, _, _, adopt_eq label ho ht w, rfl, ?_, rfl, fun steps => ⟨?_, ?_⟩⟩
  · simp [Memory.isLive]
  · intro e he
    rw [adjustedBy_dressed, he]
    rfl
  intro u hu
  obtain ⟨hu', hself⟩ := adjustedBy_dressed_eq_ok .readWrite false
    (some (.owner w.memory.owners.size)) hu
  have haccess : u.access = steps.foldl (fun a step => step.access a) v.access := by
    rw [hself]
    rfl
  have hswapped : u.swapped = steps.foldl (fun s step => step.swaps s) v.swapped := by
    rw [hself]
    rfl
  have horigin : u.origin = none := (origin_adjustedBy hu).trans ho
  -- the second view begins with all permissions, so no step leaves it with fewer
  have hmore : ∀ mode, u.access.allows mode = true →
      (steps.foldl (fun a step => step.access a) Access.readWrite).allows mode = true := by
    rw [haccess]
    exact foldl_access_allows steps fun mode _ => by cases mode <;> rfl
  refine ⟨_, hu', ⟨rfl, rfl, rfl, rfl⟩, ?_, ?_, ?_, ?_, ?_, ?_⟩
  · exact fun m offset width mode address hl => check_dressed hl hmore
  · rw [haccess, eq_comm (a := v.access)]
    exact foldl_access_eq_iff steps .readWrite v.access
  · rw [hswapped, eq_comm (a := v.swapped)]
    exact foldl_swaps_eq_iff steps false v.swapped
  · intro ha hs α use x hl
    have hkept : u.dressed (steps.foldl (fun a step => step.access a) .readWrite)
        (steps.foldl (fun s step => step.swaps s) false) (some (.owner w.memory.owners.size)) =
          u.keptBy (.owner w.memory.owners.size) := by
      rw [show steps.foldl _ Access.readWrite = u.access from ha,
        show steps.foldl _ false = u.swapped from hs]
      rfl
    rw [hkept, use.run_keptBy horigin hl]
  · exact fun hne hz => exists_mode_dressed hz hmore hne
  · exact decode_of_swapped_ne

/-! ## A view that is read only -/

/-- Eight bytes that are read only, without an owner. -/
def lent : View := ⟨4096, 8, 1, .readOnly, false, none⟩

/-- The owned view can be written to, and the first one cannot. -/
theorem adopt_writable : lent.origin = none ∧ ∃ a w', adopt "a" lent World.start = (.ok a, w') ∧
    (∃ y, (Use.setNumber 0 4 7).run a w' = (.ok (), y)) ∧
    ((Use.setNumber 0 4 7).run lent w').1 =
      .error (.fault (.runtime "memory is not writable")) :=
  ⟨rfl, _, _, rfl, ⟨_, rfl⟩, rfl⟩

/-- Made read-only again, both read the same bytes, and neither can be written to. -/
theorem adopt_alike_readOnly : lent.origin = none ∧ 0 < lent.typeSize ∧ ∃ a w' u',
    adopt "a" lent World.start = (.ok a, w') ∧ a.adjustedBy [.derive .readOnly] = .ok u' ∧
    (∀ use : Use (List UInt8), use.run u' w' = use.run lent w') ∧
    (Use.setNumber 0 4 7).run u' w' = (Use.setNumber 0 4 7).run lent w' := by
  obtain ⟨a, w', owner, ha, -, hl, -, hsteps⟩ := adopt_alike (v := lent) "a" rfl (by decide)
    World.start
  obtain ⟨-, hok⟩ := hsteps [.derive .readOnly]
  obtain ⟨u', hu', -, -, haccess, hswapped, hsame, -⟩ := hok lent rfl
  have hrun := hsame (haccess.mpr (Or.inr ⟨_, List.mem_cons_self, trivial⟩))
    (hswapped.mpr (Or.inl rfl))
  exact ⟨rfl, by decide, a, w', u', ha, hu', fun use => hrun _ use w' hl, hrun _ _ w' hl⟩

end ForeignCall
