import ForeignCall.Proofs.Callback.Slots
import ForeignCall.Proofs.Layout.Rule
import ForeignCall.Proofs.Struct.Slots

/-!
# Declared fields are in bounds

A struct that has been made or laid over memory, and every struct that is read out of one, has a
view of at least its size (`Instance.Available.covered`). So everything that stands inside it lies
in the view, and no access that it makes to a declared field or element is out of bounds. A put of
an object passes on the fault with which the object refuses to give its address, whatever it is
(`Value.refusals`).

Main statement: `Instance.Available.in_bounds`. `Instance.Available.put_refusing` is an object that
refuses as if an access were out of bounds.
-/

namespace ForeignCall

/-- An access that ends inside a view. -/
structure View.Spans (v : View) (offset width : Nat) : Prop where
  word : offset + width < wordLimit
  inside : offset + width ≤ v.size

theorem View.Spans.part {v : View} {offset width o n : Nat} (h : v.Spans offset width)
    (hn : o + n ≤ offset + width) : v.Spans o n :=
  ⟨Nat.lt_of_le_of_lt hn h.word, Nat.le_trans hn h.inside⟩

/-! ## Faults of being out of bounds -/

/-- A check that finds an access out of bounds with none but the given faults. -/
def Checked.BoundsIn {α : Type} (c : Checked α) (allowed : List Fault) : Prop :=
  ∀ f, c = .error f → f.kind = .bounds → f ∈ allowed

/-- An operation that is refused for being out of bounds with none but the given faults. -/
def Act.BoundsIn {α : Type} (x : Act α) (allowed : List Fault) : Prop :=
  ∀ (w w' : World) (f : Fault), x w = (.error (.fault f), w') → f.kind = .bounds → f ∈ allowed

namespace Checked

variable {α β : Type} {allowed : List Fault}

theorem boundsIn_ok (a : α) : BoundsIn (.ok a) allowed := fun _ h => by cases h

theorem boundsIn_error {f : Fault} (h : f.kind ≠ .bounds) :
    BoundsIn (.error f : Checked α) allowed := by
  intro g hg hk
  rw [← Except.error.inj hg] at hk
  exact absurd hk h

theorem BoundsIn.bind {c : Checked α} {g : α → Checked β} (hc : c.BoundsIn allowed)
    (hg : ∀ a, BoundsIn (g a) allowed) : BoundsIn (c >>= g) allowed := by
  cases c with
  | error f => exact fun f' hf => hc f' (congrArg Except.error (Except.error.inj hf))
  | ok a => exact hg a

end Checked

namespace Act

variable {α β : Type} {allowed more : List Fault}

theorem BoundsIn.mono {x : Act α} (h : x.BoundsIn allowed) (hle : allowed ⊆ more) :
    x.BoundsIn more :=
  fun w w' f hx hk => hle (h w w' f hx hk)

/-- One operation after another, the second one knowing that the first has succeeded. -/
theorem BoundsIn.bind_of_ok {x : Act α} {g : α → Act β} (hx : x.BoundsIn allowed)
    (hg : ∀ r w w', x w = (.ok r, w') → (g r).BoundsIn allowed) : (x >>= g).BoundsIn allowed := by
  intro w w' f h hk
  rcases hw : x w with ⟨e | r, w₁⟩
  · rw [bind_error hw, Prod.mk.injEq] at h
    obtain rfl := Except.error.inj h.1
    exact hx w w₁ f hw hk
  · rw [bind_ok hw] at h
    exact hg r w w₁ hw w₁ w' f h hk

theorem BoundsIn.bind {x : Act α} {g : α → Act β} (hx : x.BoundsIn allowed)
    (hg : ∀ r, (g r).BoundsIn allowed) : (x >>= g).BoundsIn allowed :=
  hx.bind_of_ok fun r _ _ _ => hg r

/-- An operation that does not fail. -/
theorem Total.boundsIn {x : Act α} (h : x.Total) : x.BoundsIn allowed := by
  intro w w' f hx _
  obtain ⟨r, w₁, hr⟩ := h w
  rw [hr, Prod.mk.injEq] at hx
  cases hx.1

theorem boundsIn_pure (r : α) : (pure r : Act α).BoundsIn allowed := fun _ _ _ h => by
  cases (Prod.mk.inj h).1

theorem boundsIn_view (f : World → α) : (view f).BoundsIn allowed := fun _ _ _ h => by
  cases (Prod.mk.inj h).1

theorem boundsIn_refuse {f : Fault} (h : f.kind ≠ .bounds) :
    (refuse f : Act α).BoundsIn allowed := by
  intro w w' g hg hk
  have hfault := Except.error.inj (Prod.mk.inj hg).1
  rw [← Failure.fault.inj hfault] at hk
  exact absurd hk h

theorem boundsIn_outcome {c : Checked α} (h : c.BoundsIn allowed) {f : Fault}
    (hc : c.outcome = .error (.fault f)) (hk : f.kind = .bounds) : f ∈ allowed := by
  cases c with
  | ok a => cases hc
  | error g => exact h f (congrArg Except.error (Failure.fault.inj (Except.error.inj hc))) hk

theorem boundsIn_ofChecked {c : Checked α} (h : c.BoundsIn allowed) :
    (ofChecked c).BoundsIn allowed :=
  fun _ _ _ hx hk => boundsIn_outcome h (Prod.mk.inj hx).1 hk

theorem boundsIn_read {g : Memory → Checked α} (h : ∀ m, (g m).BoundsIn allowed) :
    (read g).BoundsIn allowed :=
  fun w _ _ hx hk => boundsIn_outcome (h w.memory) (Prod.mk.inj hx).1 hk

theorem boundsIn_write {g : Memory → Checked Memory} (h : ∀ m, (g m).BoundsIn allowed) :
    (write g).BoundsIn allowed := by
  intro w w' f hx hk
  unfold write at hx
  split at hx
  · cases (Prod.mk.inj hx).1
  next e he =>
    obtain rfl := Failure.fault.inj (Except.error.inj (Prod.mk.inj hx).1)
    exact h w.memory e he hk

theorem boundsIn_make {g : Memory → Checked (α × Memory)} (h : ∀ m, (g m).BoundsIn allowed) :
    (make fun m => (g m).outcome).BoundsIn allowed := by
  intro w w' f hx hk
  unfold make at hx
  split at hx
  · cases (Prod.mk.inj hx).1
  next e he =>
    obtain rfl := Except.error.inj (Prod.mk.inj hx).1
    exact boundsIn_outcome (h w.memory) he hk

theorem boundsIn_mapM {l : List α} {g : α → Act β} (h : ∀ r ∈ l, (g r).BoundsIn allowed) :
    (l.mapM g).BoundsIn allowed := by
  induction l with
  | nil =>
    rw [List.mapM_nil]
    exact boundsIn_pure []
  | cons r rest ih =>
    rw [List.mapM_cons]
    exact (h r List.mem_cons_self).bind fun _ =>
      (ih fun r' hr => h r' (List.mem_cons_of_mem _ hr)).bind fun _ => boundsIn_pure _

theorem boundsIn_forM {l : List α} {g : α → Act PUnit} (h : ∀ r ∈ l, (g r).BoundsIn allowed) :
    (l.forM g).BoundsIn allowed := by
  induction l with
  | nil => exact boundsIn_pure _
  | cons r rest ih =>
    exact (h r List.mem_cons_self).bind fun _ => ih fun r' hr => h r' (List.mem_cons_of_mem _ hr)

end Act

/-! ## Accesses that end inside their view -/

section

variable {v : View} {offset width : Nat} {allowed : List Fault}

theorem Memory.boundsIn_check (h : v.Spans offset width) (m : Memory) (mode : Mode) :
    (m.check v offset width mode).BoundsIn allowed := by
  intro f hf hk
  exact absurd ⟨h.word, h.inside⟩ (check_eq_bounds.mp ⟨f, hf, hk⟩).2

theorem Memory.boundsIn_readBytes (h : v.Spans offset width) (m : Memory) :
    (m.readBytes v offset width).BoundsIn allowed :=
  (boundsIn_check h m .read).bind fun _ => Checked.boundsIn_ok _

theorem Memory.boundsIn_readBits (h : v.Spans offset width) (m : Memory) :
    (m.readBits v offset width).BoundsIn allowed :=
  (boundsIn_readBytes h m).bind fun _ => Checked.boundsIn_ok _

theorem Memory.boundsIn_readInt {k : IntKind} (h : v.Spans offset k.bytes) (m : Memory) :
    (m.readInt v offset k).BoundsIn allowed :=
  (boundsIn_readBits h m).bind fun _ => Checked.boundsIn_ok _

theorem Memory.boundsIn_readString (h : v.Spans offset width) (m : Memory) :
    (m.readString v offset (some width)).BoundsIn allowed :=
  (boundsIn_readBytes h m).bind fun _ => Checked.boundsIn_ok _

theorem Memory.boundsIn_writeBytes {bytes : List UInt8} (h : v.Spans offset bytes.length)
    (m : Memory) : (m.writeBytes v offset bytes).BoundsIn allowed :=
  (boundsIn_check h m .write).bind fun _ => Checked.boundsIn_ok _

theorem Memory.boundsIn_writeBits (h : v.Spans offset width) (bits : Nat) (m : Memory) :
    (m.writeBits v offset width bits).BoundsIn allowed :=
  boundsIn_writeBytes (by rw [View.length_encode]; exact h) m

theorem Memory.boundsIn_copy {src : View} (h : v.Spans offset width) (hs : src.Spans 0 width)
    (m : Memory) : (m.copy v offset src width).BoundsIn allowed :=
  (boundsIn_check hs m .read).bind fun _ => (boundsIn_check h m .write).bind fun _ =>
    Checked.boundsIn_ok _

theorem Memory.boundsIn_clear (h : v.size < wordLimit) (m : Memory) :
    (m.clear v).BoundsIn allowed := by
  unfold clear
  split
  · exact Checked.boundsIn_error (by simp [Fault.kind])
  · exact (boundsIn_check ⟨by omega, by omega⟩ m .write).bind fun _ => Checked.boundsIn_ok _

/-- A slice that ends inside the view is refused by nothing but the end of the address space. -/
theorem View.boundsIn_slice (h : v.Spans offset width) :
    (Act.ofOutcome (v.slice offset width)).BoundsIn allowed := by
  intro w w' f hx _
  have hslice := (Prod.mk.inj hx).1
  rw [slice, if_pos ⟨h.word, h.inside⟩] at hslice
  cases ha : addWords v.address offset with
  | none => rw [ha] at hslice; cases hslice
  | some address => rw [ha] at hslice; cases hslice

theorem Memory.boundsIn_allocateBuffer (size : Nat) (m : Memory) :
    (m.allocateBuffer 1 size).BoundsIn allowed := by
  unfold allocateBuffer totalSize
  cases mulWords 1 size with
  | none => exact Checked.boundsIn_error (by decide)
  | some total =>
    refine Checked.BoundsIn.bind (Checked.boundsIn_ok total) fun total => ?_
    dsimp only
    split
    · exact Checked.BoundsIn.bind (Checked.boundsIn_error (by simp [Fault.kind])) fun _ =>
        Checked.boundsIn_ok _
    · exact Checked.boundsIn_ok _

theorem boundsIn_elementOffset {c : Ty} {n i : Nat} (h : v.Spans offset (c.size * n)) (hi : i < n) :
    elementOffset v offset c i = .ok (i * c.size + offset) ∧
      v.Spans (i * c.size + offset) c.size := by
  have hmul : i * c.size + c.size ≤ c.size * n := element_le hi
  have hword := h.word
  exact ⟨elementOffset_eq (by omega), h.part (by omega)⟩

end

/-! ## Values on their way in -/

/-- The faults with which the objects in a value refuse to give their address. -/
def Value.refusals : Value → List Fault
  | .array items => items.flatMap Value.refusals
  | .object _ (.error f) => [f]
  | _ => []

namespace Value

variable {allowed : List Fault}

theorem refusals_subset {items : List Value} {x : Value} (hx : x ∈ items) :
    x.refusals ⊆ (Value.array items).refusals := by
  intro f hf
  rw [refusals]
  exact List.mem_flatMap.mpr ⟨x, hx, hf⟩

theorem boundsIn_toInt (value : Value) (k : IntKind) : (value.toInt k).BoundsIn allowed := by
  cases value with
  | int i =>
    simp only [toInt]
    split
    · exact Checked.boundsIn_error (by simp [Fault.kind])
    · exact Checked.boundsIn_ok i
  | _ => exact Checked.boundsIn_error (by simp [mismatch, Fault.kind])

theorem boundsIn_toFloat (value : Value) : value.toFloat.BoundsIn allowed := by
  cases value with
  | int i => exact Checked.boundsIn_ok _
  | float bits => exact Checked.boundsIn_ok bits
  | _ => exact Checked.boundsIn_error (by simp [mismatch, Fault.kind])

theorem boundsIn_toBool (value : Value) : value.toBool.BoundsIn allowed := by
  cases value with
  | bool b => exact Checked.boundsIn_ok b
  | _ => exact Checked.boundsIn_error (by simp [mismatch, Fault.kind])

theorem boundsIn_toEnum (value : Value) (own : Option Enumeration) (tables : Option Enums) :
    (value.toEnum own tables).BoundsIn allowed := by
  unfold toEnum
  split
  · split
    · exact Checked.boundsIn_ok _
    · exact Checked.boundsIn_error (by simp [Fault.kind])
  · exact boundsIn_toInt _ .int32

theorem boundsIn_answeredAddress (value : Value) : value.answeredAddress.BoundsIn allowed := by
  cases value with
  | nil => exact Checked.boundsIn_ok 0
  | pointer v => exact Checked.boundsIn_ok _
  | struct s => exact Checked.boundsIn_ok _
  | _ => exact Checked.boundsIn_error (by simp [mismatch, Fault.kind])

/-- An address is asked for; only the answer of an object may be a fault of being out of bounds. -/
theorem boundsIn_toAddress (value : Value) : value.toAddress.BoundsIn value.refusals := by
  cases value with
  | nil => exact Checked.boundsIn_ok 0
  | pointer v => exact Checked.boundsIn_ok _
  | struct s => exact Checked.boundsIn_ok _
  | function f => exact Checked.boundsIn_ok _
  | int i =>
    simp only [toAddress, addressOfInt]
    split
    · exact Checked.boundsIn_ok _
    split
    · exact Checked.boundsIn_ok _
    · exact Checked.boundsIn_error (by simp [Fault.kind])
  | object id answer =>
    cases answer with
    | ok value => exact boundsIn_answeredAddress value
    | error f =>
      intro g hg _
      rw [refusals, ← Except.error.inj hg]
      exact List.mem_singleton_self f
  | _ => exact Checked.boundsIn_error (by simp [mismatch, Fault.kind])

end Value

/-! ## Reading and writing a field -/

section

variable {v : View} {offset : Nat} {allowed : List Fault}

theorem boundsIn_stringFrom (address : Nat) : (Act.stringFrom address).BoundsIn allowed := by
  refine (Act.boundsIn_view _).bind fun text => ?_
  cases text with
  | none => exact Act.boundsIn_pure _
  | some bytes => exact Act.Total.boundsIn fun _ => ⟨_, _, rfl⟩

theorem View.boundsIn_get {b : Builtin} (h : v.Spans offset b.size) :
    (v.get (.builtin b) offset).BoundsIn allowed := by
  cases b with
  | int k =>
    exact (Act.boundsIn_read fun m => m.boundsIn_readInt h).bind fun _ => Act.boundsIn_pure _
  | float k =>
    exact (Act.boundsIn_read fun m => m.boundsIn_readBits h).bind fun _ => Act.boundsIn_pure _
  | bool =>
    exact (Act.boundsIn_read fun m => m.boundsIn_readInt h).bind fun _ => Act.boundsIn_pure _
  | pointer r =>
    refine (Act.boundsIn_read fun m => ?_).bind fun _ => Act.boundsIn_pure _
    exact (m.boundsIn_readBits h).bind fun _ => Checked.boundsIn_ok _
  | string => exact (Act.boundsIn_read fun m => m.boundsIn_readBits h).bind boundsIn_stringFrom
  | void => exact Act.boundsIn_refuse (by simp [noAccessor, Fault.kind])
  | varargs => exact Act.boundsIn_refuse (by simp [noAccessor, Fault.kind])

/-- A field that ends inside the view is read. -/
theorem Ty.boundsIn_getField (retention : Nat) : ∀ (t : Ty) (name : String) (offset : Nat),
    v.Spans offset t.size → (t.getField v retention name offset).BoundsIn allowed
  | .builtin b, name, offset, h => by
    cases b with
    | string => exact (Act.boundsIn_read fun m => m.boundsIn_readBits h).bind boundsIn_stringFrom
    | _ => exact View.boundsIn_get h
  | .array c n, name, offset, h => by
    refine (Act.boundsIn_mapM fun i hi => ?_).bind fun _ => Act.boundsIn_pure _
    obtain ⟨hplace, hspans⟩ := boundsIn_elementOffset h (List.mem_range.mp hi)
    rw [hplace]
    exact c.boundsIn_getField retention _ _ hspans
  | .charArray n, name, offset, h =>
    (Act.boundsIn_read fun m => m.boundsIn_readString h).bind fun _ =>
      Act.Total.boundsIn fun _ => ⟨_, _, rfl⟩
  | .struct l, name, offset, h =>
    (View.boundsIn_slice h).bind fun _ => Act.boundsIn_pure _
  | .enumeration table, name, offset, h => by
    refine (Act.boundsIn_read fun m => m.boundsIn_readInt h).bind fun i => ?_
    split
    · exact Act.boundsIn_pure _
    · exact Act.boundsIn_refuse (by simp [Fault.kind])
  | .callback signature, name, offset, h =>
    (Act.boundsIn_read fun m => m.boundsIn_readBits h).bind fun _ => Act.boundsIn_pure _

/-- A value that has been checked is written. -/
theorem boundsIn_checkedBits {α : Type} {c : Checked α} {width : Nat} {bits : α → Nat}
    (hc : c.BoundsIn allowed) (h : v.Spans offset width) : Act.BoundsIn (do
      let r ← Act.ofChecked c
      Act.write fun m => m.writeBits v offset width (bits r)) allowed :=
  (Act.boundsIn_ofChecked hc).bind fun _ => Act.boundsIn_write fun m => m.boundsIn_writeBits h _

theorem View.boundsIn_put {b : Builtin} (h : v.Spans offset b.size) (value : Value) :
    (v.put (.builtin b) offset value).BoundsIn value.refusals := by
  cases b with
  | int k => exact boundsIn_checkedBits (value.boundsIn_toInt k) h
  | float k => exact boundsIn_checkedBits value.boundsIn_toFloat h
  | bool => exact boundsIn_checkedBits value.boundsIn_toBool h
  | pointer r => exact boundsIn_checkedBits value.boundsIn_toAddress h
  | string =>
    cases value with
    | str id => exact Act.boundsIn_refuse (by simp [Fault.kind])
    | _ => exact boundsIn_checkedBits (Value.boundsIn_toAddress _) h
  | void => exact Act.boundsIn_refuse (by simp [noAccessor, Fault.kind])
  | varargs => exact Act.boundsIn_refuse (by simp [noAccessor, Fault.kind])

/-- A callback is refused for want of a trampoline alone. -/
theorem boundsIn_makeCallback (signature : Signature) (closure : Nat) :
    (makeCallback signature closure).BoundsIn allowed := by
  intro w w' f h hk
  unfold makeCallback at h
  split at h
  · cases (Prod.mk.inj h).1
  · split at h
    · cases (Prod.mk.inj h).1
    · split at h
      next hbind =>
        obtain rfl := Failure.fault.inj (Except.error.inj (Prod.mk.inj h).1)
        rcases Pool.acquire_eq_error (Pool.bind_eq_error hbind) with rfl | rfl <;> cases hk
      next => cases (Prod.mk.inj h).1

theorem boundsIn_putFunction (h : v.Spans offset addressSize) (retention : Nat)
    (signature : Signature) (value : Value) :
    (putFunction v retention offset signature value).BoundsIn value.refusals := by
  have hpointee : (pointee signature value).BoundsIn value.refusals := by
    cases value with
    | proc closure =>
      exact (boundsIn_makeCallback signature closure).bind fun _ =>
        (Act.boundsIn_view _).bind fun _ => Act.boundsIn_pure _
    | function f => exact Act.boundsIn_pure _
    | _ =>
      exact (Act.boundsIn_ofChecked (Value.boundsIn_toAddress _)).bind fun _ => Act.boundsIn_pure _
  rw [putFunction_eq]
  refine hpointee.bind fun p => ?_
  refine (Act.boundsIn_write fun m => m.boundsIn_writeBits h _).bind fun _ => ?_
  exact Act.Total.boundsIn fun _ => ⟨_, _, rfl⟩

end

/-! ## Structs whose view reaches as far as their layout -/

/-- A struct of a layout that has been built, over a view of at least its size. -/
structure Instance.Covered (s : Instance) : Prop where
  built : Ty.Built (.struct s.layout)
  fits : s.size ≤ s.view.size

/-- What stands inside the struct ends inside its view. -/
theorem Instance.Covered.spans {s : Instance} (h : s.Covered) {o : Nat} {u : Ty}
    (hu : (Ty.struct s.layout).Has o u) : s.view.Spans o u.size := by
  have hin : o + u.size ≤ s.size := h.built.has_inside hu
  refine ⟨Nat.lt_of_le_of_lt hin ?_, Nat.le_trans hin h.fits⟩
  cases h.built with
  | struct hplan hfields => exact LayoutPlan.size_lt_of_build hplan hfields

theorem Instance.Covered.field_built {s : Instance} (h : s.Covered) {f : Field}
    (hf : f ∈ s.layout.fields) : f.ty.Built :=
  h.built.of_has (.field hf (.self _))

theorem Instance.Covered.spans_field {s : Instance} (h : s.Covered) {f : Field}
    (hf : f ∈ s.layout.fields) : s.view.Spans f.offset f.ty.size :=
  h.spans (.field (o := 0) hf (.self _))

section

variable {v : View} {offset : Nat} {allowed : List Fault}

theorem boundsIn_putStruct {layout : Layout} (h : v.Spans offset layout.size) {value : Value}
    (hs : ∀ s ∈ value.structs, s.Covered) : (putStruct v offset layout value).BoundsIn allowed := by
  unfold putStruct
  split
  next s =>
    split
    next hsame =>
      have hspans : s.view.Spans 0 layout.size :=
        hsame.1 ▸ (hs s (by simp [Value.structs])).spans (.self _)
      exact Act.boundsIn_write fun m => m.boundsIn_copy h hspans
    · exact Act.boundsIn_refuse (by simp [Fault.kind])
  · exact Act.boundsIn_refuse (by simp [Value.mismatch, Fault.kind])

/-- A scratch copy of a field is of its size. -/
theorem boundsIn_stage_bind {α : Type} {size : Nat} (h : v.Spans offset size) {f : View → Act α}
    (hf : ∀ staged : View, staged.size = size → staged.Spans 0 size →
      (f staged).BoundsIn allowed) :
    (stage v offset size >>= f).BoundsIn allowed := by
  have hword : 0 + size < wordLimit := Nat.lt_of_le_of_lt (by omega) h.word
  rw [stage_bind_eq]
  refine (Act.boundsIn_make fun m => m.boundsIn_allocateBuffer size).bind_of_ok
    fun staged w w' hmake => ?_
  obtain ⟨m, hbuffer, -⟩ := Act.make_eq_ok.mp hmake
  have hsize := (Memory.allocateBuffer_eq_ok (Checked.outcome_eq_ok.mp hbuffer)).1
  have hstaged : staged.Spans 0 size := ⟨hword, by omega⟩
  refine (View.boundsIn_slice h).bind_of_ok fun field w w' hslice => ?_
  obtain ⟨rfl, -⟩ := View.slice_eq_ok (Act.ofOutcome_eq_ok.mp hslice).1
  have hfield : (v.derive (v.address + offset) size).Spans 0 size :=
    ⟨hword, Nat.le_of_eq (Nat.zero_add _)⟩
  exact (Act.boundsIn_write fun m => m.boundsIn_copy hstaged hfield).bind fun _ =>
    hf staged hsize hstaged

theorem boundsIn_putStaged {size : Nat} (h : v.Spans offset size) {fill : View → Act Unit}
    (hf : ∀ staged : View, staged.size = size → staged.Spans 0 size →
      (fill staged).BoundsIn allowed) :
    (putStaged v offset size fill).BoundsIn allowed :=
  boundsIn_stage_bind h fun staged hsize hs =>
    (hf staged hsize hs).bind fun _ => Act.boundsIn_write fun m => m.boundsIn_copy h hs

/-- Items are put at places below the length. -/
theorem boundsIn_putItems {length : Nat} {putItem : Nat → Value → Act Unit} {value : Value}
    (hp : ∀ i < length, ∀ x : Value, x.structs ⊆ value.structs →
      (putItem i x).BoundsIn x.refusals) :
    (putItems length putItem value).BoundsIn value.refusals := by
  unfold putItems
  split
  next items =>
    split
    · rw [Act.refuse_bind]
      exact Act.boundsIn_refuse (by simp [Fault.kind])
    next hlen =>
      refine Act.boundsIn_forM fun r hr => ?_
      have hmem := List.mem_zipIdx hr
      have hx : r.1 ∈ items := hmem.2.2 ▸ List.getElem_mem _
      exact (hp r.2 (by omega) r.1 (Value.structs_subset hx)).mono (Value.refusals_subset hx)
  · exact Act.boundsIn_refuse (by simp [Value.mismatch, Fault.kind])

theorem boundsIn_putChars {length : Nat} (h : v.Spans 0 length) (hv : v.size = length) (id : Nat) :
    (putChars v length id).BoundsIn allowed := by
  have hword : v.size < wordLimit := by
    have := h.word
    omega
  refine (Act.boundsIn_view _).bind fun bytes => ?_
  dsimp only
  split
  · rw [Act.refuse_bind]
    exact Act.boundsIn_refuse (by simp [Fault.kind])
  next hlen =>
    refine (Act.boundsIn_write fun m => m.boundsIn_clear hword).bind fun _ => ?_
    exact Act.boundsIn_write fun m => m.boundsIn_writeBytes (h.part (by omega))

/-- What goes into a character array: a string, or characters. -/
theorem boundsIn_fillChars {n : Nat} (h : v.Spans 0 n) (hv : v.size = n) (value : Value) :
    Act.BoundsIn (match value with
      | .str id => putChars v n id
      | value => putItems n (fun i item => v.put Ty.char.kind i item) value) value.refusals := by
  split
  · exact boundsIn_putChars h hv _
  · refine boundsIn_putItems fun i hi x _ => View.boundsIn_put (h.part ?_) x
    show i + 1 ≤ 0 + n
    omega

/-- A value put in a field that ends inside the view is refused for being out of bounds only if an
object in it refuses so. -/
theorem Ty.boundsIn_putField (retention : Nat) : ∀ (t : Ty) (v : View) (offset : Nat)
    (value : Value), v.Spans offset t.size → (∀ s ∈ value.structs, s.Covered) →
      (t.putField v retention offset value).BoundsIn value.refusals
  | .builtin b, v, offset, value, h, _ => by
    cases b with
    | string =>
      cases value with
      | str id => exact Act.boundsIn_refuse (by simp [Fault.kind])
      | _ => exact boundsIn_checkedBits (Value.boundsIn_toAddress _) h
    | _ => exact View.boundsIn_put h value
  | .array c n, v, offset, value, h, hs => by
    refine boundsIn_putStaged h fun staged _ hstaged => boundsIn_putItems fun i hi x hx => ?_
    obtain ⟨hplace, hspans⟩ := boundsIn_elementOffset hstaged hi
    rw [hplace]
    exact c.boundsIn_putField retention staged _ x hspans fun s h => hs s (hx h)
  | .charArray n, v, offset, value, h, _ =>
    boundsIn_putStaged h fun _ hsize hstaged => boundsIn_fillChars hstaged hsize value
  | .struct l, v, offset, value, h, hs => boundsIn_putStruct h hs
  | .enumeration table, v, offset, value, h, _ => boundsIn_checkedBits (value.boundsIn_toEnum _ _) h
  | .callback signature, v, offset, value, h, _ =>
    boundsIn_putFunction h retention signature value

end

/-! ## Structs that are at hand -/

namespace Instance

/-- A struct that has been made, with or without bytes for it, or laid over memory, or read out of a
field of one of these or out of an element of such a field, to any depth. -/
inductive Available : Instance → Prop where
  | made {l : Layout} {s : Instance} {w w' : World} (hl : Ty.Built (.struct l))
      (h : make l w = (.ok s, w')) : Available s
  | copied {l : Layout} {bytes : List UInt8} {s : Instance} {w w' : World}
      (hl : Ty.Built (.struct l)) (h : ofBytes l bytes w = (.ok s, w')) : Available s
  | overlaid {l : Layout} {v : View} {s : Instance} {w w' : World} (hl : Ty.Built (.struct l))
      (h : overlay l v w = (.ok s, w')) : Available s
  | field {s n : Instance} {name : String} {value : Value} {w w' : World} (hs : Available s)
      (h : s.get name w = (.ok value, w')) (hn : n ∈ value.structs) : Available n
  | element {s n : Instance} {a : InlineArray} {name : String} {i : Nat} {value : Value}
      {w₀ w₁ w w' : World} (hs : Available s) (ha : InlineArray.ofField s name w₀ = (.ok a, w₁))
      (hi : i < a.length) (h : a.get i w = (.ok value, w')) (hn : n ∈ value.structs) : Available n

variable {s n : Instance} {w w' : World} {name : String} {value : Value}

theorem covered_of_make {l : Layout} (hl : Ty.Built (.struct l)) (h : make l w = (.ok s, w')) :
    s.Covered := by
  obtain ⟨v, w₁, hv, h⟩ := Act.bind_eq_ok.mp h
  obtain ⟨m, hallocate, rfl⟩ := Act.make_eq_ok.mp hv
  obtain ⟨address, heap, -, rfl, -⟩ := Memory.allocate_eq_ok hallocate
  obtain ⟨retention, w₂, -, h⟩ := Act.bind_eq_ok.mp h
  obtain ⟨rfl, -⟩ := Act.pure_eq_ok.mp h
  exact ⟨hl, Nat.le_refl l.size⟩

theorem covered_of_ofBytes {l : Layout} {bytes : List UInt8} (hl : Ty.Built (.struct l))
    (h : ofBytes l bytes w = (.ok s, w')) : s.Covered := by
  obtain ⟨t, w₁, hmake, h⟩ := Act.bind_eq_ok.mp h
  obtain ⟨⟨⟩, w₂, -, h⟩ := Act.bind_eq_ok.mp h
  obtain ⟨rfl, -⟩ := Act.pure_eq_ok.mp h
  exact covered_of_make hl hmake

theorem covered_of_overlay {l : Layout} {v : View} (hl : Ty.Built (.struct l))
    (h : overlay l v w = (.ok s, w')) : s.Covered := by
  unfold overlay at h
  dsimp only at h
  split at h
  · rw [Act.refuse_bind] at h
    exact absurd h Act.refuse_ne_ok
  split at h
  · rw [Act.refuse_bind] at h
    exact absurd h Act.refuse_ne_ok
  next hle =>
    obtain ⟨retention, w₂, -, h⟩ := Act.bind_eq_ok.mp h
    obtain ⟨rfl, -⟩ := Act.pure_eq_ok.mp h
    exact ⟨hl, Nat.le_of_not_lt hle⟩

/-- What is read out of a type that has been built is covered. -/
theorem covered_of_getField {t : Ty} (ht : t.Built) {v : View} {retention offset : Nat}
    (h : t.getField v retention name offset w = (.ok value, w')) (hn : n ∈ value.structs) :
    n.Covered := by
  obtain ⟨-, hsize, o, hhas, -⟩ := t.structs_getField h hn
  exact ⟨ht.of_has hhas, Nat.le_of_eq hsize.symm⟩

/-- Every struct at hand is covered: nothing gives a struct whose view is too short for it. -/
theorem Available.covered (h : s.Available) : s.Covered := by
  induction h with
  | made hl h => exact covered_of_make hl h
  | copied hl h => exact covered_of_ofBytes hl h
  | overlaid hl h => exact covered_of_overlay hl h
  | @field s n name value w w' _ h hn ih =>
    obtain ⟨f, w₁, hf, hget⟩ := Act.bind_eq_ok.mp h
    exact covered_of_getField (ih.field_built (field_eq_ok hf).2.1) hget hn
  | element _ ha _ h hn ih =>
    obtain ⟨f, hf, hparts, -⟩ := ofField_eq_ok ha
    obtain ⟨o, w₁, -, hget⟩ := Act.bind_eq_ok.mp h
    have hfield := ih.field_built (List.mem_of_find?_eq_some hf)
    exact covered_of_getField (hfield.of_arrayParts hparts) hget hn

end Instance

/-! ## Accesses to declared fields -/

/-- Every struct in the value is at hand. -/
def Value.Available (value : Value) : Prop := ∀ s ∈ value.structs, s.Available

theorem Value.Available.covered {value : Value} (h : value.Available) :
    ∀ s ∈ value.structs, s.Covered :=
  fun s hs => (h s hs).covered

/-- No access to a declared element is out of bounds, whatever the state of the world. Only an
object in a value that is put may refuse so. -/
structure InlineArray.InBounds (a : InlineArray) : Prop where
  get : ∀ i < a.length, (a.get i).BoundsIn []
  put : ∀ i < a.length, ∀ value : Value, value.Available → (a.put i value).BoundsIn value.refusals
  values : a.values.BoundsIn []
  bytes : a.bytes.BoundsIn []
  text : a.text.BoundsIn []

/-- What stands inside the struct lies in its view, and no access to a declared field is out of
bounds, whatever the state of the world. Only an object in a value that is put may refuse so. -/
structure Instance.InBounds (s : Instance) : Prop where
  spans : ∀ (o : Nat) (u : Ty), (Ty.struct s.layout).Has o u → s.view.Spans o u.size
  get : ∀ name : String, (s.get name).BoundsIn []
  put : ∀ (name : String) (value : Value), value.Available →
    (s.put name value).BoundsIn value.refusals
  array : ∀ name : String, (InlineArray.ofField s name).BoundsIn []
  elements : ∀ (name : String) (a : InlineArray) (w w' : World),
    InlineArray.ofField s name w = (.ok a, w') → a.InBounds
  values : s.values.BoundsIn []
  bytes : s.bytes.BoundsIn []
  clear : s.clear.BoundsIn []

namespace Instance

variable {s : Instance} {allowed : List Fault}

theorem boundsIn_field (s : Instance) (name : String) : (s.field name).BoundsIn allowed := by
  unfold field
  split
  · exact Act.boundsIn_pure _
  · exact Act.boundsIn_refuse (by simp [Fault.kind])

theorem boundsIn_ofField (s : Instance) (name : String) :
    (InlineArray.ofField s name).BoundsIn allowed := by
  refine (s.boundsIn_field name).bind fun f => ?_
  split
  · exact Act.boundsIn_pure _
  · exact Act.boundsIn_refuse (by simp [Fault.kind])

theorem Covered.boundsIn_getField (hs : s.Covered) {f : Field} (hf : f ∈ s.layout.fields) :
    (s.getField f).BoundsIn allowed :=
  f.ty.boundsIn_getField s.retention f.name f.offset (hs.spans_field hf)

theorem Covered.boundsIn_put (hs : s.Covered) (name : String) {value : Value}
    (hv : ∀ n ∈ value.structs, n.Covered) : (s.put name value).BoundsIn value.refusals :=
  (s.boundsIn_field name).bind_of_ok fun f _ _ hf =>
    f.ty.boundsIn_putField s.retention s.view f.offset value
      (hs.spans_field (field_eq_ok hf).2.1) hv

theorem Covered.boundsIn_clear (hs : s.Covered) : s.clear.BoundsIn allowed := by
  have hspans := hs.spans (.self _)
  refine (View.boundsIn_slice hspans).bind_of_ok fun whole w w' hslice => ?_
  obtain ⟨rfl, -⟩ := View.slice_eq_ok (Act.ofOutcome_eq_ok.mp hslice).1
  have hword : s.size < wordLimit := Nat.lt_of_le_of_lt (Nat.le_add_left ..) hspans.word
  refine (Act.boundsIn_write fun m => m.boundsIn_clear hword).bind fun _ => ?_
  -- the end of the struct may lie beyond the last address, which is an abort and no fault
  have hstop : (Act.ofOutcome (orOverflow (addWords s.address s.size))).BoundsIn allowed := by
    intro w w' f h _
    cases hend : addWords s.address s.size <;> rw [hend] at h <;> cases (Prod.mk.inj h).1
  exact hstop.bind fun stop => Act.Total.boundsIn fun _ => ⟨_, _, rfl⟩

/-- The array of a field that lies in the view. -/
theorem Covered.spans_array (hs : s.Covered) {name : String} {a : InlineArray} {w w' : World}
    (ha : InlineArray.ofField s name w = (.ok a, w')) :
    a.view.Spans a.offset (a.component.size * a.length) := by
  obtain ⟨f, hf, hparts, hview, hoffset, -⟩ := ofField_eq_ok ha
  rw [hview, hoffset, Ty.size_arrayParts hparts]
  exact hs.spans_field (List.mem_of_find?_eq_some hf)

/-- The elements of a character array are characters. -/
theorem component_of_isChars {name : String} {a : InlineArray} {w w' : World}
    (ha : InlineArray.ofField s name w = (.ok a, w')) (hchars : a.isChars = true) :
    a.component = .char := by
  obtain ⟨f, w₁, -, ha⟩ := Act.bind_eq_ok.mp ha
  cases hty : f.ty with
  | array c n =>
    rw [hty] at ha
    obtain ⟨rfl, -⟩ := Act.pure_eq_ok.mp ha
    cases hchars
  | charArray n =>
    rw [hty] at ha
    obtain ⟨rfl, -⟩ := Act.pure_eq_ok.mp ha
    rfl
  | _ =>
    rw [hty] at ha
    exact absurd ha Act.refuse_ne_ok

end Instance

namespace InlineArray

variable {a : InlineArray} {allowed : List Fault}

/-- An element of an array that lies in its view. -/
theorem boundsIn_get (h : a.view.Spans a.offset (a.component.size * a.length)) {i : Nat}
    (hi : i < a.length) : (a.get i).BoundsIn allowed := by
  obtain ⟨hplace, hspans⟩ := boundsIn_elementOffset h hi
  unfold get
  rw [hplace]
  exact a.component.boundsIn_getField a.retention _ _ hspans

theorem boundsIn_put (h : a.view.Spans a.offset (a.component.size * a.length)) {i : Nat}
    (hi : i < a.length) {value : Value} (hv : ∀ s ∈ value.structs, s.Covered) :
    (a.put i value).BoundsIn value.refusals := by
  obtain ⟨hplace, hspans⟩ := boundsIn_elementOffset h hi
  unfold put
  rw [hplace]
  exact a.component.boundsIn_putField a.retention a.view _ value hspans hv

theorem boundsIn_text (h : a.view.Spans a.offset (a.component.size * a.length))
    (hchars : a.isChars = true → a.component = .char) : a.text.BoundsIn allowed := by
  unfold text
  split
  next hc =>
    rw [hchars hc] at h
    have hlength : a.view.Spans a.offset a.length :=
      h.part (Nat.le_of_eq (congrArg (a.offset + ·) (Nat.one_mul _).symm))
    exact (Act.boundsIn_read fun m => m.boundsIn_readString hlength).bind fun _ =>
      Act.boundsIn_pure _
  · exact Act.boundsIn_refuse (by simp [Fault.kind])

theorem inBounds_of_spans (h : a.view.Spans a.offset (a.component.size * a.length))
    (hchars : a.isChars = true → a.component = .char) : a.InBounds where
  get _ hi := boundsIn_get h hi
  put _ hi _ hv := boundsIn_put h hi hv.covered
  values := Act.boundsIn_mapM fun _ hi => boundsIn_get h (List.mem_range.mp hi)
  bytes := Act.boundsIn_read fun m => m.boundsIn_readBytes h
  text := boundsIn_text h hchars

end InlineArray

namespace Instance

/--
Whatever is done with the declared fields and elements of a struct at hand, no access is out of
bounds: each of them lies in the view. Only an object in a value that is put may refuse so.
-/
theorem Available.in_bounds {s : Instance} (h : s.Available) : s.InBounds where
  spans _ _ hu := h.covered.spans hu
  get name := (s.boundsIn_field name).bind_of_ok fun _ _ _ hf =>
    h.covered.boundsIn_getField (field_eq_ok hf).2.1
  put name _ hv := h.covered.boundsIn_put name hv.covered
  array name := s.boundsIn_ofField name
  elements _ _ _ _ ha :=
    InlineArray.inBounds_of_spans (h.covered.spans_array ha) (component_of_isChars ha)
  values := Act.boundsIn_mapM fun _ hf => h.covered.boundsIn_getField hf
  bytes := Act.boundsIn_read fun m => m.boundsIn_readBytes (h.covered.spans (.self _))
  clear := h.covered.boundsIn_clear

/-! ## Points in a frame -/

/-- A point of two integers. -/
def point : Layout := ⟨[⟨"x", 0, .int32⟩, ⟨"y", 4, .int32⟩], 8, 4, false, true⟩

/-- Two points and a pointer. -/
def frame : Layout :=
  ⟨[⟨"corners", 0, .array (.struct point) 2⟩, ⟨"owner", 16, .builtin (.pointer .plain)⟩],
    24, 8, false, true⟩

/-- A frame over memory without known end. -/
def framed : Instance := ⟨frame, .pointer 4096, 0⟩

theorem built_point : Ty.Built (.struct point) := by
  refine @Ty.Built.struct (.ofFields [⟨"x", .descriptor ⟨.int32, 0⟩, none⟩,
    ⟨"y", .descriptor ⟨.int32, 0⟩, none⟩] false) _ rfl ?_
  simp only [point, List.forall_mem_cons, List.not_mem_nil, false_implies, implies_true, and_true]
  exact ⟨.builtin _, .builtin _⟩

theorem built_frame : Ty.Built (.struct frame) := by
  refine @Ty.Built.struct (.ofFields [⟨"corners", .descriptor ⟨.array (.struct point) 2, 0⟩, none⟩,
    ⟨"owner", .descriptor ⟨.builtin (.pointer .plain), 0⟩, none⟩] false) _ rfl ?_
  simp only [frame, List.forall_mem_cons, List.not_mem_nil, false_implies, implies_true, and_true]
  exact ⟨.array 2 built_point, .builtin _⟩

theorem available_framed : framed.Available :=
  .overlaid (l := frame) (v := .pointer 4096) (w := World.start) built_frame rfl

/-- The second corner of the frame is at hand, and its second number is in bounds. -/
theorem Available.in_bounds_corner : ∃ n : Instance, n.Available ∧ n.address = 4104 ∧
    n.view.Spans 4 4 ∧ (n.get "y").BoundsIn [] := by
  have harray : InlineArray.ofField framed "corners" World.start =
      (.ok ⟨.pointer 4096, 0, .struct point, 2, false, 0⟩, World.start) := rfl
  have hcorner : Available ⟨point, (View.pointer 4096).derive 4104 8, 0⟩ :=
    available_framed.element harray (show (1 : Nat) < 2 by decide) (w := World.start) rfl
      (by rw [Value.structs]; exact List.mem_singleton_self _)
  have hbounds := hcorner.in_bounds
  exact ⟨_, hcorner, rfl, hbounds.spans 4 .int32 (.field (o := 0) (f := ⟨"y", 4, .int32⟩)
    (by simp [point]) (.self _)), hbounds.get "y"⟩

/-- An object that refuses to give its address as if an access were out of bounds: the put of it is
refused so too. -/
theorem Available.put_refusing : framed.Available ∧
    (Value.object 0 (.error (.bounds 0 1 1))).Available ∧
    framed.put "owner" (.object 0 (.error (.bounds 0 1 1))) World.start =
      (.error (.fault (.bounds 0 1 1)), World.start) :=
  ⟨available_framed, by simp [Value.Available, Value.structs], rfl⟩

end Instance

end ForeignCall
