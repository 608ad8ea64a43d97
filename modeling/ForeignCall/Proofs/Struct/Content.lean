import ForeignCall.Memory.CString
import ForeignCall.Proofs.Built
import ForeignCall.Proofs.Memory.Blocks

/-!
# What lies in the bytes of a field

`Ty.content` says what the bytes of a type show in a byte order, for the types that are made of
integers, truth values, enumerations and characters (`Ty.isPlain`). It looks at the bytes of the
type and at no others, as long as every layout inside has been built (`Ty.Built`): then the members
of a struct stand inside it.
-/

namespace ForeignCall

/-- An element of an array ends inside the array. -/
theorem element_le {i n size : Nat} (hi : i < n) : i * size + size ≤ size * n := by
  rw [← Nat.succ_mul, Nat.mul_comm size]
  exact Nat.mul_le_mul_right _ hi

/-! ## Contents -/

/-- What bytes show. -/
inductive Content where
  | int (i : Int)
  | bool (b : Bool)
  | symbol (name : String)
  /-- An integer that the table of an enumeration does not have. -/
  | unmapped (i : Int)
  | text (bytes : List UInt8)
  | array (items : List Content)
  | struct (members : List Content)
  /-- Bytes of any other type. -/
  | other

/-- The bit pattern of bytes in a byte order. -/
def decodeIn (swapped : Bool) (bytes : List UInt8) : Nat :=
  Bytes.toNat (if swapped then bytes.reverse else bytes)

/-- The bytes of a bit pattern in a byte order. -/
def encodeIn (swapped : Bool) (width bits : Nat) : List UInt8 :=
  if swapped then (Bytes.ofNat width bits).reverse else Bytes.ofNat width bits

@[simp] theorem length_encodeIn (swapped : Bool) (width bits : Nat) :
    (encodeIn swapped width bits).length = width := by
  unfold encodeIn
  split <;> simp

theorem decodeIn_encodeIn (swapped : Bool) (width bits : Nat) :
    decodeIn swapped (encodeIn swapped width bits) = bits % Bytes.limit width := by
  unfold encodeIn decodeIn
  split <;> simp [Bytes.toNat_ofNat]

theorem decodeIn_lt (swapped : Bool) (bytes : List UInt8) :
    decodeIn swapped bytes < Bytes.limit bytes.length := by
  unfold decodeIn
  split
  · rw [← List.length_reverse]
    exact Bytes.toNat_lt _
  · exact Bytes.toNat_lt _

/-- Only the bit pattern zero stands for zero. -/
theorem IntKind.ofBits_eq_zero (k : IntKind) {bits : Nat} (h : bits < k.modulus) :
    k.ofBits bits = 0 ↔ bits = 0 := by
  have hm : 2 ≤ k.modulus := by
    obtain ⟨signed, width⟩ := k
    cases width <;> simp [IntKind.modulus, Width.modulus]
  unfold IntKind.ofBits
  split <;> omega

/-- What an enumeration shows for an integer: the first symbol declared with it. -/
def Enumeration.shown (table : Enumeration) (i : Int) : Content :=
  match table.symbol? i with
  | some name => .symbol name
  | none => .unmapped i

mutual
/-- What the bytes of a type show, read from an address on in a byte order. -/
def Ty.content (swapped : Bool) (h : Heap) (a : Nat) : Ty → Content
  | .builtin (.int k) => .int (k.ofBits (decodeIn swapped (h.load a k.bytes)))
  | .builtin .bool => .bool (decodeIn swapped (h.load a 4) != 0)
  | .builtin _ => .other
  | .enumeration table => table.shown (IntKind.int32.ofBits (decodeIn swapped (h.load a 4)))
  | .charArray n => .text (Memory.untilNul (h.load a n))
  | .array c n => .array ((List.range n).map fun i => c.content swapped h (a + i * c.size))
  | .struct l => .struct (l.contents swapped h a)
  | .callback _ => .other

/-- What the members of a layout show. -/
def Layout.contents (swapped : Bool) (h : Heap) (a : Nat) : Layout → List Content
  | ⟨fields, _, _, _, _⟩ => fieldContents swapped h a fields

/-- What fields of a layout show. -/
def fieldContents (swapped : Bool) (h : Heap) (a : Nat) : List Field → List Content
  | [] => []
  | ⟨_, offset, ty⟩ :: rest =>
    ty.content swapped h (a + offset) :: fieldContents swapped h a rest
end

theorem fieldContents_eq (swapped : Bool) (h : Heap) (a : Nat) (fields : List Field) :
    fieldContents swapped h a fields =
      fields.map fun f => f.ty.content swapped h (a + f.offset) := by
  induction fields with
  | nil => rfl
  | cons f rest ih =>
    obtain ⟨name, offset, ty⟩ := f
    rw [fieldContents, ih]
    rfl

theorem content_struct (swapped : Bool) (h : Heap) (a : Nat) (l : Layout) :
    (Ty.struct l).content swapped h a =
      .struct (l.fields.map fun f => f.ty.content swapped h (a + f.offset)) := by
  obtain ⟨fields, size, alignment, isUnion, natural⟩ := l
  rw [Ty.content, Layout.contents, fieldContents_eq]

mutual
/-- Whether a type is made of integers, truth values, enumerations and characters. -/
def Ty.isPlain : Ty → Bool
  | .builtin (.int _) => true
  | .builtin .bool => true
  | .builtin _ => false
  | .enumeration _ => true
  | .charArray _ => true
  | .array c _ => c.isPlain
  | .struct l => l.isPlain
  | .callback _ => false

/-- Whether every member of a layout is made of these. -/
def Layout.isPlain : Layout → Bool
  | ⟨fields, _, _, _, _⟩ => fieldsArePlain fields

/-- Whether every field is made of these. -/
def fieldsArePlain : List Field → Bool
  | [] => true
  | ⟨_, _, ty⟩ :: rest => ty.isPlain && fieldsArePlain rest
end

/-! ## Layouts that have been built -/

/-- A placement whose fields all end inside it. -/
def Placement.Holds (placed : Placement) : Prop :=
  ∀ f ∈ placed.fields, f.offset + f.ty.size ≤ placed.size

theorem Placement.Holds.add {plan : LayoutPlan} {placed placed' : Placement} {d : Declaration}
    (hp : placed.Holds) (h : placed.add plan d = .ok placed') : placed'.Holds := by
  -- of all the checks, only the one on the end of the field matters here
  unfold Placement.add at h
  simp only [bind, Except.bind] at h
  split at h
  · cases h
  next ty _ =>
  split at h
  · cases h
  split at h
  · cases h
  next place _ =>
  split at h
  · cases h
  next fieldEnd he =>
  split at h
  · cases h
  split at h
  · cases h
  rw [← Except.ok.inj h]
  have hend : fieldEnd = place.1 + ty.ty.size := by
    unfold orOverflow at he
    split at he
    next s hs =>
      rw [← Except.ok.inj he]
      exact (addWords_eq_some.mp hs).1
    · cases he
  intro f hf
  rcases List.mem_append.mp hf with hf | hf
  · exact Nat.le_trans (hp f hf) (Nat.le_max_left ..)
  · obtain rfl := List.mem_singleton.mp hf
    show place.1 + ty.ty.size ≤ Nat.max placed.size fieldEnd
    rw [hend]
    exact Nat.le_max_right ..

theorem Placement.Holds.foldl {plan : LayoutPlan} {declarations : List Declaration}
    {placed placed' : Placement} (hp : placed.Holds)
    (h : declarations.foldlM (Placement.add plan) placed = .ok placed') : placed'.Holds := by
  induction declarations generalizing placed with
  | nil =>
    rw [← Except.ok.inj h]
    exact hp
  | cons d rest ih =>
    rw [List.foldlM_cons] at h
    cases hd : placed.add plan d with
    | error e => rw [hd] at h; cases h
    | ok next =>
      rw [hd] at h
      exact ih (hp.add hd) h

/-- The fields of a layout that has been built end inside it. -/
theorem LayoutPlan.field_inside {plan : LayoutPlan} {l : Layout} (h : plan.build = .ok l)
    {f : Field} (hf : f ∈ l.fields) : f.offset + f.ty.size ≤ l.size := by
  unfold LayoutPlan.build at h
  simp only [bind, Except.bind] at h
  split at h
  · cases h
  next placed hp =>
  split at h
  · cases h
  next size hs =>
  split at h
  · cases h
  have hl := Except.ok.inj h
  have hsize : placed.size ≤ size := by
    unfold orOverflow alignUp at hs
    split at hs
    next r hr =>
      rw [← Except.ok.inj hs]
      split at hr
      · exact Nat.le_of_eq (Option.some.inj hr)
      split at hr
      · rw [← Option.some.inj hr]
        exact le_roundUp _ (by omega)
      · cases hr
    · cases hs
  have hstart : Placement.Holds plan.start := fun f hf => by cases hf
  rw [← hl] at hf ⊢
  exact Nat.le_trans (hstart.foldl hp f hf) hsize

theorem LayoutPlan.size_pos {plan : LayoutPlan} {l : Layout} (h : plan.build = .ok l) :
    0 < l.size := by
  unfold LayoutPlan.build at h
  simp only [bind, Except.bind] at h
  split at h
  · cases h
  split at h
  · cases h
  next size hs =>
  split at h
  · cases h
  next hz =>
  rw [← Except.ok.inj h]
  exact Nat.pos_of_ne_zero hz

/-! ## Contents depend on the bytes alone -/

/-- The same bytes at two places show the same. -/
theorem Ty.Built.content_congr {t : Ty} (ht : t.Built) {swapped : Bool} {h h' : Heap} {a a' : Nat}
    (hb : ∀ i < t.size, h.get (a + i) = h'.get (a' + i)) :
    t.content swapped h a = t.content swapped h' a' := by
  induction ht generalizing a a' with
  | builtin b =>
    cases b with
    | int k =>
      have hl : h.load a k.bytes = h'.load a' k.bytes := Heap.load_shift hb
      rw [content, content, hl]
    | bool =>
      have hl : h.load a 4 = h'.load a' 4 := Heap.load_shift hb
      rw [content, content, hl]
    | _ => rfl
  | @array c n _ ih =>
    rw [content, content, Content.array.injEq]
    refine List.map_congr_left fun i hi => ih fun j hj => ?_
    have hs : i * c.size + c.size ≤ c.size * n := element_le (List.mem_range.mp hi)
    rw [Nat.add_assoc, Nat.add_assoc]
    exact hb _ (Nat.lt_of_lt_of_le (by omega) hs)
  | charArray n =>
    have hl : h.load a n = h'.load a' n := Heap.load_shift hb
    rw [content, content, hl]
  | enumeration _ =>
    have hl : h.load a 4 = h'.load a' 4 := Heap.load_shift hb
    rw [content, content, hl]
  | callback s => rfl
  | struct hplan _ ih =>
    rw [content_struct, content_struct, Content.struct.injEq]
    refine List.map_congr_left fun f hf => ih f hf fun i hi => ?_
    have hs := LayoutPlan.field_inside hplan hf
    rw [Nat.add_assoc, Nat.add_assoc]
    exact hb _ (Nat.lt_of_lt_of_le (by omega) hs)

end ForeignCall
