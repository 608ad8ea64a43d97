import ForeignCall.Abi.Passing
import ForeignCall.Proofs.Layout.Records
import ForeignCall.Proofs.Struct.Slots

/-!
# The registers of a layout that is cut into chunks

A chunk becomes floats when it is 4 or 8 bytes wide and nothing lies in it but naturally aligned
floats that are no wider (`Layout.HoldsFloats`). Any other chunk becomes an integer, one of padding
alone and one that is narrower than its float included. So an eightbyte travels in a general
register exactly when some chunk of it is no chunk of floats (`Layout.laneAt_record`).

Main statement: `Layout.lanes_rule`. The eightbytes in which something else than an aligned float
lies travel in general registers; of the others all those, and no others, whose chunks keep their
floats travel in floating-point registers. `Layout.lanes_rule_packed` is a float that is cut into
single bytes.
-/

namespace ForeignCall

open Abi Abi.Record

/-! ## Scalars -/

/-- Whether a type has no parts. -/
def Ty.isScalar : Ty → Bool
  | .struct _ => false
  | .array .. => false
  | _ => true

/-- Whether a type is a float, and naturally aligned at an offset. -/
def Ty.isAlignedFloat (offset : Nat) : Ty → Bool
  | .builtin (.float k) => offset % k.bytes == 0
  | _ => false

/-- The member that a scalar at an offset is. -/
def Member.ofScalar (offset : Nat) : Ty → Member
  | .builtin (.float k) => Member.ofFloat offset k
  | u => ⟨offset, u.size, .integer⟩

@[simp] theorem Member.ofScalar_offset (offset : Nat) (u : Ty) :
    (Member.ofScalar offset u).offset = offset := by
  cases u with
  | builtin b =>
    cases b with
    | float k =>
      simp only [ofScalar, ofFloat]
      split <;> rfl
    | _ => rfl
  | _ => rfl

@[simp] theorem Member.ofScalar_width (offset : Nat) (u : Ty) :
    (Member.ofScalar offset u).width = u.size := by
  cases u with
  | builtin b =>
    cases b with
    | float k =>
      simp only [ofScalar, ofFloat]
      split <;> rfl
    | _ => rfl
  | _ => rfl

theorem fieldMembersFrom_eq (start : Nat) (fields : List Field) :
    fieldMembersFrom start fields =
      fields.flatMap fun f => f.ty.membersFrom (start + f.offset) := by
  induction fields with
  | nil => rfl
  | cons f rest ih =>
    obtain ⟨name, offset, ty⟩ := f
    rw [fieldMembersFrom, ih, List.flatMap_cons]

theorem membersFrom_struct (start : Nat) (l : Layout) :
    (Ty.struct l).membersFrom start = fieldMembersFrom start l.fields := by
  obtain ⟨fields, size, alignment, isUnion, natural⟩ := l
  rw [Ty.membersFrom, Layout.membersFrom]

/-- The members of a scalar are the one that it is. -/
theorem Ty.membersFrom_scalar {t : Ty} (h : t.isScalar = true) (start : Nat) :
    t.membersFrom start = [Member.ofScalar start t] := by
  cases t with
  | builtin b => cases b <;> rw [membersFrom] <;> first | rfl | (intro k hk; cases hk)
  | struct _ => cases h
  | array _ _ => cases h
  | charArray n => rw [membersFrom]; rfl
  | enumeration e => rw [membersFrom]; rfl
  | callback s => rw [membersFrom]; rfl

theorem Ty.has_scalar {t u : Ty} {o : Nat} (h : t.isScalar = true) (hu : t.Has o u) :
    o = 0 ∧ u = t := by
  cases hu with
  | self _ => exact ⟨rfl, rfl⟩
  | field _ _ => cases h
  | item _ _ => cases h

theorem Ty.mem_membersFrom_scalar {t : Ty} (h : t.isScalar = true) {start : Nat} {m : Member} :
    m ∈ t.membersFrom start ↔
      ∃ o u, t.Has o u ∧ u.isScalar = true ∧ m = Member.ofScalar (start + o) u := by
  rw [membersFrom_scalar h, List.mem_singleton]
  constructor
  · rintro rfl
    exact ⟨0, t, .self t, h, rfl⟩
  · rintro ⟨o, u, hu, -, rfl⟩
    obtain ⟨rfl, rfl⟩ := has_scalar h hu
    rfl

/-- The members of a type are the scalars that stand inside it. -/
theorem Ty.Built.mem_membersFrom {t : Ty} (ht : t.Built) {start : Nat} {m : Member} :
    m ∈ t.membersFrom start ↔
      ∃ o u, t.Has o u ∧ u.isScalar = true ∧ m = Member.ofScalar (start + o) u := by
  induction ht generalizing start with
  | builtin b => exact mem_membersFrom_scalar rfl
  | charArray n => exact mem_membersFrom_scalar rfl
  | enumeration _ => exact mem_membersFrom_scalar rfl
  | callback s => exact mem_membersFrom_scalar rfl
  | @array c n _ ih =>
    rw [membersFrom, List.mem_flatMap]
    constructor
    · rintro ⟨i, hi, hm⟩
      obtain ⟨o, u, ho, hu, rfl⟩ := ih.mp hm
      exact ⟨_, u, .item (List.mem_range.mp hi) ho, hu, by rw [Nat.add_assoc]⟩
    · rintro ⟨o, u, ho, hu, rfl⟩
      cases ho with
      | self _ => cases hu
      | @item _ _ i o _ hi ho =>
        exact ⟨i, List.mem_range.mpr hi, ih.mpr ⟨o, u, ho, hu, by rw [Nat.add_assoc]⟩⟩
  | @struct plan l h hf ih =>
    rw [membersFrom_struct, fieldMembersFrom_eq, List.mem_flatMap]
    constructor
    · rintro ⟨f, hm, hmem⟩
      obtain ⟨o, u, ho, hu, rfl⟩ := (ih f hm).mp hmem
      exact ⟨_, u, .field hm ho, hu, by rw [Nat.add_assoc]⟩
    · rintro ⟨o, u, ho, hu, rfl⟩
      cases ho with
      | self _ => cases hu
      | @field _ f o _ hm ho =>
        exact ⟨f, hm, (ih f hm).mpr ⟨o, u, ho, hu, by rw [Nat.add_assoc]⟩⟩

/-- Nothing inside a type of some bytes is without bytes. -/
theorem Ty.Built.size_pos_of_has {t u : Ty} {o : Nat} (ht : t.Built) (h : t.Has o u)
    (hpos : 0 < t.size) : 0 < u.size := by
  induction h with
  | self _ => exact hpos
  | @field l f o u hm _ ih =>
    cases ht with
    | struct hb hf =>
      have hv := LayoutPlan.aligned_of_build hb fun g hg => (hf g hg).alignment_pos
      exact ih (hf f hm) ((LayoutPlan.scansTo_of_build hv hb).bytes hm)
  | item _ _ ih =>
    cases ht with
    | array _ hc => exact ih hc (Nat.pos_of_mul_pos_right hpos)

/-! ## Occupants -/

namespace Occupant

/-- Whether there are floats of 4 bytes among what lies there. -/
def hasFloat32 : Occupant → Bool
  | .float32 => true
  | .mixedFloat => true
  | _ => false

/-- Whether there are floats of 8 bytes among what lies there. -/
def hasFloat64 : Occupant → Bool
  | .float64 => true
  | .mixedFloat => true
  | _ => false

/-- What integers, floats and doubles on top of each other amount to, as far as there are any. -/
def ofParts (integer float32 float64 : Bool) : Occupant :=
  match integer, float32, float64 with
  | true, _, _ => .integer
  | false, false, false => .padding
  | false, true, false => .float32
  | false, false, true => .float64
  | false, true, true => .mixedFloat

/-- Whether a chunk of a width becomes floats. -/
def fits (width : Nat) : Occupant → Bool
  | .float32 => width == 4 || width == 8
  | .float64 => width == 8
  | .mixedFloat => width == 8
  | _ => false

theorem merge_ofParts (a b c : Bool) (d : Occupant) :
    (ofParts a b c).merge d =
      ofParts (a || d == .integer) (b || d.hasFloat32) (c || d.hasFloat64) := by
  cases d <;> cases a <;> cases b <;> cases c <;> rfl

theorem fits_ofParts {a b c : Bool} {width : Nat} : (ofParts a b c).fits width = true ↔
    a = false ∧ (b = true ∨ c = true) ∧ (width = 4 ∧ c = false ∨ width = 8) := by
  cases a <;> cases b <;> cases c <;> simp [ofParts, fits]

end Occupant

theorem foldl_merge (members : List Member) (a b c : Bool) :
    members.foldl (fun (d : Occupant) m => d.merge m.occupant) (.ofParts a b c) =
      Occupant.ofParts (a || members.any fun m => m.occupant == .integer)
        (b || members.any fun m => m.occupant.hasFloat32)
        (c || members.any fun m => m.occupant.hasFloat64) := by
  induction members generalizing a b c with
  | nil => simp
  | cons m members ih =>
    simp only [List.foldl_cons, Occupant.merge_ofParts, ih, List.any_cons, Bool.or_assoc]

/-- What a scalar is as an occupant: an integer, or an aligned float of its size. -/
theorem Member.occupant_ofScalar (offset : Nat) (u : Ty) :
    (ofScalar offset u).occupant = .integer ∧ u.isAlignedFloat offset = false ∨
      (ofScalar offset u).occupant = .float32 ∧ u.isAlignedFloat offset = true ∧ u.size = 4 ∨
      (ofScalar offset u).occupant = .float64 ∧ u.isAlignedFloat offset = true ∧ u.size = 8 := by
  cases u with
  | builtin b =>
    cases b with
    | float k =>
      by_cases h : offset % k.bytes = 0
      · cases k with
        | float32 =>
          exact Or.inr (Or.inl ⟨by simp only [ofScalar, ofFloat, if_pos h], beq_iff_eq.mpr h, rfl⟩)
        | float64 =>
          exact Or.inr (Or.inr ⟨by simp only [ofScalar, ofFloat, if_pos h], beq_iff_eq.mpr h, rfl⟩)
      · exact Or.inl ⟨by simp only [ofScalar, ofFloat, if_neg h], beq_eq_false_iff_ne.mpr h⟩
    | _ => exact Or.inl ⟨rfl, rfl⟩
  | _ => exact Or.inl ⟨rfl, rfl⟩

/-- A scalar counts as an integer unless it is an aligned float. -/
theorem Member.occupant_eq_integer {offset : Nat} {u : Ty} :
    (ofScalar offset u).occupant = .integer ↔ u.isAlignedFloat offset = false := by
  rcases occupant_ofScalar offset u with ⟨h, hf⟩ | ⟨h, hf, -⟩ | ⟨h, hf, -⟩ <;> simp [h, hf]

/-- An aligned float has 4 bytes or 8, and counts as one of its size. -/
theorem Member.hasFloat_ofScalar {offset : Nat} {u : Ty} (hf : u.isAlignedFloat offset = true) :
    (ofScalar offset u).occupant.hasFloat32 = true ∧
        (ofScalar offset u).occupant.hasFloat64 = false ∧ u.size = 4 ∨
      (ofScalar offset u).occupant.hasFloat64 = true ∧ u.size = 8 := by
  rcases occupant_ofScalar offset u with ⟨-, hn⟩ | ⟨h, -, hs⟩ | ⟨h, -, hs⟩
  · rw [hf] at hn
    cases hn
  · rw [h]
    exact Or.inl ⟨rfl, rfl, hs⟩
  · rw [h]
    exact Or.inr ⟨rfl, hs⟩

namespace Layout

/-! ## Scalars in bytes of a layout -/

/-- A scalar of the layout, at its offset, has a byte among the `width` bytes from `start` on. -/
structure Occupies (l : Layout) (start width offset : Nat) (u : Ty) : Prop where
  inside : (Ty.struct l).Has offset u
  scalar : u.isScalar = true
  before : offset < start + width
  behind : start < offset + u.size

/-- Something else than an aligned float lies in the `width` bytes from `start` on. -/
def HoldsOther (l : Layout) (start width : Nat) : Prop :=
  ∃ offset u, l.Occupies start width offset u ∧ u.isAlignedFloat offset = false

/-- The `width` bytes from `start` on are those of a float or of two. Floats lie in them, none of
them wider, and nothing else. -/
structure HoldsFloats (l : Layout) (start width : Nat) : Prop where
  whole : width = 4 ∨ width = 8
  nonempty : ∃ offset u, l.Occupies start width offset u
  floats : ∀ offset u, l.Occupies start width offset u →
    u.isAlignedFloat offset = true ∧ u.size ≤ width

/-- The layout is cut at `start`, and the chunk that begins there is `width` bytes wide. -/
inductive Chunk (l : Layout) : Nat → Nat → Prop where
  | mk (i : Nat) (h : i * chunkWidth l.alignment < l.size) :
      Chunk l (i * chunkWidth l.alignment)
        (min (chunkWidth l.alignment) (l.size - i * chunkWidth l.alignment))

/-- Eightbyte `k` holds something that is no aligned float, or every chunk of it becomes floats. -/
def KeepsFloats (l : Layout) (k : Nat) : Prop :=
  l.HoldsOther (8 * k) 8 ∨ ∀ start width, l.Chunk start width → start / 8 = k →
    l.HoldsFloats start width

variable {l : Layout} {start width : Nat}

/-- The members that lie in a chunk are the scalars that occupy it. -/
theorem mem_overlapping (hb : Ty.Built (.struct l)) {m : Member} :
    m ∈ (fieldMembersFrom 0 l.fields).filter (fun m => m.overlaps start width) ↔
      ∃ o u, l.Occupies start width o u ∧ m = Member.ofScalar o u := by
  rw [List.mem_filter, ← membersFrom_struct, hb.mem_membersFrom]
  simp only [Nat.zero_add, Member.overlaps, Bool.and_eq_true, decide_eq_true_eq]
  constructor
  · rintro ⟨⟨o, u, ho, hu, rfl⟩, hlt⟩
    rw [Member.ofScalar_offset, Member.ofScalar_width] at hlt
    exact ⟨o, u, ⟨ho, hu, hlt.1, hlt.2⟩, rfl⟩
  · rintro ⟨o, u, ⟨ho, hu, hbefore, hbehind⟩, rfl⟩
    rw [Member.ofScalar_offset, Member.ofScalar_width]
    exact ⟨⟨o, u, ho, hu, rfl⟩, hbefore, hbehind⟩

/-- Whether a chunk becomes floats, by what the members in it count as. -/
theorem fits_occupantOf_iff {members : List Member} :
    (occupantOf members start width).fits width = true ↔
      (∀ m ∈ members.filter fun m => m.overlaps start width, ¬ m.occupant = .integer) ∧
      ((∃ m ∈ members.filter fun m => m.overlaps start width, m.occupant.hasFloat32 = true) ∨
        ∃ m ∈ members.filter fun m => m.overlaps start width, m.occupant.hasFloat64 = true) ∧
      (width = 4 ∧ (∀ m ∈ members.filter fun m => m.overlaps start width,
        m.occupant.hasFloat64 = false) ∨ width = 8) := by
  rw [occupantOf, show Occupant.padding = .ofParts false false false from rfl, foldl_merge,
    Occupant.fits_ofParts]
  simp only [Bool.false_or, List.any_eq_true, List.any_eq_false, beq_iff_eq, Bool.not_eq_true]

/-- The occupant of a chunk becomes floats exactly if the chunk holds floats and nothing else. -/
theorem fits_occupantOf (hb : Ty.Built (.struct l)) :
    (occupantOf (fieldMembersFrom 0 l.fields) start width).fits width = true ↔
      l.HoldsFloats start width := by
  rw [fits_occupantOf_iff]
  simp only [mem_overlapping hb]
  constructor
  · rintro ⟨hint, hany, hwidth⟩
    refine ⟨hwidth.imp_left And.left, ?_, fun o u hocc => ?_⟩
    · rcases hany with ⟨_, ⟨o, u, hocc, -⟩, -⟩ | ⟨_, ⟨o, u, hocc, -⟩, -⟩
      · exact ⟨o, u, hocc⟩
      · exact ⟨o, u, hocc⟩
    · have hfloat : u.isAlignedFloat o = true := by
        have hnot := hint _ ⟨o, u, hocc, rfl⟩
        rwa [Member.occupant_eq_integer, Bool.not_eq_false] at hnot
      refine ⟨hfloat, ?_⟩
      rcases hwidth with ⟨h4, hno⟩ | h8
      · rcases Member.hasFloat_ofScalar hfloat with ⟨-, -, hs⟩ | ⟨h64, -⟩
        · omega
        · rw [hno _ ⟨o, u, hocc, rfl⟩] at h64
          cases h64
      · rcases Member.hasFloat_ofScalar hfloat with ⟨-, -, hs⟩ | ⟨-, hs⟩ <;> omega
  · rintro ⟨hwidth, ⟨o, u, hocc⟩, hall⟩
    refine ⟨?_, ?_, hwidth.imp_left fun h4 => ⟨h4, ?_⟩⟩
    · rintro m ⟨o, u, hocc, rfl⟩
      rw [Member.occupant_eq_integer, Bool.not_eq_false]
      exact (hall o u hocc).1
    · rcases Member.hasFloat_ofScalar (hall o u hocc).1 with ⟨h32, -⟩ | ⟨h64, -⟩
      · exact Or.inl ⟨_, ⟨o, u, hocc, rfl⟩, h32⟩
      · exact Or.inr ⟨_, ⟨o, u, hocc, rfl⟩, h64⟩
    · rintro m ⟨o, u, hocc, rfl⟩
      obtain ⟨hfloat, hle⟩ := hall o u hocc
      rcases Member.hasFloat_ofScalar hfloat with ⟨-, hno, -⟩ | ⟨-, hs⟩
      · exact hno
      · omega

end Layout

/-! ## The elements of one chunk -/

namespace Abi.Record

theorem elementLeaves_append (start used : Nat) (es fs : List Record) :
    elementLeaves start used (es ++ fs) =
      elementLeaves start used es ++ elementLeaves start (extent used es) fs := by
  induction es generalizing used with
  | nil => rw [List.nil_append, extent_nil, elementLeaves, List.nil_append]
  | cons e es ih =>
    rw [List.cons_append, elementLeaves, ih, elementLeaves, extent_cons, List.append_assoc]

theorem laneAt_eq_general {leaves : List Leaf} {start : Nat} :
    laneAt leaves start = .general ↔ ∃ leaf ∈ leaves,
      leaf.isFloat = false ∧ leaf.offset < start + 8 ∧ start < leaf.offset + leaf.width := by
  have hne : ¬ Lane.float = Lane.general := by decide
  rw [laneAt, ite_eq_left_iff]
  simp [List.any_eq_true, and_assoc, hne]

end Abi.Record

/-- Elements that are floats have floats for scalars. -/
theorem isFloat_of_elementLeaves {start used : Nat} {es : List Record}
    (h : ∀ r ∈ es, ∃ k, r = .float k) {leaf : Leaf} (hl : leaf ∈ elementLeaves start used es) :
    leaf.isFloat = true := by
  induction es generalizing used with
  | nil =>
    rw [elementLeaves] at hl
    cases hl
  | cons e es ih =>
    obtain ⟨k, rfl⟩ := h e List.mem_cons_self
    rw [elementLeaves, List.mem_append] at hl
    rcases hl with hl | hl
    · rw [leaves, List.mem_singleton] at hl
      rw [hl]
    · exact ih (fun r hr => h r (List.mem_cons_of_mem _ hr)) hl

theorem isFloat_of_fits {occupant : Occupant} {start width : Nat}
    (h : occupant.fits width = true) {leaf : Leaf}
    (hl : leaf ∈ elementLeaves 0 start (chunkRecords occupant width)) : leaf.isFloat = true := by
  refine isFloat_of_elementLeaves ?_ hl
  cases occupant with
  | float32 =>
    rcases (by simpa [Occupant.fits] using h : width = 4 ∨ width = 8) with rfl | rfl <;>
      simp [chunkRecords]
  | float64 => simp [chunkRecords, beq_iff_eq.mp h]
  | mixedFloat => simp [chunkRecords, beq_iff_eq.mp h]
  | padding => cases h
  | integer => cases h

theorem chunkRecords_of_not_fits {occupant : Occupant} {width : Nat} (h0 : 0 < width)
    (h8 : width ≤ 8) (h : occupant.fits width = false) :
    chunkRecords occupant width = [unsignedRecord width] := by
  cases occupant with
  | float32 =>
    have hne : ¬ width = 4 ∧ ¬ width = 8 := by simpa [Occupant.fits] using h
    rw [chunkRecords, if_neg (by omega)]
  | float64 => rw [chunkRecords, if_neg (beq_eq_false_iff_ne.mp h)]
  | mixedFloat => rw [chunkRecords, if_neg (beq_eq_false_iff_ne.mp h)]
  | padding => rfl
  | integer => rfl

/-- The integer for a chunk is as wide as the chunk, or 8 bytes wide. -/
theorem unsignedRecord_eq (width : Nat) : ∃ k : IntKind, unsignedRecord width = .int k ∧
    (k.bytes = width ∧ width ∣ 8 ∨ k.bytes = 8 ∧ ¬ width ∣ 8) := by
  by_cases h : width ∣ 8
  · rcases dvd_eight.mp h with rfl | rfl | rfl | rfl <;> exact ⟨_, rfl, Or.inl ⟨rfl, h⟩⟩
  · have hne := mt dvd_eight.mpr h
    refine ⟨⟨false, .w64⟩, ?_, Or.inr ⟨rfl, h⟩⟩
    unfold unsignedRecord
    split
    · exact absurd (Or.inl rfl) hne
    · exact absurd (Or.inr (Or.inl rfl)) hne
    · exact absurd (Or.inr (Or.inr (Or.inl rfl))) hne
    · rfl

/-- A chunk that becomes no floats has one scalar, an integer in the eightbyte in which the chunk
begins. -/
theorem elementLeaves_of_not_fits {occupant : Occupant} {start width : Nat} (h0 : 0 < width)
    (h8 : width ≤ 8) (hs : width ∣ 8 ∧ width ∣ start ∨ 8 ∣ start)
    (h : occupant.fits width = false) :
    ∃ bytes, elementLeaves 0 start (chunkRecords occupant width) = [⟨start, bytes, false⟩] ∧
      0 < bytes ∧ start + bytes ≤ start / 8 * 8 + 8 := by
  obtain ⟨k, hk, hbytes⟩ := unsignedRecord_eq width
  have hdvd : k.bytes ∣ start ∧ k.bytes ∣ 8 := by
    rcases hbytes with ⟨hb, hw⟩ | ⟨hb, hw⟩
    · rw [hb]
      exact ⟨hs.elim And.right (Nat.dvd_trans hw), hw⟩
    · rw [hb]
      exact ⟨hs.resolve_left fun h => hw h.1, Nat.dvd_refl 8⟩
  have hround : roundUp start (Record.alignment (.int k)) = start := by
    rw [Record.alignment]
    exact (roundUp_eq_self k.width.bytes_pos).mpr hdvd.1
  refine ⟨k.bytes, ?_, k.width.bytes_pos, ?_⟩
  · rw [chunkRecords_of_not_fits h0 h8 h, hk]
    simp only [elementLeaves, hround, leaves, Nat.zero_add, List.append_nil]
  · rcases dvd_eight.mp hdvd.2 with hb | hb | hb | hb <;> rw [hb] at hdvd ⊢ <;> omega

/-! ## The chunks of a layout -/

section

variable (members : List Member) {size width : Nat}

theorem mem_leaves_chunksBefore (hw : width ∣ 8) {count : Nat}
    (h : ∀ i < count, i * width < size) {leaf : Leaf} :
    leaf ∈ elementLeaves 0 0 (chunksBefore members size width count) ↔
      ∃ i < count, leaf ∈ elementLeaves 0 (i * width)
        (chunkRecords (occupantOf members (i * width) (min width (size - i * width)))
          (min width (size - i * width))) := by
  induction count with
  | zero => simp [chunksBefore, elementLeaves]
  | succ count ih =>
    have hlt := h count (Nat.lt_succ_self count)
    rw [chunksBefore_succ, elementLeaves_append,
      extent_chunksBefore members hw (Nat.le_of_lt hlt), List.mem_append,
      ih fun i hi => h i (Nat.lt_succ_of_lt hi)]
    constructor
    · rintro (⟨i, hi, hm⟩ | hm)
      · exact ⟨i, Nat.lt_succ_of_lt hi, hm⟩
      · exact ⟨count, Nat.lt_succ_self count, hm⟩
    · rintro ⟨i, hi, hm⟩
      rcases Nat.lt_succ_iff_lt_or_eq.mp hi with hi | rfl
      · exact Or.inl ⟨i, hi, hm⟩
      · exact Or.inr hm

end

/-- Chunks of 8 bytes of which the second one may be short end with the second eightbyte. -/
theorem extent_eightbytes (members : List Member) {size : Nat} (h8 : 8 < size) (h16 : size ≤ 16) :
    size ≤ extent 0 (chunksBefore members size 8 ((size + 8 - 1) / 8)) ∧
      extent 0 (chunksBefore members size 8 ((size + 8 - 1) / 8)) ≤ 16 := by
  by_cases hrest : size % 8 = 0 ∨ size % 8 ∣ 8
  · rw [extent_chunks members (Nat.dvd_refl 8) hrest]
    exact ⟨Nat.le_refl size, h16⟩
  · rw [not_or] at hrest
    obtain ⟨occupant, heq⟩ := chunks_eq members size (show 0 < 8 by decide)
    have hextent : extent 0 (chunksBefore members size 8 ((size + 8 - 1) / 8)) = 16 := by
      rw [heq, extent_append, extent_chunksBefore members (Nat.dvd_refl 8)
        (Nat.div_mul_le_self size 8), if_neg hrest.1,
        chunkRecords_odd occupant hrest.2 (by omega) (by omega), extent_cons, extent_nil,
        show size / 8 = 1 by omega]
      decide
    rw [hextent]
    exact ⟨h16, Nat.le_refl 16⟩

/-- Rounding up to an alignment of at most 8 bytes stays in the two eightbytes. -/
theorem size_struct_bounds {es : List Record} (hs : strictest es ∣ 8) (h : extent 0 es ≤ 16) :
    extent 0 es ≤ (Record.struct es).size ∧ (Record.struct es).size ≤ 16 := by
  rw [Record.size]
  exact ⟨le_roundUp _ (strictest_pos es), (isLeast_roundUp _ (strictest_pos es)).2
    ⟨Nat.dvd_trans hs (by decide), h⟩⟩

/-- The number of chunks is that of the multiples of their width below the size. -/
theorem lt_chunks_iff {i size width : Nat} (hpos : 0 < width) :
    i < (size + width - 1) / width ↔ i * width < size := by
  rw [Nat.lt_iff_add_one_le, Nat.le_div_iff_mul_le hpos, Nat.succ_mul]
  omega

namespace Layout

variable {l : Layout} {start width k : Nat}

/-- The scalars of the record of a layout that is cut are those of its chunks. -/
theorem mem_leaves_record (hn : l.natural = false) {leaf : Leaf} :
    leaf ∈ l.record.leaves 0 ↔ ∃ start width, l.Chunk start width ∧ leaf ∈ elementLeaves 0 start
      (chunkRecords (occupantOf (fieldMembersFrom 0 l.fields) start width) width) := by
  have hw := chunkWidth_dvd l.alignment
  have hpos : 0 < chunkWidth l.alignment := Nat.pos_of_dvd_of_pos hw (by decide)
  have hrecord : l.record.leaves 0 = elementLeaves 0 0 (chunksBefore (fieldMembersFrom 0 l.fields)
      l.size (chunkWidth l.alignment)
        ((l.size + chunkWidth l.alignment - 1) / chunkWidth l.alignment)) := by
    rw [record_eq, hn, chunkedRecord]
    rfl
  rw [hrecord, mem_leaves_chunksBefore _ hw fun i hi => (lt_chunks_iff hpos).mp hi]
  constructor
  · rintro ⟨i, hi, hl⟩
    exact ⟨_, _, .mk i ((lt_chunks_iff hpos).mp hi), hl⟩
  · rintro ⟨start, width, ⟨i, hi⟩, hl⟩
    exact ⟨i, (lt_chunks_iff hpos).mpr hi, hl⟩

theorem chunkWidth_dvd_alignment {alignment : Nat} (h : alignment ≤ 8) :
    chunkWidth alignment ∣ alignment := by
  rw [chunkWidth, show Nat.min alignment 8 = alignment from Nat.min_eq_left h]
  split
  · exact Nat.dvd_refl alignment
  · exact Nat.one_dvd alignment

/-- A layout of at most 16 bytes is cut into equal chunks, or into eightbytes of which the last
one may be short. -/
theorem chunkWidth_of_size_le (hd : l.alignment ∣ l.size) (h0 : 0 < l.size) (h16 : l.size ≤ 16) :
    chunkWidth l.alignment ∣ l.size ∨ chunkWidth l.alignment = 8 ∧ 8 < l.size := by
  by_cases h8 : l.alignment ≤ 8
  · exact Or.inl (Nat.dvd_trans (chunkWidth_dvd_alignment h8) hd)
  · have hle := Nat.le_of_dvd h0 hd
    refine Or.inr ⟨?_, by omega⟩
    rw [chunkWidth, show Nat.min l.alignment 8 = 8 from Nat.min_eq_right (by omega)]
    rfl

/-- What the chunks of a layout of at most 16 bytes are like. -/
theorem Chunk.bounds (hd : l.alignment ∣ l.size) (h16 : l.size ≤ 16)
    (h : l.Chunk start width) : 0 < width ∧ width ≤ 8 ∧ start + width ≤ l.size ∧
      (width ∣ 8 ∧ width ∣ start ∨ 8 ∣ start) := by
  obtain ⟨i, hi⟩ := h
  have hw := chunkWidth_dvd l.alignment
  have hle : chunkWidth l.alignment ≤ 8 := Nat.le_of_dvd (by decide) hw
  have hpos : 0 < chunkWidth l.alignment := Nat.pos_of_dvd_of_pos hw (by decide)
  refine ⟨by omega, by omega, by omega, ?_⟩
  rcases chunkWidth_of_size_le hd (by omega) h16 with hdvd | ⟨h8, -⟩
  · -- what is left behind whole chunks is at least one chunk
    have hrest : chunkWidth l.alignment ≤ l.size - i * chunkWidth l.alignment :=
      Nat.le_of_dvd (by omega) (Nat.dvd_sub hdvd (Nat.dvd_mul_left ..))
    rw [Nat.min_eq_left hrest]
    exact Or.inl ⟨hw, Nat.dvd_mul_left ..⟩
  · rw [h8]
    exact Or.inr (Nat.dvd_mul_left ..)

/-- The record takes as many eightbytes as the layout. -/
theorem size_record_le (hd : l.alignment ∣ l.size) (hn : l.natural = false) (h0 : 0 < l.size)
    (h16 : l.size ≤ 16) : l.record.size ≤ 16 ∧ (l.record.size + 7) / 8 = (l.size + 7) / 8 := by
  have hrecord : l.record = chunkedRecord (fieldMembersFrom 0 l.fields) l.size l.alignment := by
    rw [record_eq, hn]
    rfl
  rcases chunkWidth_of_size_le hd h0 h16 with hdvd | ⟨h8, hlt⟩
  · rw [hrecord, size_chunkedRecord_of_dvd _ hdvd]
    exact ⟨h16, rfl⟩
  · obtain ⟨hle, hextent⟩ := extent_eightbytes (fieldMembersFrom 0 l.fields) hlt h16
    have hchunks : l.record = .struct (chunksBefore (fieldMembersFrom 0 l.fields) l.size 8
        ((l.size + 8 - 1) / 8)) := by
      rw [hrecord, chunkedRecord, h8]
      rfl
    have hbounds := size_struct_bounds (alignment_chunks _ (Nat.dvd_refl 8)) hextent
    rw [← hchunks] at hbounds
    omega

/-- An eightbyte travels in a general register if it has a chunk that is no chunk of floats. -/
theorem laneAt_record (hb : Ty.Built (.struct l)) (hd : l.alignment ∣ l.size)
    (hn : l.natural = false) (h16 : l.size ≤ 16) :
    laneAt (l.record.leaves 0) (8 * k) = .general ↔
      ∃ start width, l.Chunk start width ∧ start / 8 = k ∧ ¬ l.HoldsFloats start width := by
  rw [laneAt_eq_general]
  constructor
  · rintro ⟨leaf, hl, hf, hbefore, hbehind⟩
    obtain ⟨start, width, hc, hl⟩ := (mem_leaves_record hn).mp hl
    obtain ⟨h0, h8, -, hs⟩ := hc.bounds hd h16
    have hfits : (occupantOf (fieldMembersFrom 0 l.fields) start width).fits width = false := by
      rw [Bool.eq_false_iff]
      intro hfits
      rw [isFloat_of_fits hfits hl] at hf
      cases hf
    obtain ⟨bytes, hleaves, hpos, hend⟩ := elementLeaves_of_not_fits h0 h8 hs hfits
    rw [hleaves, List.mem_singleton] at hl
    obtain rfl := hl
    refine ⟨start, width, hc, ?_, ?_⟩
    · dsimp only at hbefore hbehind
      omega
    · rw [← fits_occupantOf hb, hfits]
      decide
  · rintro ⟨start, width, hc, hk, hno⟩
    obtain ⟨h0, h8, -, hs⟩ := hc.bounds hd h16
    rw [← fits_occupantOf hb, Bool.not_eq_true] at hno
    obtain ⟨bytes, hleaves, hpos, hend⟩ := elementLeaves_of_not_fits h0 h8 hs hno
    refine ⟨⟨start, bytes, false⟩, (mem_leaves_record hn).mpr ⟨start, width, hc, ?_⟩, rfl, ?_, ?_⟩
    · rw [hleaves]
      exact List.mem_singleton_self _
    · dsimp only
      omega
    · dsimp only
      omega

/-- What is no aligned float lies in some chunk of each eightbyte that it lies in. -/
theorem HoldsOther.exists_chunk (hb : Ty.Built (.struct l)) (h : l.HoldsOther (8 * k) 8)
    (h0 : 0 < l.size) :
    ∃ start width, l.Chunk start width ∧ start / 8 = k ∧ ¬ l.HoldsFloats start width := by
  obtain ⟨o, u, hocc, hfloat⟩ := h
  have hin : o + u.size ≤ l.size := hb.has_inside hocc.inside
  have hu := hb.size_pos_of_has hocc.inside h0
  have hbefore := hocc.before
  have hbehind := hocc.behind
  -- the first byte of the scalar in the eightbyte, and the chunk that it is in
  obtain ⟨b, hb⟩ : ∃ b, b = max o (8 * k) := ⟨_, rfl⟩
  obtain ⟨w, hw⟩ : ∃ w, w = chunkWidth l.alignment := ⟨_, rfl⟩
  have hstart : b / w * w ≤ b ∧ b < b / w * w + w ∧ b / w * w / 8 = k := by
    have hdvd := chunkWidth_dvd l.alignment
    rw [← hw] at hdvd
    rcases dvd_eight.mp hdvd with rfl | rfl | rfl | rfl <;> omega
  have hchunk := Chunk.mk (l := l) (b / w) (by rw [← hw]; omega)
  rw [← hw] at hchunk
  refine ⟨_, _, hchunk, hstart.2.2, fun hfloats => ?_⟩
  have hocc' : l.Occupies (b / w * w) (min w (l.size - b / w * w)) o u :=
    ⟨hocc.inside, hocc.scalar, by omega, by omega⟩
  rw [(hfloats.floats o u hocc').1] at hfloat
  cases hfloat

/--
The registers of a layout of at most 16 bytes that is cut into chunks. An eightbyte that keeps its
floats travels in a general register exactly if something else than an aligned float lies in it. One
that does not keep them travels in a general register although nothing else lies in it.
-/
theorem lanes_rule {plan : LayoutPlan} {l : Layout} (h : plan.build = .ok l)
    (hf : ∀ f ∈ l.fields, f.ty.Built) (hn : l.natural = false) (h16 : l.size ≤ 16) :
    ∃ lanes, l.record.lanes = some lanes ∧ lanes.length = (l.size + 7) / 8 ∧
      ∀ (k : Nat) (hk : k < lanes.length),
        (l.KeepsFloats k → (lanes[k] = .general ↔ l.HoldsOther (8 * k) 8)) ∧
        (¬ l.KeepsFloats k → lanes[k] = .general ∧ ¬ l.HoldsOther (8 * k) 8) := by
  have hb : Ty.Built (.struct l) := .struct h hf
  have hdescribes := (LayoutPlan.scansTo_of_build (LayoutPlan.aligned_of_build h fun f hm =>
    (hf f hm).alignment_pos) h).describes
  have hd := hdescribes.size.1.1
  obtain ⟨hsize, hcount⟩ := size_record_le hd hn hdescribes.positive h16
  refine ⟨_, by rw [lanes, if_pos hsize], by rw [List.length_map, List.length_range, hcount], ?_⟩
  intro k hk
  rw [List.getElem_map, List.getElem_range, laneAt_record hb hd hn h16]
  constructor
  · rintro (hother | hall)
    · exact iff_of_true (hother.exists_chunk hb hdescribes.positive) hother
    · constructor
      · rintro ⟨start, width, hc, hs, hno⟩
        exact absurd (hall start width hc hs) hno
      · exact fun hother => hother.exists_chunk hb hdescribes.positive
  · intro hlost
    rw [KeepsFloats, not_or] at hlost
    refine ⟨by_contra fun hno => hlost.2 fun start width hc hs => ?_, hlost.1⟩
    exact by_contra fun hfloats => hno ⟨start, width, hc, hs, hfloats⟩

end Layout

/-! ## Packed and raised layouts -/

namespace LayoutPlan

/-- A packed float. -/
def packedFloat : LayoutPlan :=
  { ofFields [⟨"a", .descriptor (.ofBuiltin (.float .float32)), none⟩] false with packed := some 1 }

/-- What `packedFloat` builds; its record is four integers of one byte. -/
def packedFloatLayout : Layout := ⟨[⟨"a", 0, .builtin (.float .float32)⟩], 4, 1, false, false⟩

/-- A number and a pair, aligned to 16 bytes. -/
def halves : LayoutPlan :=
  { ofFields [⟨"number", .descriptor ⟨.struct numberLayout, 100⟩, none⟩,
      ⟨"pair", .descriptor ⟨.struct pairLayout, 101⟩, none⟩] false with alignment := some 16 }

/-- What `halves` builds; its record is an integer and two floats. -/
def halvesLayout : Layout :=
  ⟨[⟨"number", 0, .struct numberLayout⟩, ⟨"pair", 8, .struct pairLayout⟩], 16, 16, false, false⟩

theorem built_numberLayout : (Ty.struct numberLayout).Built := by
  refine @Ty.Built.struct number _ rfl ?_
  simp only [numberLayout, List.forall_mem_cons, List.not_mem_nil, false_implies, implies_true,
    and_true]
  exact ⟨.builtin _, .builtin _⟩

theorem built_pairLayout : (Ty.struct pairLayout).Built := by
  refine @Ty.Built.struct pair _ rfl ?_
  simp only [pairLayout, List.forall_mem_cons, List.not_mem_nil, false_implies, implies_true,
    and_true]
  exact ⟨.builtin _, .builtin _⟩

end LayoutPlan

/-- A number travels in a general register, the pair behind it in a floating-point register. -/
theorem Layout.lanes_rule_halves :
    LayoutPlan.halves.build = .ok LayoutPlan.halvesLayout ∧
      LayoutPlan.halvesLayout.KeepsFloats 1 ∧ ¬ LayoutPlan.halvesLayout.HoldsOther 8 8 ∧
      LayoutPlan.halvesLayout.record.lanes = some [.general, .float] := by
  have hfields : ∀ f ∈ LayoutPlan.halvesLayout.fields, f.ty.Built := by
    simp only [LayoutPlan.halvesLayout, List.forall_mem_cons, List.not_mem_nil, false_implies,
      implies_true, and_true]
    exact ⟨LayoutPlan.built_numberLayout, LayoutPlan.built_pairLayout⟩
  have hbuild : LayoutPlan.halves.build = .ok LayoutPlan.halvesLayout := rfl
  have hlanes : LayoutPlan.halvesLayout.record.lanes = some [.general, .float] := by decide
  have hkeeps : LayoutPlan.halvesLayout.KeepsFloats 1 := by
    refine Or.inr ?_
    rintro _ _ ⟨i, hi⟩ hk
    have hwidth : chunkWidth LayoutPlan.halvesLayout.alignment = 8 := rfl
    rw [hwidth] at hk
    obtain rfl : i = 1 := by omega
    exact (Layout.fits_occupantOf (.struct hbuild hfields)).mp (by decide)
  obtain ⟨lanes, hsome, -, hrule⟩ :=
    Layout.lanes_rule hbuild hfields rfl (show (16 : Nat) ≤ 16 by decide)
  obtain rfl := Option.some.inj (hlanes.symm.trans hsome)
  refine ⟨hbuild, hkeeps, fun hother => ?_, hlanes⟩
  have hgeneral := ((hrule 1 (by decide)).1 hkeeps).mpr hother
  cases hgeneral

/-- A float that is cut into single bytes travels in a general register, although nothing but an
aligned float lies in its eightbyte. -/
theorem Layout.lanes_rule_packed :
    LayoutPlan.packedFloat.build = .ok LayoutPlan.packedFloatLayout ∧
      LayoutPlan.packedFloatLayout.natural = false ∧ LayoutPlan.packedFloatLayout.size ≤ 16 ∧
      LayoutPlan.packedFloatLayout.record.lanes = some [.general] ∧
      ¬ LayoutPlan.packedFloatLayout.HoldsOther 0 8 := by
  refine ⟨rfl, rfl, by decide, by decide, ?_⟩
  rintro ⟨o, u, ⟨hin, hscalar, -, -⟩, hfloat⟩
  cases hin with
  | self _ => cases hscalar
  | @field _ f o _ hm h =>
    obtain rfl := List.mem_singleton.mp hm
    obtain ⟨rfl, rfl⟩ := Ty.has_scalar (t := .builtin (.float .float32)) rfl h
    cases hfloat

end ForeignCall
