import ForeignCall.Layout.Lowering
import ForeignCall.Proofs.Layout.Rule

/-!
# The record of a layout and its bytes

The calling convention computes offsets and a size of its own from the record of a layout. Field by
field it comes to those of the layout as long as every layout inside keeps its alignment in its own
record (`Layout.keepsAlignment`). One that is cut into chunks need not: chunks are never stricter
than 8 bytes, and a chunk of two floats is only as strict as one.

Main statement: `Layout.record_rule`. `Layout.record_rule_misplaced` is a layout whose record is
shorter, since a member aligned to 8 bytes is described as two floats.
-/

namespace ForeignCall

open Abi

/-! ## The C rule on appended elements -/

theorem roundUp_eq_self {value align : Nat} (h : 0 < align) :
    roundUp value align = value ↔ align ∣ value := by
  constructor
  · intro he
    rw [← he]
    exact dvd_roundUp value align
  · intro hd
    exact Nat.le_antisymm ((isLeast_roundUp value h).2 ⟨hd, Nat.le_refl value⟩) (le_roundUp value h)

namespace Abi.Record

@[simp] theorem extent_nil (start : Nat) : extent start [] = start := by rw [extent]

@[simp] theorem extent_cons (start : Nat) (e : Record) (es : List Record) :
    extent start (e :: es) = extent (roundUp start e.alignment + e.size) es := by rw [extent]

theorem extent_append (start : Nat) (es fs : List Record) :
    extent start (es ++ fs) = extent (extent start es) fs := by
  induction es generalizing start with
  | nil => rw [List.nil_append, extent_nil]
  | cons e es ih => rw [List.cons_append, extent_cons, extent_cons, ih]

theorem offsets_snoc (start : Nat) (es : List Record) (e : Record) :
    offsets start (es ++ [e]) = offsets start es ++ [roundUp (extent start es) e.alignment] := by
  induction es generalizing start with
  | nil => simp [offsets]
  | cons e' es ih =>
    rw [List.cons_append, offsets, ih, offsets, extent_cons]
    rfl

theorem strictest_append (es fs : List Record) :
    strictest (es ++ fs) = max (strictest es) (strictest fs) := by
  induction es with
  | nil =>
    rw [List.nil_append, strictest]
    exact (Nat.max_eq_right (strictest_pos fs)).symm
  | cons e es ih =>
    rw [List.cons_append, strictest, strictest, ih]
    exact (Nat.max_assoc ..).symm

theorem strictest_dvd {n : Nat} {es : List Record} (h : ∀ e ∈ es, e.alignment ∣ n) :
    strictest es ∣ n := by
  induction es with
  | nil => exact Nat.one_dvd n
  | cons e es ih =>
    have hes := ih fun e' he => h e' (List.mem_cons_of_mem e he)
    have he := h e List.mem_cons_self
    rw [strictest]
    rcases Nat.le_total e.alignment (strictest es) with hle | hle
    · rw [show Nat.max e.alignment (strictest es) = strictest es from Nat.max_eq_right hle]
      exact hes
    · rw [show Nat.max e.alignment (strictest es) = e.alignment from Nat.max_eq_left hle]
      exact he

end Abi.Record

/-! ## Layouts that are described field by field -/

open Abi.Record

theorem fieldRecords_eq (fields : List Field) :
    fieldRecords fields = fields.map fun f => f.ty.record := by
  induction fields with
  | nil => rfl
  | cons f rest ih =>
    obtain ⟨name, offset, ty⟩ := f
    rw [fieldRecords, ih]
    rfl

/-- A type whose record has its size and its alignment. -/
structure Ty.Recorded (t : Ty) : Prop where
  size : t.record.size = t.size
  alignment : t.record.alignment = t.alignment

namespace LayoutPlan

variable {plan : LayoutPlan}

/-- Without a cap a field has the alignment of its type. -/
theorem fieldAlignment_of_none (h : plan.packed = none) (ty : Ty) :
    plan.fieldAlignment ty = ty.alignment := by
  simp [fieldAlignment, cap, h]

theorem natural_snoc {fields : List Field} {f : Field} :
    (plan.placementOf (fields ++ [f])).natural = true ↔
      (plan.placementOf fields).natural = true ∧ (plan.isUnion = true ∨
        f.offset = roundUp (fieldsStop fields) (plan.fieldAlignment f.ty)) := by
  rw [placementOf_snoc, push, placementOf_size, Bool.and_eq_true, Bool.or_eq_true, beq_iff_eq]

theorem packed_of_natural {fields : List Field} (h : (plan.placementOf fields).natural = true) :
    plan.packed = none := by
  induction fields using List.reverseRecOn with
  | nil => exact Option.isNone_iff_eq_none.mp h
  | append_singleton fields f ih => exact ih (natural_snoc.mp h).1

/-- Fields that all stand where the C rule puts them. -/
theorem natural_placementOf {fields : List Field} (hu : plan.isUnion = false)
    (hn : (plan.placementOf fields).natural = true) (hr : ∀ f ∈ fields, f.ty.Recorded)
    (hpos : ∀ f ∈ fields, 0 < f.ty.alignment) :
    extent 0 (fieldRecords fields) = fieldsStop fields ∧
      strictest (fieldRecords fields) = (plan.placementOf fields).alignment ∧
      offsets 0 (fieldRecords fields) = fields.map Field.offset := by
  have hp := packed_of_natural hn
  induction fields using List.reverseRecOn with
  | nil =>
    refine ⟨extent_nil 0, ?_, rfl⟩
    rw [fieldRecords, strictest]
    rfl
  | append_singleton fields f ih =>
    have hmem : f ∈ fields ++ [f] := List.mem_append_right _ (List.mem_singleton_self f)
    obtain ⟨hsize, halign⟩ := hr f hmem
    obtain ⟨hn, ho⟩ := natural_snoc.mp hn
    rw [fieldAlignment_of_none hp] at ho
    have hoffset : f.offset = roundUp (fieldsStop fields) f.ty.alignment :=
      ho.resolve_left (by rw [hu]; decide)
    obtain ⟨hextent, hstrict, hoffsets⟩ := ih hn
      (fun g hg => hr g (List.mem_append_left _ hg))
      (fun g hg => hpos g (List.mem_append_left _ hg))
    have hsnoc : fieldRecords (fields ++ [f]) = fieldRecords fields ++ [f.ty.record] := by
      rw [fieldRecords_eq, fieldRecords_eq, List.map_append]
      rfl
    -- the field stands beyond all others, so it ends beyond them
    have hle : fieldsStop fields ≤ f.stop := by
      refine Nat.le_trans (le_roundUp _ (hpos f hmem)) ?_
      rw [← hoffset]
      exact Nat.le_add_right ..
    rw [hsnoc]
    refine ⟨?_, ?_, ?_⟩
    · rw [extent_append, hextent, extent_cons, extent_nil, halign, hsize, ← hoffset,
        fieldsStop_snoc, Nat.max_eq_right hle]
      rfl
    · rw [strictest_append, hstrict, strictest, strictest, halign, placementOf_snoc, push,
        fieldAlignment_of_none hp]
      exact congrArg _ (Nat.max_eq_left (hpos f hmem))
    · rw [offsets_snoc, hoffsets, hextent, halign, List.map_append, ← hoffset]
      rfl

end LayoutPlan

/-! ## Chunks -/

theorem dvd_eight {n : Nat} : n ∣ 8 ↔ n = 1 ∨ n = 2 ∨ n = 4 ∨ n = 8 := by
  constructor
  · intro h
    have hcases : ∀ n < 9, n ∣ 8 → n = 1 ∨ n = 2 ∨ n = 4 ∨ n = 8 := by decide
    exact hcases n (Nat.lt_succ_of_le (Nat.le_of_dvd (by decide) h)) h
  · rintro (rfl | rfl | rfl | rfl) <;> decide

theorem chunkWidth_dvd (alignment : Nat) : chunkWidth alignment ∣ 8 := by
  rw [dvd_eight]
  simp only [chunkWidth, isSmallPower, Bool.or_eq_true, beq_iff_eq]
  split
  · omega
  · exact Or.inl rfl

theorem chunkWidth_of_dvd {alignment : Nat} (h : alignment ∣ 8) :
    chunkWidth alignment = alignment := by
  rcases dvd_eight.mp h with rfl | rfl | rfl | rfl <;> rfl

theorem size_unsignedRecord {width : Nat} (h : width ∣ 8) :
    (unsignedRecord width).size = width ∧ (unsignedRecord width).alignment = width := by
  rcases dvd_eight.mp h with rfl | rfl | rfl | rfl <;>
    simp [unsignedRecord, size, Record.alignment, IntKind.bytes, Width.bytes]

/-- A chunk as wide as an integer is described by one scalar of its width, or by two floats. -/
theorem chunkRecords_cases (occupant : Occupant) {width : Nat} (h : width ∣ 8) :
    (∃ r, chunkRecords occupant width = [r] ∧ r.size = width ∧ r.alignment = width) ∨
      width = 8 ∧ chunkRecords occupant width = [.float .float32, .float .float32] := by
  have hint : ∃ r, [unsignedRecord width] = [r] ∧ r.size = width ∧ r.alignment = width :=
    ⟨_, rfl, size_unsignedRecord h⟩
  have hfloat : width = 8 → ∃ r, [Record.float .float64] = [r] ∧ r.size = width ∧
      r.alignment = width := by
    rintro rfl
    exact ⟨_, rfl, by rw [size]; rfl, by rw [Record.alignment]; rfl⟩
  cases occupant with
  | padding => exact Or.inl hint
  | integer => exact Or.inl hint
  | float32 =>
    rcases dvd_eight.mp h with rfl | rfl | rfl | rfl
    · exact Or.inl hint
    · exact Or.inl hint
    · exact Or.inl ⟨.float .float32, rfl, by rw [size]; rfl, by rw [Record.alignment]; rfl⟩
    · exact Or.inr ⟨rfl, rfl⟩
  | float64 =>
    rw [chunkRecords]
    split
    next h8 => exact Or.inl (hfloat h8)
    · exact Or.inl hint
  | mixedFloat =>
    rw [chunkRecords]
    split
    next h8 => exact Or.inl (hfloat h8)
    · exact Or.inl hint

theorem extent_chunkRecords (occupant : Occupant) {width start : Nat} (h : width ∣ 8)
    (hs : width ∣ start) : extent start (chunkRecords occupant width) = start + width := by
  have hpos : 0 < width := Nat.pos_of_dvd_of_pos h (by decide)
  rcases chunkRecords_cases occupant h with ⟨r, hr, hsize, halign⟩ | ⟨rfl, hr⟩
  · rw [hr, extent_cons, extent_nil, hsize, halign, (roundUp_eq_self hpos).mpr hs]
  · have hfour : Record.alignment (.float .float32) = 4 ∧ Record.size (.float .float32) = 4 :=
      ⟨by rw [Record.alignment]; rfl, by rw [size]; rfl⟩
    have hd : 4 ∣ start := Nat.dvd_trans (by decide) hs
    rw [hr, extent_cons, extent_cons, extent_nil, hfour.1, hfour.2,
      (roundUp_eq_self (by decide)).mpr hd,
      (roundUp_eq_self (by decide)).mpr (Nat.dvd_add hd (Nat.dvd_refl 4))]

/-- A chunk whose width no integer has takes the place of the widest. -/
theorem chunkRecords_odd (occupant : Occupant) {width : Nat} (h : ¬ width ∣ 8) (h0 : 0 < width)
    (h8 : width < 8) : chunkRecords occupant width = [.int .uint64] := by
  have hodd : width = 3 ∨ width = 5 ∨ width = 6 ∨ width = 7 := by
    rw [dvd_eight] at h
    omega
  rcases hodd with rfl | rfl | rfl | rfl <;> cases occupant <;> rfl

theorem alignment_chunkRecords (occupant : Occupant) {width : Nat} (h : width ∣ 8) :
    ∀ r ∈ chunkRecords occupant width, r.alignment ∣ width := by
  intro r hr
  rcases chunkRecords_cases occupant h with ⟨r', hr', -, halign⟩ | ⟨rfl, hr'⟩
  · rw [hr'] at hr
    rw [List.mem_singleton.mp hr]
    exact ⟨1, by rw [halign, Nat.mul_one]⟩
  · rw [hr'] at hr
    obtain rfl : r = .float .float32 := by simpa using hr
    rw [Record.alignment]
    decide

/-- No chunk is stricter than 8 bytes. -/
theorem alignment_chunkRecords_dvd (occupant : Occupant) {width : Nat} (h0 : 0 < width)
    (h8 : width ≤ 8) : ∀ r ∈ chunkRecords occupant width, r.alignment ∣ 8 := by
  intro r hr
  by_cases h : width ∣ 8
  · exact Nat.dvd_trans (alignment_chunkRecords occupant h r hr) h
  · have hlt : width < 8 := by
      refine Nat.lt_of_le_of_ne h8 ?_
      rintro rfl
      exact h (Nat.dvd_refl 8)
    rw [chunkRecords_odd occupant h h0 hlt] at hr
    rw [List.mem_singleton.mp hr, Record.alignment]
    decide

/-- The elements for the first chunks. -/
def chunksBefore (members : List Member) (size width count : Nat) : List Record :=
  (List.range count).flatMap fun i =>
    let start := i * width
    let chunk := Nat.min width (size - start)
    chunkRecords (occupantOf members start chunk) chunk

section

variable (members : List Member) {size width : Nat}

theorem chunksBefore_succ (count : Nat) :
    chunksBefore members size width (count + 1) = chunksBefore members size width count ++
      chunkRecords (occupantOf members (count * width) (min width (size - count * width)))
        (min width (size - count * width)) := by
  rw [chunksBefore, List.range_succ, List.flatMap_append, List.flatMap_singleton]
  rfl

/-- Chunks of full width fill the bytes without gaps. -/
theorem extent_chunksBefore (hw : width ∣ 8) {count : Nat} (h : count * width ≤ size) :
    extent 0 (chunksBefore members size width count) = count * width := by
  induction count with
  | zero =>
    rw [Nat.zero_mul]
    exact extent_nil 0
  | succ count ih =>
    rw [Nat.succ_mul] at h ⊢
    rw [chunksBefore_succ, extent_append, ih (by omega), Nat.min_eq_left (by omega)]
    exact extent_chunkRecords _ hw (Nat.dvd_mul_left ..)

theorem alignment_chunksBefore (hw : width ∣ 8) {count : Nat} (h : count * width ≤ size) :
    ∀ r ∈ chunksBefore members size width count, r.alignment ∣ width := by
  intro r hr
  obtain ⟨i, hi, hr⟩ := List.mem_flatMap.mp hr
  have hmul := Nat.le_trans (Nat.mul_le_mul_right width (List.mem_range.mp hi)) h
  rw [Nat.succ_mul] at hmul
  have hfull : Nat.min width (size - i * width) = width := Nat.min_eq_left (by omega)
  simp only [hfull] at hr
  exact alignment_chunkRecords _ hw r hr

/-- The last chunk holds what is left of the bytes. -/
theorem chunks_eq (size : Nat) (hpos : 0 < width) :
    ∃ occupant, chunksBefore members size width ((size + width - 1) / width) =
      chunksBefore members size width (size / width) ++
        if size % width = 0 then [] else chunkRecords occupant (size % width) := by
  have hdiv := Nat.div_add_mod' size width
  have hmod := Nat.mod_lt size hpos
  by_cases h0 : size % width = 0
  · have hcount : (size + width - 1) / width = size / width := by
      refine Nat.div_eq_of_lt_le (by omega) ?_
      rw [Nat.succ_mul]
      omega
    exact ⟨.padding, by rw [hcount, if_pos h0, List.append_nil]⟩
  · have hcount : (size + width - 1) / width = size / width + 1 := by
      refine Nat.div_eq_of_lt_le ?_ ?_
      · rw [Nat.succ_mul]
        omega
      · rw [Nat.succ_mul, Nat.succ_mul]
        omega
    have hrest : min width (size - size / width * width) = size % width := by omega
    refine ⟨occupantOf members (size / width * width) (size % width), ?_⟩
    rw [hcount, chunksBefore_succ, hrest, if_neg h0]

theorem alignment_chunks (hw : width ∣ 8) :
    strictest (chunksBefore members size width ((size + width - 1) / width)) ∣ 8 := by
  have hpos : 0 < width := Nat.pos_of_dvd_of_pos hw (by decide)
  have hle : width ≤ 8 := Nat.le_of_dvd (by decide) hw
  obtain ⟨occupant, heq⟩ := chunks_eq members size hpos
  refine strictest_dvd ?_
  rw [heq]
  intro r hr
  rcases List.mem_append.mp hr with hr | hr
  · exact Nat.dvd_trans
      (alignment_chunksBefore members hw (Nat.div_mul_le_self size width) r hr) hw
  · split at hr
    · cases hr
    next h0 =>
      have hmod := Nat.mod_lt size hpos
      exact alignment_chunkRecords_dvd occupant (by omega) (by omega) r hr

/-- The chunks fill the bytes, if there is an integer for the last one. -/
theorem extent_chunks (hw : width ∣ 8) (h : size % width = 0 ∨ size % width ∣ 8) :
    extent 0 (chunksBefore members size width ((size + width - 1) / width)) = size := by
  have hpos : 0 < width := Nat.pos_of_dvd_of_pos hw (by decide)
  have hdiv := Nat.div_add_mod' size width
  obtain ⟨occupant, heq⟩ := chunks_eq members size hpos
  rw [heq, extent_append, extent_chunksBefore members hw (Nat.div_mul_le_self size width)]
  split
  · rw [extent_nil]
    omega
  next h0 =>
    have hrest := h.resolve_left h0
    -- both widths are powers of two
    have hdvd : ∀ w < 9, ∀ r < w, w ∣ 8 → r ∣ 8 → r ∣ w := by decide
    have hlt := Nat.lt_succ_of_le (Nat.le_of_dvd (by decide) hw)
    have hwidth := hdvd width hlt _ (Nat.mod_lt size hpos) hw hrest
    rw [extent_chunkRecords occupant hrest (Nat.dvd_trans hwidth (Nat.dvd_mul_left ..))]
    omega

theorem lt_extent_chunks (hw : width ∣ 8) (h0 : size % width ≠ 0) (h : ¬ size % width ∣ 8) :
    size < extent 0 (chunksBefore members size width ((size + width - 1) / width)) := by
  have hpos : 0 < width := Nat.pos_of_dvd_of_pos hw (by decide)
  have hdiv := Nat.div_add_mod' size width
  have hmod := Nat.mod_lt size hpos
  have hle : width ≤ 8 := Nat.le_of_dvd (by decide) hw
  obtain ⟨occupant, heq⟩ := chunks_eq members size hpos
  rw [heq, extent_append, extent_chunksBefore members hw (Nat.div_mul_le_self size width),
    if_neg h0, chunkRecords_odd occupant h (by omega) (by omega), extent_cons, extent_nil]
  have hint : Record.alignment (.int .uint64) = 8 ∧ Record.size (.int .uint64) = 8 :=
    ⟨by rw [Record.alignment]; rfl, by rw [Record.size]; rfl⟩
  rw [hint.1, hint.2]
  have hround : size / width * width ≤ roundUp (size / width * width) 8 :=
    le_roundUp _ (by decide)
  omega

end

/-- When a record that has been cut into chunks has the size of the bytes. -/
theorem size_chunkedRecord_iff (members : List Member) (size alignment : Nat) :
    (chunkedRecord members size alignment).size = size ↔
      (chunkedRecord members size alignment).alignment ∣ size ∧
        size % chunkWidth alignment ∈ [0, 1, 2, 4] := by
  have hw := chunkWidth_dvd alignment
  have heq : chunkedRecord members size alignment = .struct
      (chunksBefore members size (chunkWidth alignment)
        ((size + chunkWidth alignment - 1) / chunkWidth alignment)) := rfl
  have hrest : size % chunkWidth alignment ∈ [0, 1, 2, 4] ↔
      size % chunkWidth alignment = 0 ∨ size % chunkWidth alignment ∣ 8 := by
    have hlt := Nat.mod_lt size (Nat.pos_of_dvd_of_pos hw (by decide))
    have hle : chunkWidth alignment ≤ 8 := Nat.le_of_dvd (by decide) hw
    rw [dvd_eight]
    simp only [List.mem_cons, List.not_mem_nil, or_false]
    omega
  rw [heq, Record.size, Record.alignment, hrest]
  constructor
  · intro h
    by_cases hr : size % chunkWidth alignment = 0 ∨ size % chunkWidth alignment ∣ 8
    · rw [extent_chunks members hw hr] at h
      exact ⟨(roundUp_eq_self (strictest_pos _)).mp h, hr⟩
    · rw [not_or] at hr
      have hlt := lt_extent_chunks members hw hr.1 hr.2
      exact absurd h (Nat.ne_of_gt (Nat.lt_of_lt_of_le hlt (le_roundUp _ (strictest_pos _))))
  · rintro ⟨hd, hr⟩
    rw [extent_chunks members hw hr]
    exact (roundUp_eq_self (strictest_pos _)).mpr hd

theorem alignment_chunkedRecord (members : List Member) (size alignment : Nat) :
    (chunkedRecord members size alignment).alignment ∣ 8 := by
  rw [chunkedRecord, Record.alignment]
  exact alignment_chunks members (chunkWidth_dvd alignment)

/-- Chunks that are all of full width have the size of the bytes. -/
theorem size_chunkedRecord_of_dvd (members : List Member) {size alignment : Nat}
    (h : chunkWidth alignment ∣ size) : (chunkedRecord members size alignment).size = size := by
  have hw := chunkWidth_dvd alignment
  have hmod := Nat.mod_eq_zero_of_dvd h
  obtain ⟨occupant, heq⟩ := chunks_eq members size (Nat.pos_of_dvd_of_pos hw (by decide))
  rw [if_pos hmod, List.append_nil] at heq
  rw [size_chunkedRecord_iff, hmod]
  refine ⟨Nat.dvd_trans ?_ h, List.mem_cons_self⟩
  have hstrict := strictest_dvd (alignment_chunksBefore members hw (Nat.div_mul_le_self size _))
  rw [← heq] at hstrict
  rw [chunkedRecord, Record.alignment]
  exact hstrict

/-! ## Whole layouts -/

mutual
/-- Whether every layout inside a type that is cut into chunks has its alignment in its record. -/
def Ty.keepsAlignment : Ty → Bool
  | .struct l => l.keepsAlignment
  | .array c _ => c.keepsAlignment
  | _ => true

/-- Whether a layout, and every layout inside one that is not cut, has its alignment. -/
def Layout.keepsAlignment : Layout → Bool
  | ⟨fields, size, alignment, _, natural⟩ =>
    if natural then fieldsKeepAlignment fields
    else (chunkedRecord (fieldMembersFrom 0 fields) size alignment).alignment == alignment

/-- Whether the types of all fields do. -/
def fieldsKeepAlignment : List Field → Bool
  | [] => true
  | ⟨_, _, ty⟩ :: rest => ty.keepsAlignment && fieldsKeepAlignment rest
end

theorem fieldsKeepAlignment_iff {fields : List Field} :
    fieldsKeepAlignment fields = true ↔ ∀ f ∈ fields, f.ty.keepsAlignment = true := by
  induction fields with
  | nil => simp [fieldsKeepAlignment]
  | cons f rest ih =>
    obtain ⟨name, offset, ty⟩ := f
    rw [fieldsKeepAlignment, Bool.and_eq_true, ih, List.forall_mem_cons]

theorem Layout.record_eq (l : Layout) :
    l.record = if l.natural then .struct (fieldRecords l.fields)
      else chunkedRecord (fieldMembersFrom 0 l.fields) l.size l.alignment := by
  obtain ⟨fields, size, alignment, isUnion, natural⟩ := l
  rw [record]

theorem Layout.keepsAlignment_eq (l : Layout) :
    l.keepsAlignment = if l.natural then fieldsKeepAlignment l.fields
      else l.record.alignment == l.alignment := by
  obtain ⟨fields, size, alignment, isUnion, natural⟩ := l
  rw [keepsAlignment, record]
  cases natural <;> rfl

namespace LayoutPlan

variable {plan : LayoutPlan} {l : Layout}

/-- Field by field, the record has the offsets, the size and the alignment of the layout. -/
theorem record_natural (h : plan.build = .ok l) (hn : l.natural = true)
    (hpos : ∀ f ∈ l.fields, 0 < f.ty.alignment) (hr : ∀ f ∈ l.fields, f.ty.Recorded) :
    (Ty.struct l).Recorded ∧ offsets 0 (fieldRecords l.fields) = l.fields.map Field.offset := by
  have hl := scansTo_of_build (aligned_of_build h hpos) h
  rw [hl.natural, Bool.and_eq_true, Bool.and_eq_true, decide_eq_true_eq, Bool.not_eq_true'] at hn
  obtain ⟨⟨hplaced, hle⟩, hu⟩ := hn
  obtain ⟨hextent, hstrict, hoffsets⟩ := natural_placementOf hu hplaced hr hpos
  have hstrict' : strictest (fieldRecords l.fields) = l.alignment := by
    rw [hstrict, hl.alignment, wholeAlignment, Nat.max_eq_left hle]
  have hrecord : (Ty.struct l).record = .struct (fieldRecords l.fields) := by
    rw [Ty.record, Layout.record_eq, hl.natural, hplaced, decide_eq_true hle, hu]
    rfl
  refine ⟨⟨?_, ?_⟩, hoffsets⟩
  · rw [hrecord, Record.size, hextent, hstrict', ← hl.size]
    rfl
  · rw [hrecord, Record.alignment, hstrict']
    rfl

/-- Cut into chunks, a layout whose record keeps its alignment keeps its size. -/
theorem record_chunked (h : plan.build = .ok l) (hpos : ∀ f ∈ l.fields, 0 < f.ty.alignment)
    (hn : l.natural = false) (hk : l.record.alignment = l.alignment) :
    (Ty.struct l).Recorded := by
  have hl := scansTo_of_build (aligned_of_build h hpos) h
  have hrecord : l.record = chunkedRecord (fieldMembersFrom 0 l.fields) l.size l.alignment := by
    rw [Layout.record_eq, hn]
    rfl
  have hdvd : l.alignment ∣ l.size := by
    rw [hl.size]
    exact dvd_roundUp _ _
  have hwidth : chunkWidth l.alignment = l.alignment := by
    refine chunkWidth_of_dvd ?_
    rw [← hk, hrecord]
    exact alignment_chunkedRecord _ _ _
  refine ⟨?_, ?_⟩
  · show (Ty.struct l).record.size = l.size
    rw [Ty.record, hrecord, size_chunkedRecord_iff, ← hrecord, hk, hwidth,
      Nat.mod_eq_zero_of_dvd hdvd]
    exact ⟨hdvd, List.mem_cons_self⟩
  · rw [Ty.record]
    exact hk

end LayoutPlan

/-- A type in which every layout keeps its alignment is described with its own size. -/
theorem Ty.Built.recorded {t : Ty} (ht : t.Built) (hk : t.keepsAlignment = true) :
    t.Recorded := by
  induction ht with
  | builtin b =>
    cases b <;> exact ⟨by rw [record, Record.size]; rfl, by rw [record, Record.alignment]; rfl⟩
  | array n _ ih =>
    rw [keepsAlignment] at hk
    obtain ⟨hsize, halign⟩ := ih hk
    refine ⟨?_, ?_⟩
    · rw [record, Record.size, hsize, Nat.mul_comm]
      rfl
    · rw [record, Record.alignment, halign]
      rfl
  | charArray n =>
    refine ⟨?_, ?_⟩
    · rw [record, Record.size, Record.size]
      exact Nat.mul_one n
    · rw [record, Record.alignment, Record.alignment]
      rfl
  | enumeration _ => exact ⟨by rw [record, Record.size]; rfl, by rw [record, Record.alignment]; rfl⟩
  | callback s => exact ⟨by rw [record, Record.size]; rfl, by rw [record, Record.alignment]; rfl⟩
  | @struct plan l h hf ih =>
    have hpos : ∀ f ∈ l.fields, 0 < f.ty.alignment := fun f hm => (hf f hm).alignment_pos
    rw [keepsAlignment, Layout.keepsAlignment_eq] at hk
    cases hn : l.natural with
    | true =>
      rw [hn, if_pos rfl, fieldsKeepAlignment_iff] at hk
      exact (LayoutPlan.record_natural h hn hpos fun f hm => ih f hm (hk f hm)).1
    | false =>
      rw [hn] at hk
      exact LayoutPlan.record_chunked h hpos hn (beq_iff_eq.mp hk)

/--
The record of a layout and the layout. Described field by field, it has the offsets and the size of
the layout if every layout inside keeps its alignment. Cut into chunks, it has the size exactly
when its alignment divides the size and there is an integer for the last chunk.
-/
theorem Layout.record_rule {plan : LayoutPlan} {l : Layout} (h : plan.build = .ok l)
    (hf : ∀ f ∈ l.fields, f.ty.Built) :
    (l.natural = true → (∀ f ∈ l.fields, f.ty.keepsAlignment = true) →
      l.record.size = l.size ∧
        Record.offsets 0 (fieldRecords l.fields) = l.fields.map Field.offset) ∧
      (l.natural = false → (l.record.size = l.size ↔
        l.record.alignment ∣ l.size ∧ l.size % chunkWidth l.alignment ∈ [0, 1, 2, 4])) := by
  have hpos : ∀ f ∈ l.fields, 0 < f.ty.alignment := fun f hm => (hf f hm).alignment_pos
  constructor
  · intro hn hk
    obtain ⟨hrecord, hoffsets⟩ :=
      LayoutPlan.record_natural h hn hpos fun f hm => (hf f hm).recorded (hk f hm)
    refine ⟨?_, hoffsets⟩
    have hsize := hrecord.size
    rw [Ty.record] at hsize
    exact hsize
  · intro hn
    rw [record_eq, hn]
    exact size_chunkedRecord_iff _ _ _

namespace LayoutPlan

/-- A double and an integer on top of each other. -/
def number : LayoutPlan :=
  ofFields [⟨"real", .descriptor (.ofBuiltin (.float .float64)), none⟩,
    ⟨"bits", .descriptor (.ofBuiltin (.int .int64)), none⟩] true

/-- What `number` builds; its record is one integer. -/
def numberLayout : Layout :=
  ⟨[⟨"real", 0, .builtin (.float .float64)⟩, ⟨"bits", 0, .builtin (.int .int64)⟩],
    8, 8, true, false⟩

/-- A number behind a byte. -/
def tagged : LayoutPlan :=
  ofFields [⟨"tag", .descriptor (.ofBuiltin (.int ⟨false, .w8⟩)), none⟩,
    ⟨"value", .descriptor ⟨.struct numberLayout, 100⟩, none⟩] false

/-- Two floats, aligned as a double. -/
def pair : LayoutPlan :=
  { ofFields [⟨"a", .descriptor (.ofBuiltin (.float .float32)), none⟩,
      ⟨"b", .descriptor (.ofBuiltin (.float .float32)), none⟩] false with alignment := some 8 }

/-- What `pair` builds; its record is two floats. -/
def pairLayout : Layout :=
  ⟨[⟨"a", 0, .builtin (.float .float32)⟩, ⟨"b", 4, .builtin (.float .float32)⟩],
    8, 8, false, false⟩

/-- A pair behind a float. -/
def misplaced : LayoutPlan :=
  ofFields [⟨"x", .descriptor (.ofBuiltin (.float .float32)), none⟩,
    ⟨"y", .descriptor ⟨.struct pairLayout, 100⟩, none⟩] false

end LayoutPlan

theorem Layout.record_rule_tagged :
    ∃ l, LayoutPlan.tagged.build = .ok l ∧ l.natural = true ∧ l.size = 16 ∧
      l.record.size = l.size ∧ Record.offsets 0 (fieldRecords l.fields) = [0, 8] := by
  have hnumber : (Ty.struct LayoutPlan.numberLayout).Built := by
    refine @Ty.Built.struct LayoutPlan.number _ rfl ?_
    simp only [LayoutPlan.numberLayout, List.forall_mem_cons, List.not_mem_nil, false_implies,
      implies_true, and_true]
    exact ⟨.builtin _, .builtin _⟩
  have hfields : ∀ f ∈ [Field.mk "tag" 0 (.builtin (.int ⟨false, .w8⟩)),
      ⟨"value", 8, .struct LayoutPlan.numberLayout⟩], f.ty.Built ∧ f.ty.keepsAlignment = true := by
    simp only [List.forall_mem_cons, List.not_mem_nil, false_implies, implies_true, and_true]
    exact ⟨⟨.builtin _, rfl⟩, hnumber, by decide⟩
  have hbuild : LayoutPlan.tagged.build = .ok ⟨[⟨"tag", 0, .builtin (.int ⟨false, .w8⟩)⟩,
    ⟨"value", 8, .struct LayoutPlan.numberLayout⟩], 16, 8, false, true⟩ := rfl
  obtain ⟨hsize, hoffsets⟩ :=
    (Layout.record_rule hbuild fun f hm => (hfields f hm).1).1 rfl fun f hm => (hfields f hm).2
  exact ⟨_, hbuild, rfl, rfl, hsize, hoffsets⟩

/-- The pair is described as two floats, and comes to stand where a float may stand. -/
theorem Layout.record_rule_misplaced :
    LayoutPlan.pair.build = .ok LayoutPlan.pairLayout ∧
      ∃ l, LayoutPlan.misplaced.build = .ok l ∧ l.natural = true ∧ l.size = 16 ∧
        l.record.size = 12 ∧ l.fields.map Field.offset = [0, 8] ∧
        Record.offsets 0 (fieldRecords l.fields) = [0, 4] := by
  refine ⟨rfl, ⟨[⟨"x", 0, .builtin (.float .float32)⟩, ⟨"y", 8, .struct LayoutPlan.pairLayout⟩],
    16, 8, false, true⟩, rfl, rfl, rfl, ?_, rfl, ?_⟩
  · decide
  · decide

end ForeignCall
