import ForeignCall.Proofs.Layout.Records
import ForeignCall.Proofs.Struct.Slots

/-!
# Alignments of types inside types

A type is regular when no layout in it is packed or has offsets of its own, and every explicit
alignment is a power of two (`Ty.Regular`). Then all alignments are powers of two, so a layout is a
multiple of every alignment in it as soon as it is as large, and every field stands at a multiple of
the alignment of its type.

Main statement: `Ty.Regular.aligned_of_has`. In a regular type at an aligned address every type
inside, at any depth and index, is naturally aligned.
-/

namespace ForeignCall

/-! ## Regular types -/

/-- A plan that caps no alignment and places no field by itself, and raises the alignment of the
whole to none but a power of two. -/
structure LayoutPlan.Regular (plan : LayoutPlan) : Prop where
  uncapped : plan.packed = none
  unplaced : ∀ d ∈ plan.declarations, d.offset = none
  power : ∀ a, plan.alignment = some a → a.isPowerOfTwo

/-- A type whose layouts, at any depth, have all been built from regular plans. -/
inductive Ty.Regular : Ty → Prop where
  | builtin (b : Builtin) : Regular (.builtin b)
  | array {c : Ty} (n : Nat) (h : Regular c) : Regular (.array c n)
  | charArray (n : Nat) : Regular (.charArray n)
  | enumeration (table : Enumeration) : Regular (.enumeration table)
  | callback (s : Signature) : Regular (.callback s)
  | struct {plan : LayoutPlan} {l : Layout} (h : plan.build = .ok l) (hp : plan.Regular)
      (hf : ∀ f ∈ l.fields, Regular f.ty) : Regular (.struct l)

/-- Of two powers of two the smaller one divides the other. -/
theorem dvd_of_powers_le {a b : Nat} (ha : a.isPowerOfTwo) (hb : b.isPowerOfTwo) (h : a ≤ b) :
    a ∣ b := by
  obtain ⟨i, rfl⟩ := ha
  obtain ⟨j, rfl⟩ := hb
  exact Nat.pow_dvd_pow 2 ((Nat.pow_le_pow_iff_right (by decide)).mp h)

theorem Builtin.alignment_power (b : Builtin) : b.alignment.isPowerOfTwo := by
  have h : ∀ c ∈ Builtin.all, ∃ k < 4, c.alignment = 2 ^ k := by decide
  obtain ⟨k, -, hk⟩ := h b b.mem_all
  exact ⟨k, hk⟩

theorem Builtin.alignment_dvd_size (b : Builtin) : b.alignment ∣ b.size := by
  have h : ∀ c ∈ Builtin.all, c.alignment ∣ c.size := by decide
  exact h b b.mem_all

/-! ## One layout -/

namespace LayoutPlan

variable {plan : LayoutPlan} {l : Layout}

/-- What the layout of a regular plan does for its fields. -/
structure Aligns (l : Layout) : Prop where
  power : l.alignment.isPowerOfTwo
  size : l.alignment ∣ l.size
  field : ∀ f ∈ l.fields, f.ty.alignment ∣ f.offset ∧ f.ty.alignment ∣ l.alignment

/-- A field of a regular plan stands at a multiple of the alignment of its type. -/
theorem Regular.offset_dvd (hp : plan.Regular) (h : plan.Describes l) {f : Field}
    (hf : f ∈ l.fields) : f.ty.alignment ∣ f.offset := by
  obtain ⟨i, hi, rfl⟩ := List.getElem_of_mem hf
  have hd : i < plan.declarations.length := h.length ▸ hi
  have hplace := h.placed i hd hi
  cases hu : plan.isUnion with
  | true =>
    rw [hplace.union hu]
    exact Nat.dvd_zero _
  | false =>
    have hleast := hplace.least hu (hp.unplaced _ (List.getElem_mem hd))
    rw [fieldAlignment_of_none hp.uncapped] at hleast
    exact hleast.1.1

theorem Regular.alignment_power (hp : plan.Regular) (h : plan.Describes l)
    (hf : ∀ f ∈ l.fields, f.ty.alignment.isPowerOfTwo) : l.alignment.isPowerOfTwo := by
  rcases h.alignment.1 with h1 | ⟨f, hm, ha⟩ | ha
  · exact ⟨0, h1⟩
  · rw [fieldAlignment_of_none hp.uncapped] at ha
    rw [← ha]
    exact hf f hm
  · exact hp.power _ ha

/-- The layout of a regular plan is aligned for each of its fields. -/
theorem Regular.aligns (hp : plan.Regular) (h : plan.build = .ok l)
    (hf : ∀ f ∈ l.fields, f.ty.alignment.isPowerOfTwo) : Aligns l := by
  have hpos : ∀ f ∈ l.fields, 0 < f.ty.alignment := by
    intro f hm
    obtain ⟨k, hk⟩ := hf f hm
    rw [hk]
    exact Nat.two_pow_pos k
  have hd := (scansTo_of_build (aligned_of_build h hpos) h).describes
  have hpower := hp.alignment_power hd hf
  refine ⟨hpower, hd.size.1.1, fun f hm => ⟨hp.offset_dvd hd hm, ?_⟩⟩
  refine dvd_of_powers_le (hf f hm) hpower (hd.alignment.2 (Or.inr (Or.inl ⟨f, hm, ?_⟩)))
  exact fieldAlignment_of_none hp.uncapped f.ty

end LayoutPlan

/-! ## Types at any depth -/

namespace Ty

variable {t u : Ty} {o : Nat}

theorem Regular.alignment_power (ht : t.Regular) : t.alignment.isPowerOfTwo := by
  induction ht with
  | builtin b => exact b.alignment_power
  | array n _ ih => exact ih
  | charArray n => exact ⟨0, rfl⟩
  | enumeration table => exact ⟨2, rfl⟩
  | callback s => exact ⟨3, rfl⟩
  | struct h hp _ ih => exact (hp.aligns h ih).power

/-- What stands inside a regular type is regular itself. -/
theorem Regular.of_has (ht : t.Regular) (h : t.Has o u) : u.Regular := by
  induction h with
  | self _ => exact ht
  | field hm _ ih =>
    cases ht with
    | struct _ _ hf => exact ih (hf _ hm)
  | item _ _ ih =>
    cases ht with
    | array _ hc => exact ih hc

theorem Regular.alignment_dvd_size (ht : t.Regular) : t.alignment ∣ t.size := by
  induction ht with
  | builtin b => exact b.alignment_dvd_size
  | array n _ ih => exact Nat.dvd_mul_right_of_dvd ih n
  | charArray n => exact Nat.one_dvd n
  | enumeration table => exact Nat.dvd_refl 4
  | callback s => exact Nat.dvd_refl 8
  | struct h hp hf _ => exact (hp.aligns h fun f hm => (hf f hm).alignment_power).size

/-- A type inside a regular one stands at a multiple of its alignment, which divides that of the
outer one. -/
theorem Regular.dvd_of_has (ht : t.Regular) (h : t.Has o u) :
    u.alignment ∣ o ∧ u.alignment ∣ t.alignment := by
  induction h with
  | self _ => exact ⟨Nat.dvd_zero _, Nat.dvd_refl _⟩
  | @field l f o u hm _ ih =>
    cases ht with
    | struct hb hp hf =>
      obtain ⟨ho, ha⟩ := ih (hf f hm)
      obtain ⟨hoffset, houter⟩ :=
        (hp.aligns hb fun g hg => (hf g hg).alignment_power).field f hm
      exact ⟨Nat.dvd_add (Nat.dvd_trans ha hoffset) ho, Nat.dvd_trans ha houter⟩
  | @item c n i o u _ _ ih =>
    cases ht with
    | array _ hc =>
      obtain ⟨ho, ha⟩ := ih hc
      -- whole items before this one keep the alignment
      have hbefore : u.alignment ∣ i * c.size :=
        Nat.dvd_mul_left_of_dvd (Nat.dvd_trans ha hc.alignment_dvd_size) i
      exact ⟨Nat.dvd_add hbefore ho, ha⟩

/--
Alignments compose. What stands inside a regular type, at any depth and index, stands at a multiple
of its own alignment and has a size that is one, and the alignment of the outer type is a multiple
of it. So it is naturally aligned in every element of an array that begins at an aligned address.
-/
theorem Regular.aligned_of_has (ht : t.Regular) (h : t.Has o u) :
    u.alignment ∣ o ∧ u.alignment ∣ u.size ∧ u.alignment ∣ t.alignment ∧
      ∀ (v : View) (offset i p : Nat), t.alignment ∣ v.address + offset →
        elementOffset v offset t i = .ok p → u.alignment ∣ v.address + p + o := by
  obtain ⟨ho, ha⟩ := ht.dvd_of_has h
  refine ⟨ho, (ht.of_has h).alignment_dvd_size, ha, fun v offset i p hv hp => ?_⟩
  obtain rfl := elementOffset_eq_ok hp
  -- the element is one of an array that has come to stand at the offset
  have helement : u.alignment ∣ i * t.size :=
    Nat.dvd_mul_left_of_dvd (Nat.dvd_trans ha ht.alignment_dvd_size) i
  have hstart : u.alignment ∣ v.address + offset := Nat.dvd_trans ha hv
  have hsum : v.address + (i * t.size + offset) + o = v.address + offset + i * t.size + o := by
    omega
  rw [hsum]
  exact Nat.dvd_add (Nat.dvd_add hstart helement) ho

end Ty

/-! ## Tagged numbers -/

namespace LayoutPlan

/-- A number behind a byte, aligned to 16 bytes. -/
def cell : LayoutPlan := { tagged with alignment := some 16 }

/-- What `cell` builds. -/
def cellLayout : Layout :=
  ⟨[⟨"tag", 0, .builtin (.int ⟨false, .w8⟩)⟩, ⟨"value", 8, .struct numberLayout⟩],
    16, 16, false, false⟩

theorem regular_ofFields {declarations : List Declaration} (isUnion : Bool)
    (h : ∀ d ∈ declarations, d.offset = none) : (ofFields declarations isUnion).Regular :=
  ⟨rfl, h, fun _ ha => by cases ha⟩

theorem regular_cellLayout : (Ty.struct cellLayout).Regular := by
  have hnumber : (Ty.struct numberLayout).Regular := by
    refine @Ty.Regular.struct number _ rfl (regular_ofFields true ?_) ?_
    · simp
    · simp only [numberLayout, List.forall_mem_cons, List.not_mem_nil, false_implies,
        implies_true, and_true]
      exact ⟨.builtin _, .builtin _⟩
  refine @Ty.Regular.struct cell _ rfl ⟨rfl, ?_, ?_⟩ ?_
  · simp [cell, tagged, ofFields]
  · intro a ha
    obtain rfl := Option.some.inj ha
    exact ⟨4, rfl⟩
  · simp only [cellLayout, List.forall_mem_cons, List.not_mem_nil, false_implies, implies_true,
      and_true]
    exact ⟨.builtin _, hnumber⟩

end LayoutPlan

/-- The double in the union of the third cell of an array at 4096. -/
theorem Ty.Regular.aligned_of_has_cell :
    (Ty.struct LayoutPlan.cellLayout).Has 8 (.builtin (.float .float64)) ∧
      elementOffset (.sized 4096 48) 0 (.struct LayoutPlan.cellLayout) 2 = .ok 32 ∧
      8 ∣ 4096 + 32 + 8 := by
  have hnumber : (Ty.struct LayoutPlan.numberLayout).Has (0 + 0) (.builtin (.float .float64)) :=
    .field (f := ⟨"real", 0, .builtin (.float .float64)⟩) List.mem_cons_self (.self _)
  have hcell : (Ty.struct LayoutPlan.cellLayout).Has (8 + (0 + 0)) (.builtin (.float .float64)) :=
    .field (f := ⟨"value", 8, .struct LayoutPlan.numberLayout⟩)
      (List.mem_cons_of_mem _ List.mem_cons_self) hnumber
  obtain ⟨-, -, -, helements⟩ := LayoutPlan.regular_cellLayout.aligned_of_has hcell
  exact ⟨hcell, rfl, helements (.sized 4096 48) 0 2 32 (by decide) rfl⟩

end ForeignCall
