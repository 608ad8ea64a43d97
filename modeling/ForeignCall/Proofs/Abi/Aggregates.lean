import Mathlib.Data.List.Nodup
import Mathlib.Data.List.Perm.Subperm
import ForeignCall.Abi.Classification
import ForeignCall.Proofs.Struct.Slots

/-!
# Aggregates of floats

On AArch64 a struct of more than 16 bytes is returned in registers if it is made of at most four
floats of one kind, one beside the other (`Layout.FloatAggregate`). What the census of a layout
tells is how many floats there are, wherever they stand (`Layout.homogeneousFloats?_eq_some_iff`).
That is the number of elements as long as the floats neither leave gaps nor lie on top of each other
(`Layout.CountsElements`).

Main statement: `Layout.aarch64_class`. `Layout.aarch64_class_overlaid` is a union of two arrays of
four doubles, which has eight doubles and four elements.
-/

namespace ForeignCall

open Abi

/-! ## Scalar members -/

/-- A scalar member of a type: where it begins, and of which kind it is. -/
structure Scalar where
  offset : Nat
  kind : Kind
  deriving DecidableEq, Repr

mutual

/-- The scalar members of a type that begins at `start`, those of an array one after another. -/
def Ty.scalarsFrom (start : Nat) : Ty → List Scalar
  | .struct l => l.scalarsFrom start
  | .array c n => (List.range n).flatMap fun i => c.scalarsFrom (start + i * c.size)
  | .charArray n => (List.range n).map fun i => ⟨start + i, Ty.char.kind⟩
  | .builtin b => [⟨start, .builtin b⟩]
  | .enumeration _ => [⟨start, .enumeration⟩]
  | .callback _ => [⟨start, .callback⟩]

/-- The scalar members of a layout that begins at `start`. -/
def Layout.scalarsFrom (start : Nat) : Layout → List Scalar
  | ⟨fields, _, _, _, _⟩ => fieldScalarsFrom start fields

/-- The scalar members of fields of a layout that begins at `start`. -/
def fieldScalarsFrom (start : Nat) : List Field → List Scalar
  | [] => []
  | ⟨_, offset, ty⟩ :: rest => ty.scalarsFrom (start + offset) ++ fieldScalarsFrom start rest

end

theorem fieldScalarsFrom_eq (start : Nat) (fields : List Field) : fieldScalarsFrom start fields =
    fields.flatMap fun f => f.ty.scalarsFrom (start + f.offset) := by
  induction fields with
  | nil => rfl
  | cons f rest ih =>
    obtain ⟨name, offset, ty⟩ := f
    rw [fieldScalarsFrom, ih, List.flatMap_cons]

theorem scalarsFrom_struct (start : Nat) (l : Layout) : (Ty.struct l).scalarsFrom start =
    l.fields.flatMap fun f => f.ty.scalarsFrom (start + f.offset) := by
  obtain ⟨fields, size, alignment, isUnion, natural⟩ := l
  rw [Ty.scalarsFrom, Layout.scalarsFrom, fieldScalarsFrom_eq]

/-- The scalar members of a layout. -/
def Layout.scalars (l : Layout) : List Scalar := l.scalarsFrom 0

/-! ## Floats of one kind -/

/-- The scalars are floats of one kind, and there are some. -/
structure AllFloats (k : FloatKind) (members : List Scalar) : Prop where
  nonempty : members ≠ []
  alike : ∀ m ∈ members, m.kind = .builtin (.float k)

namespace AllFloats

variable {k j : FloatKind} {ms ns : List Scalar}

theorem unique (hk : AllFloats k ms) (hj : AllFloats j ms) : k = j := by
  obtain ⟨m, hm⟩ := List.exists_mem_of_ne_nil ms hk.nonempty
  have hkind := (hk.alike m hm).symm.trans (hj.alike m hm)
  cases hkind
  rfl

theorem append (hm : AllFloats k ms) (hn : AllFloats k ns) : AllFloats k (ms ++ ns) where
  nonempty := by simp [hm.nonempty]
  alike m h := (List.mem_append.mp h).elim (hm.alike m) (hn.alike m)

/-- Some of the floats of one kind are floats of that kind. -/
theorem of_subset (h : AllFloats k ms) (hn : ns ≠ []) (hsub : ns ⊆ ms) : AllFloats k ns :=
  ⟨hn, fun m hm => h.alike m (hsub hm)⟩

theorem perm (h : AllFloats k ms) (hp : ms.Perm ns) : AllFloats k ns :=
  h.of_subset (fun hn => h.nonempty (hn ▸ hp).eq_nil) hp.symm.subset

end AllFloats

/-! ## The census -/

namespace Abi.Census

/-- What a census tells about scalars. -/
def Tells : Census → List Scalar → Prop
  | .empty, members => members = []
  | .floats k n, members => AllFloats k members ∧ members.length = n
  | .mixed, members => members ≠ [] ∧ ∀ k, ¬ AllFloats k members

variable {c d : Census} {ms ns : List Scalar}

/-- What is mixed stays so, whatever comes to it. -/
theorem Tells.of_subset (h : Census.mixed.Tells ms) (hsub : ms ⊆ ns) : Census.mixed.Tells ns :=
  ⟨fun hn => h.1 (List.subset_nil.mp (hn ▸ hsub)), fun k hk => h.2 k (hk.of_subset h.1 hsub)⟩

/-- The census of two parts tells about both together. -/
theorem Tells.join (hc : c.Tells ms) (hd : d.Tells ns) : (c.join d).Tells (ms ++ ns) := by
  cases c with
  | empty =>
    obtain rfl : ms = [] := hc
    exact hd
  | mixed =>
    have hmixed := Tells.of_subset hc (List.subset_append_left ms ns)
    cases d <;> exact hmixed
  | floats k m =>
    obtain ⟨hk, rfl⟩ := hc
    cases d with
    | empty =>
      obtain rfl : ns = [] := hd
      rw [List.append_nil]
      exact ⟨hk, rfl⟩
    | mixed => exact Tells.of_subset hd (List.subset_append_right ms ns)
    | floats j n =>
      obtain ⟨hj, rfl⟩ := hd
      by_cases h : k = j
      · subst h
        simp only [Census.join, if_true]
        exact ⟨hk.append hj, List.length_append⟩
      · simp only [Census.join, if_neg h]
        refine ⟨(by simp [hk.nonempty] : ms ++ ns ≠ []), fun i hi => h ?_⟩
        exact (hk.unique (hi.of_subset hk.nonempty (List.subset_append_left ms ns))).trans
          ((hi.of_subset hj.nonempty (List.subset_append_right ms ns)).unique hj)

/-- The census of equal parts, each of which the census of one tells about. -/
theorem Tells.times {n : Nat} {part : Nat → List Scalar} (h : ∀ i < n, c.Tells (part i)) :
    (c.times n).Tells ((List.range n).flatMap part) := by
  induction n with
  | zero => rfl
  | succ n ih =>
    have hsucc : c.times (n + 1) = (c.times n).join c := by
      cases c with
      | floats k m =>
        by_cases hn : n = 0
        · subst hn
          simp [Census.times, Census.join]
        · simp [Census.times, Census.join, hn, Nat.add_mul]
      | _ => by_cases hn : n = 0 <;> simp [Census.times, Census.join, hn]
    rw [hsucc, List.range_succ, List.flatMap_append, List.flatMap_singleton]
    exact (ih fun i hi => h i (Nat.lt_succ_of_lt hi)).join (h n (Nat.lt_succ_self n))

/-- A scalar that is no float. -/
theorem tells_mixed (offset : Nat) {kind : Kind} (h : ∀ k, kind ≠ .builtin (.float k)) :
    Census.mixed.Tells [⟨offset, kind⟩] :=
  ⟨List.cons_ne_nil _ _, fun k hk => h k (hk.alike _ List.mem_cons_self)⟩

end Abi.Census

mutual

/-- The census of a type tells about its scalar members. -/
theorem Ty.tells_floats (start : Nat) : ∀ t : Ty, t.floats.Tells (t.scalarsFrom start)
  | .struct l => by
    rw [Ty.floats, Ty.scalarsFrom]
    exact l.tells_floats start
  | .array c n => by
    rw [Ty.floats, Ty.scalarsFrom]
    exact Census.Tells.times fun i _ => c.tells_floats (start + i * c.size)
  | .charArray n => by
    rw [Ty.floats, Ty.scalarsFrom, List.map_eq_flatMap]
    exact Census.Tells.times fun i _ => Census.tells_mixed (start + i) nofun
  | .builtin b => by
    cases b with
    | float k =>
      rw [Ty.floats, Ty.scalarsFrom]
      exact ⟨⟨List.cons_ne_nil _ _, List.forall_mem_singleton.mpr rfl⟩, rfl⟩
    | _ => exact Census.tells_mixed start nofun
  | .enumeration _ => Census.tells_mixed start nofun
  | .callback _ => Census.tells_mixed start nofun

/-- The census of a layout tells about its scalar members. -/
theorem Layout.tells_floats (start : Nat) : ∀ l : Layout, l.floats.Tells (l.scalarsFrom start)
  | ⟨fields, _, _, _, _⟩ => by
    rw [Layout.floats, Layout.scalarsFrom]
    exact tells_fieldFloats start fields

/-- The census of fields tells about their scalar members. -/
theorem tells_fieldFloats (start : Nat) :
    ∀ fields : List Field, (fieldFloats fields).Tells (fieldScalarsFrom start fields)
  | [] => rfl
  | ⟨_, offset, ty⟩ :: rest => by
    rw [fieldFloats, fieldScalarsFrom]
    exact (ty.tells_floats (start + offset)).join (tells_fieldFloats start rest)

end

namespace Layout

variable {l : Layout} {k : FloatKind} {n : Nat}

/-- What is counted are the floats of a layout that has floats of one kind and nothing else. -/
theorem homogeneousFloats?_eq_some_iff :
    l.homogeneousFloats? = some (k, n) ↔ AllFloats k l.scalars ∧ l.scalars.length = n := by
  have htells : l.floats.Tells l.scalars := l.tells_floats 0
  unfold homogeneousFloats?
  cases hc : l.floats with
  | empty =>
    rw [hc] at htells
    exact ⟨nofun, fun h => absurd htells h.1.nonempty⟩
  | mixed =>
    rw [hc] at htells
    exact ⟨nofun, fun h => absurd h.1 (htells.2 k)⟩
  | floats j m =>
    rw [hc] at htells
    obtain ⟨hj, rfl⟩ := htells
    simp only [Option.some.injEq, Prod.mk.injEq]
    exact ⟨fun ⟨h, hn⟩ => ⟨h ▸ hj, hn⟩, fun ⟨h, hn⟩ => ⟨hj.unique h, hn⟩⟩

/-- A struct that is not returned in registers is returned in memory. -/
theorem returnClass_cases (family : Family) :
    (Ty.struct l).returnClass family = .registers ∧ l.inRegisters family = true ∨
      (Ty.struct l).returnClass family = .memory ∧ l.inRegisters family = false := by
  cases h : l.inRegisters family with
  | true => exact .inl ⟨by rw [Ty.returnClass, if_pos h], rfl⟩
  | false => exact .inr ⟨by rw [Ty.returnClass, h]; rfl, rfl⟩

/-- On AArch64 a struct is returned in registers by its size, or by the count of its floats. -/
theorem returnClass_aarch64 : (Ty.struct l).returnClass .aarch64 = .registers ↔
    l.size ≤ 16 ∨ ∃ k, AllFloats k l.scalars ∧ l.scalars.length ≤ 4 := by
  have hany : (l.homogeneousFloats?.any fun p => p.2 ≤ 4) = true ↔
      ∃ k, AllFloats k l.scalars ∧ l.scalars.length ≤ 4 := by
    simp only [Option.any_eq_true, Prod.exists, homogeneousFloats?_eq_some_iff, decide_eq_true_eq]
    constructor
    · rintro ⟨k, n, ⟨hk, rfl⟩, hn⟩
      exact ⟨k, hk, hn⟩
    · rintro ⟨k, hk, hn⟩
      exact ⟨k, _, ⟨hk, rfl⟩, hn⟩
  have hin : l.inRegisters .aarch64 = true ↔
      l.size ≤ 16 ∨ (l.homogeneousFloats?.any fun p => p.2 ≤ 4) = true := by
    rw [inRegisters, Bool.or_eq_true, decide_eq_true_eq]
  rw [← hany, ← hin]
  rcases l.returnClass_cases .aarch64 with ⟨hc, h⟩ | ⟨hc, h⟩ <;> simp [hc, h]

/-! ## Elements -/

/-- Every byte of the layout lies in a member of a width. -/
def Covered (l : Layout) (width : Nat) : Prop :=
  ∀ byte < l.size, ∃ m ∈ l.scalars, m.offset ≤ byte ∧ byte < m.offset + width

/-- No two members of a width lie on top of each other. -/
def Apart (l : Layout) (width : Nat) : Prop :=
  l.scalars.Pairwise fun m n => m.offset + width ≤ n.offset ∨ n.offset + width ≤ m.offset

/-- The bytes of a layout are at most four floats of a kind and nothing else. Floats on top of each
other count as one. -/
structure FloatAggregate (l : Layout) (k : FloatKind) : Prop where
  floats : AllFloats k l.scalars
  covered : l.Covered k.bytes
  four : l.size ≤ 4 * k.bytes

/-- If more than two words are floats of one kind, their number says of how many elements the layout
is made: at most four leave no byte free, and four elements are no more than four floats. -/
structure CountsElements (l : Layout) : Prop where
  gapless : ∀ k, 16 < l.size → AllFloats k l.scalars → l.scalars.length ≤ 4 → l.Covered k.bytes
  single : ∀ k, 16 < l.size → l.FloatAggregate k → l.scalars.length ≤ 4

/-- The bytes of the members, if these have a width. -/
def memberBytes (l : Layout) (width : Nat) : List Nat :=
  l.scalars.flatMap fun m => List.range' m.offset width

variable {width : Nat}

theorem length_memberBytes : (l.memberBytes width).length = l.scalars.length * width := by
  simp [memberBytes, List.length_flatMap]

/-- Members without a gap are as many as it takes to fill the layout. -/
theorem Covered.size_le (h : l.Covered width) : l.size ≤ l.scalars.length * width := by
  have hsub : List.range l.size ⊆ l.memberBytes width := by
    intro byte hb
    obtain ⟨m, hm, hle, hlt⟩ := h byte (List.mem_range.mp hb)
    exact List.mem_flatMap.mpr ⟨m, hm, List.mem_range'_1.mpr ⟨hle, hlt⟩⟩
  have hle := (List.nodup_range.subperm hsub).length_le
  rwa [List.length_range, length_memberBytes] at hle

/-- Members beside each other are no more than have room in the layout. -/
theorem Apart.length_mul_le (h : l.Apart width) (hin : ∀ m ∈ l.scalars, m.offset + width ≤ l.size) :
    l.scalars.length * width ≤ l.size := by
  have hnodup : (l.memberBytes width).Nodup := by
    refine List.nodup_flatMap.mpr ⟨fun m _ => List.nodup_range', h.imp fun {m n} hmn => ?_⟩
    intro byte hm hn
    have hm := List.mem_range'_1.mp hm
    have hn := List.mem_range'_1.mp hn
    omega
  have hsub : l.memberBytes width ⊆ List.range l.size := by
    intro byte hb
    obtain ⟨m, hm, hb⟩ := List.mem_flatMap.mp hb
    have hend := hin m hm
    have hb := List.mem_range'_1.mp hb
    exact List.mem_range.mpr (by omega)
  have hle := (hnodup.subperm hsub).length_le
  rwa [List.length_range, length_memberBytes] at hle

/-- Four floats without a gap are four elements at most. -/
theorem floatAggregate_iff {k : FloatKind} (hk : AllFloats k l.scalars)
    (hn : l.scalars.length ≤ 4) : l.FloatAggregate k ↔ l.Covered k.bytes := by
  refine ⟨FloatAggregate.covered, fun hc => ⟨hk, hc, Nat.le_trans hc.size_le ?_⟩⟩
  exact Nat.mul_le_mul_right k.bytes hn

end Layout

/-- A float in a type that has been built ends inside it. -/
theorem Ty.Built.float_inside {t : Ty} (ht : t.Built) {start : Nat} {m : Scalar} {k : FloatKind}
    (hm : m ∈ t.scalarsFrom start) (hk : m.kind = .builtin (.float k)) :
    m.offset + k.bytes ≤ start + t.size := by
  induction ht generalizing start with
  | builtin b =>
    rw [Ty.scalarsFrom, List.mem_singleton] at hm
    subst hm
    cases hk
    exact Nat.le_refl _
  | @array c n _ ih =>
    rw [Ty.scalarsFrom] at hm
    obtain ⟨i, hi, hm⟩ := List.mem_flatMap.mp hm
    have hend := ih hm
    have hitem : i * c.size + c.size ≤ c.size * n := element_le (List.mem_range.mp hi)
    show _ ≤ start + c.size * n
    omega
  | charArray n =>
    rw [Ty.scalarsFrom] at hm
    obtain ⟨i, -, rfl⟩ := List.mem_map.mp hm
    cases hk
  | enumeration _ =>
    rw [Ty.scalarsFrom, List.mem_singleton] at hm
    subst hm
    cases hk
  | callback s =>
    rw [Ty.scalarsFrom, List.mem_singleton] at hm
    subst hm
    cases hk
  | @struct plan l hb _ ih =>
    rw [scalarsFrom_struct, List.mem_flatMap] at hm
    obtain ⟨f, hf, hm⟩ := hm
    have hend := ih f hf hm
    have hfield := LayoutPlan.field_inside hb hf
    show _ ≤ start + l.size
    omega

namespace Layout

variable {l : Layout}

/-- Floats that fill a layout and do not lie on top of each other are its elements. -/
theorem countsElements_of_apart (hl : (Ty.struct l).Built)
    (h : ∀ k, AllFloats k l.scalars → l.Covered k.bytes ∧ l.Apart k.bytes) :
    l.CountsElements where
  gapless k _ hk _ := (h k hk).1
  single k _ ha := by
    have hin : ∀ m ∈ l.scalars, m.offset + k.bytes ≤ l.size := fun m hm => by
      have hend : m.offset + k.bytes ≤ 0 + l.size := hl.float_inside hm (ha.floats.alike m hm)
      rwa [Nat.zero_add] at hend
    have hfit := (h k ha.floats).2.length_mul_le hin
    exact Nat.le_of_mul_le_mul_right (Nat.le_trans hfit ha.four) (by cases k <;> decide)

/--
Where AArch64 returns a struct.

A struct is returned in registers or in memory. That it is returned in registers exactly if it has
at most 16 bytes, or these are at most four floats of one kind beside each other with nothing
between them (floats on top of each other counting once), is so exactly for the layouts in which the
number of floats tells that of elements: in a larger layout of floats of one kind, at most four of
them leave no gap, and those that fill no more than four elements are not more themselves. It is
always so if the floats cover the layout and no two of them share a byte. Whether members are
declared by themselves, in structs inside or in arrays makes no difference.
-/
theorem aarch64_class (l : Layout) :
    ((Ty.struct l).returnClass .aarch64 = .registers ∨
      (Ty.struct l).returnClass .aarch64 = .memory) ∧
    (((Ty.struct l).returnClass .aarch64 = .registers ↔
      l.size ≤ 16 ∨ ∃ k, l.FloatAggregate k) ↔ l.CountsElements) ∧
    ((Ty.struct l).Built →
      (∀ k, AllFloats k l.scalars → l.Covered k.bytes ∧ l.Apart k.bytes) → l.CountsElements) ∧
    ∀ l' : Layout, l'.size = l.size → l'.scalars.Perm l.scalars →
      (Ty.struct l').returnClass .aarch64 = (Ty.struct l).returnClass .aarch64 := by
  refine ⟨(l.returnClass_cases .aarch64).imp And.left And.left, ?_, countsElements_of_apart, ?_⟩
  · rw [returnClass_aarch64]
    constructor
    · intro h
      refine ⟨fun k hlarge hk hn => ?_, fun k hlarge ha => ?_⟩
      · rcases h.mp (.inr ⟨k, hk, hn⟩) with hsmall | ⟨j, ha⟩
        · omega
        · obtain rfl := hk.unique ha.floats
          exact ha.covered
      · rcases h.mpr (.inr ⟨k, ha⟩) with hsmall | ⟨j, -, hn⟩
        · omega
        · exact hn
    · intro h
      rcases Nat.lt_or_ge 16 l.size with hlarge | hsmall
      · have hagree : ∀ k, AllFloats k l.scalars ∧ l.scalars.length ≤ 4 ↔ l.FloatAggregate k :=
          fun k => ⟨fun ⟨hk, hn⟩ => (floatAggregate_iff hk hn).mpr (h.gapless k hlarge hk hn),
            fun ha => ⟨ha.floats, h.single k hlarge ha⟩⟩
        simp only [hagree]
      · exact ⟨fun _ => .inl hsmall, fun _ => .inl hsmall⟩
  · intro l' hsize hperm
    have hfloats : ∀ k, AllFloats k l'.scalars ↔ AllFloats k l.scalars :=
      fun k => ⟨fun h => h.perm hperm, fun h => h.perm hperm.symm⟩
    have hclass : (Ty.struct l').returnClass .aarch64 = .registers ↔
        (Ty.struct l).returnClass .aarch64 = .registers := by
      rw [returnClass_aarch64, returnClass_aarch64]
      simp only [hsize, hfloats, hperm.length_eq]
    rcases l.returnClass_cases .aarch64 with ⟨hc, -⟩ | ⟨hc, -⟩ <;>
      rcases l'.returnClass_cases .aarch64 with ⟨hc', -⟩ | ⟨hc', -⟩ <;> simp_all

end Layout

/-! ## Four doubles -/

namespace LayoutPlan

/-- A double. -/
def double : TypeSpec := .descriptor (.ofBuiltin (.float .float64))

/-- Two doubles. -/
def complex : LayoutPlan := ofFields [⟨"re", double, none⟩, ⟨"im", double, none⟩] false

/-- What `complex` builds. -/
def complexLayout : Layout :=
  ⟨[⟨"re", 0, .builtin (.float .float64)⟩, ⟨"im", 8, .builtin (.float .float64)⟩],
    16, 8, false, true⟩

/-- Two doubles in a struct, and two in an array. -/
def nested : LayoutPlan :=
  ofFields [⟨"z", .descriptor ⟨.struct complexLayout, 100⟩, none⟩,
    ⟨"w", .descriptor ⟨.array (.builtin (.float .float64)) 2, 101⟩, none⟩] false

/-- What `nested` builds. -/
def nestedLayout : Layout :=
  ⟨[⟨"z", 0, .struct complexLayout⟩, ⟨"w", 16, .array (.builtin (.float .float64)) 2⟩],
    32, 8, false, true⟩

/-- Four doubles. -/
def quaternion : LayoutPlan :=
  ofFields [⟨"a", double, none⟩, ⟨"b", double, none⟩, ⟨"c", double, none⟩, ⟨"d", double, none⟩]
    false

/-- What `quaternion` builds. -/
def quaternionLayout : Layout :=
  ⟨[⟨"a", 0, .builtin (.float .float64)⟩, ⟨"b", 8, .builtin (.float .float64)⟩,
    ⟨"c", 16, .builtin (.float .float64)⟩, ⟨"d", 24, .builtin (.float .float64)⟩],
    32, 8, false, true⟩

/-- Two arrays of four doubles, one on top of the other. -/
def overlaid : LayoutPlan :=
  ofFields [⟨"a", .descriptor ⟨.array (.builtin (.float .float64)) 4, 100⟩, none⟩,
    ⟨"b", .descriptor ⟨.array (.builtin (.float .float64)) 4, 101⟩, none⟩] true

/-- What `overlaid` builds. -/
def overlaidLayout : Layout :=
  ⟨[⟨"a", 0, .array (.builtin (.float .float64)) 4⟩,
    ⟨"b", 0, .array (.builtin (.float .float64)) 4⟩], 32, 8, true, false⟩

/-- Two doubles, aligned to 32 bytes. -/
def spaced : LayoutPlan := { complex with alignment := some 32 }

/-- What `spaced` builds. -/
def spacedLayout : Layout :=
  ⟨[⟨"re", 0, .builtin (.float .float64)⟩, ⟨"im", 8, .builtin (.float .float64)⟩],
    32, 32, false, false⟩

theorem built_nestedLayout : (Ty.struct nestedLayout).Built := by
  have hcomplex : (Ty.struct complexLayout).Built := by
    refine @Ty.Built.struct complex _ rfl ?_
    simp only [complexLayout, List.forall_mem_cons, List.not_mem_nil, false_implies,
      implies_true, and_true]
    exact ⟨.builtin _, .builtin _⟩
  refine @Ty.Built.struct nested _ rfl ?_
  simp only [nestedLayout, List.forall_mem_cons, List.not_mem_nil, false_implies, implies_true,
    and_true]
  exact ⟨hcomplex, .array 2 (.builtin _)⟩

end LayoutPlan

/-- Four doubles are four elements, in a struct and an array inside or declared one by one. -/
theorem Layout.aarch64_class_nested :
    LayoutPlan.nested.build = .ok LayoutPlan.nestedLayout ∧
      LayoutPlan.quaternion.build = .ok LayoutPlan.quaternionLayout ∧
      LayoutPlan.nestedLayout.CountsElements ∧
      (Ty.struct LayoutPlan.nestedLayout).returnClass .aarch64 = .registers ∧
      (Ty.struct LayoutPlan.quaternionLayout).returnClass .aarch64 = .registers := by
  obtain ⟨-, hrule, hcounts, hsame⟩ := Layout.aarch64_class LayoutPlan.nestedLayout
  have hfloats : AllFloats .float64 LayoutPlan.nestedLayout.scalars := ⟨by decide, by decide⟩
  have hcovered : LayoutPlan.nestedLayout.Covered 8 := by unfold Covered; decide
  have hc : LayoutPlan.nestedLayout.CountsElements := by
    refine hcounts LayoutPlan.built_nestedLayout fun k hk => ?_
    obtain rfl := hk.unique hfloats
    exact ⟨hcovered, by unfold Apart; decide⟩
  have hclass := (hrule.mpr hc).mpr (.inr ⟨.float64, hfloats, hcovered, by decide⟩)
  exact ⟨rfl, rfl, hc, hclass, (hsame LayoutPlan.quaternionLayout rfl (by decide)).trans hclass⟩

/-- Four elements are returned in memory where eight doubles lie in them, and two doubles in
registers although as many bytes again are free behind them. -/
theorem Layout.aarch64_class_overlaid :
    LayoutPlan.overlaid.build = .ok LayoutPlan.overlaidLayout ∧
      LayoutPlan.overlaidLayout.FloatAggregate .float64 ∧
      (Ty.struct LayoutPlan.overlaidLayout).returnClass .aarch64 = .memory ∧
      LayoutPlan.spaced.build = .ok LayoutPlan.spacedLayout ∧
      ¬ LayoutPlan.spacedLayout.size ≤ 16 ∧
      (∀ k, ¬ LayoutPlan.spacedLayout.FloatAggregate k) ∧
      (Ty.struct LayoutPlan.spacedLayout).returnClass .aarch64 = .registers := by
  have hcovered : LayoutPlan.overlaidLayout.Covered 8 := by unfold Covered; decide
  have hfree : ∀ m ∈ LayoutPlan.spacedLayout.scalars, ∀ k : FloatKind,
      m.offset + k.bytes ≤ 16 := by
    intro m hm k
    have hoffset : ∀ m ∈ LayoutPlan.spacedLayout.scalars, m.offset ≤ 8 := by decide
    have hwidth : k.bytes ≤ 8 := by cases k <;> decide
    have := hoffset m hm
    omega
  refine ⟨rfl, ⟨⟨by decide, by decide⟩, hcovered, by decide⟩, by decide, rfl, by decide,
    fun k h => ?_, by decide⟩
  obtain ⟨m, hm, -, hlt⟩ := h.covered 16 (by decide)
  have hend := hfree m hm k
  omega

end ForeignCall
