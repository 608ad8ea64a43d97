import Mathlib.Data.List.Induction
import Mathlib.Order.Bounds.Basic
import ForeignCall.Proofs.Built

/-!
# Where a layout puts its fields

The rule that `LayoutPlan.build` follows, over natural numbers and without its loop. A field of a
union stands at 0; any other one at its explicit offset, or else at the least multiple of its
alignment that is not below the end of a field declared before it (`LayoutPlan.Places`). The
declarations are accepted one after another (`LayoutPlan.Scans`) until one of them is not
(`LayoutPlan.Stops`). The layout that comes out is the one that `LayoutPlan.Describes` says, and
`LayoutPlan.Fails` says how there comes to be none.

The rule is stated here and compared with the builder for one declaration; for whole plans see
`ForeignCall.Proofs.Layout.Rule`.
-/

namespace ForeignCall

/-! ## Rounding up -/

theorem isLeast_roundUp (value : Nat) {align : Nat} (h : 0 < align) :
    IsLeast {k | align ∣ k ∧ value ≤ k} (roundUp value align) := by
  refine ⟨⟨dvd_roundUp value align, le_roundUp value h⟩, ?_⟩
  rintro k ⟨hk, hv⟩
  -- two multiples less than one alignment apart
  have hlt := roundUp_lt value h
  obtain ⟨m, rfl⟩ := hk
  obtain ⟨r, hr⟩ := dvd_roundUp value align
  rw [hr] at hlt ⊢
  have hrm : align * r < align * (m + 1) := by
    rw [Nat.mul_succ]
    omega
  exact Nat.mul_le_mul_left _ (Nat.lt_succ_iff.mp (Nat.lt_of_mul_lt_mul_left hrm))

/-- A rounding is refused by the size of the sum that it forms. -/
theorem alignUp_eq_ite (value : Nat) {align : Nat} (h : 0 < align) :
    alignUp value align =
      if align ≤ 1 ∨ value + align < wordLimit then some (roundUp value align) else none := by
  by_cases h1 : align ≤ 1
  · obtain rfl : align = 1 := by omega
    rw [alignUp_of_le_one (Nat.le_refl 1), if_pos (Or.inl (Nat.le_refl 1))]
    simp [roundUp]
  · rw [alignUp, if_neg h1]
    simp only [h1, false_or]

/-! ## The ends of fields -/

/-- The first byte after a field. -/
def Field.stop (f : Field) : Nat := f.offset + f.ty.size

/-- The first byte after all of the fields. -/
def fieldsStop (fields : List Field) : Nat := (fields.map Field.stop).foldl max 0

@[simp] theorem fieldsStop_nil : fieldsStop [] = 0 := rfl

@[simp] theorem fieldsStop_snoc (fields : List Field) (f : Field) :
    fieldsStop (fields ++ [f]) = max (fieldsStop fields) f.stop := by
  simp [fieldsStop]

theorem fieldsStop_le {fields : List Field} {k : Nat} :
    fieldsStop fields ≤ k ↔ ∀ f ∈ fields, f.stop ≤ k := by
  induction fields using List.reverseRecOn with
  | nil => simp
  | append_singleton fields f ih =>
    rw [fieldsStop_snoc, Nat.max_le, ih]
    simp only [List.forall_mem_append, List.forall_mem_singleton]

/-! ## The rule -/

namespace LayoutPlan

variable {plan : LayoutPlan}

/-- The field of a declaration, placed after the fields declared before it. -/
structure Places (plan : LayoutPlan) (earlier : List Field) (d : Declaration) (f : Field) :
    Prop where
  name : f.name = d.name
  ty : ∃ t, d.spec.resolve plan.typedefs = .ok t ∧ t.ty = f.ty
  union : plan.isUnion = true → f.offset = 0
  kept : plan.isUnion = false → ∀ offset, d.offset = some offset → f.offset = offset
  least : plan.isUnion = false → d.offset = none →
    IsLeast {k | plan.fieldAlignment f.ty ∣ k ∧ ∀ g ∈ earlier, g.stop ≤ k} f.offset

/--
The sums formed in placing a field stay in the word. What is placed so far is rounded up for every
field of a struct, also for one that keeps an offset of its own.
-/
structure Fits (plan : LayoutPlan) (earlier : List Field) (f : Field) : Prop where
  rounding : plan.isUnion = false → 1 < plan.fieldAlignment f.ty →
    fieldsStop earlier + plan.fieldAlignment f.ty < wordLimit
  stop : f.stop < wordLimit

/-- A declaration that becomes a field. -/
structure Accepts (plan : LayoutPlan) (earlier : List Field) (d : Declaration) (f : Field) :
    Prop extends plan.Places earlier d f where
  bytes : 0 < f.ty.size
  fits : plan.Fits earlier f
  fresh : ∀ g ∈ earlier, g.name ≠ d.name

/-- A declaration that becomes none; of several reasons, the first in the order given here. -/
inductive Stops (plan : LayoutPlan) (earlier : List Field) (d : Declaration) : Failure → Prop where
  | unknown {name : String} (hs : d.spec = .name name)
      (hu : plan.typedefs.entries.lookup name = none) (hb : Descriptor.builtin? name = none) :
      Stops plan earlier d (.fault (.argument s!"unknown type '{name}'"))
  | empty {t : Descriptor} (ht : d.spec.resolve plan.typedefs = .ok t) (hz : t.ty.size = 0) :
      Stops plan earlier d (.fault (.runtime s!"type of field '{d.name}' has zero size"))
  | overflow {f : Field} (hp : plan.Places earlier d f) (hz : 0 < f.ty.size)
      (hf : ¬ plan.Fits earlier f) :
      Stops plan earlier d (.abort "attempt to add with overflow")
  | repeated {f : Field} (hp : plan.Places earlier d f) (hz : 0 < f.ty.size)
      (hf : plan.Fits earlier f) (hn : ∃ g ∈ earlier, g.name = d.name) :
      Stops plan earlier d (.fault (.argument s!"duplicate field name '{d.name}'"))

/-- Declarations, in order, and the fields that they become. -/
inductive Scans (plan : LayoutPlan) : List Declaration → List Field → Prop where
  | nil : Scans plan [] []
  | snoc {ds : List Declaration} {d : Declaration} {fields : List Field} {f : Field}
      (hs : Scans plan ds fields) (ha : plan.Accepts fields d f) :
      Scans plan (ds ++ [d]) (fields ++ [f])

/-- The alignments that bound that of the whole from below. -/
def alignments (plan : LayoutPlan) (fields : List Field) : Set Nat :=
  {a | a = 1 ∨ (∃ f ∈ fields, plan.fieldAlignment f.ty = a) ∨ plan.alignment = some a}

/-- The layout that a plan describes. -/
structure Describes (plan : LayoutPlan) (l : Layout) : Prop where
  isUnion : l.isUnion = plan.isUnion
  length : l.fields.length = plan.declarations.length
  placed : ∀ (i : Nat) (hd : i < plan.declarations.length) (hf : i < l.fields.length),
    plan.Places (l.fields.take i) plan.declarations[i] l.fields[i]
  distinct : l.fields.Pairwise fun f g => f.name ≠ g.name
  /-- A field placed by default begins after the end of every field declared before it. -/
  apart : plan.isUnion = false → ∀ (i j : Nat) (_ : i < j) (hd : j < plan.declarations.length)
    (hf : j < l.fields.length), plan.declarations[j].offset = none →
    l.fields[i].stop ≤ l.fields[j].offset
  alignment : IsGreatest (plan.alignments l.fields) l.alignment
  size : IsLeast {k | l.alignment ∣ k ∧ ∀ f ∈ l.fields, f.stop ≤ k} l.size
  positive : 0 < l.size

/-- How a plan comes to no layout. -/
inductive Fails (plan : LayoutPlan) : Failure → Prop where
  | field {ds rest : List Declaration} {d : Declaration} {fields : List Field} {e : Failure}
      (hd : plan.declarations = ds ++ d :: rest) (hs : plan.Scans ds fields)
      (he : plan.Stops fields d e) : Fails plan e
  | none (hd : plan.declarations = []) : Fails plan (.fault (.runtime "struct size is zero"))
  | rounding {fields : List Field} {a : Nat} (hd : plan.declarations ≠ [])
      (hs : plan.Scans plan.declarations fields) (ha : IsGreatest (plan.alignments fields) a)
      (h1 : 1 < a) (hw : wordLimit ≤ fieldsStop fields + a) :
      Fails plan (.abort "attempt to add with overflow")

/-- The types at hand have been built themselves, and an alignment is given as a word. -/
structure Valid (plan : LayoutPlan) : Prop where
  given : ∀ d ∈ plan.declarations, ∀ t, d.spec = .descriptor t → t.ty.Built
  named : ∀ entry ∈ plan.typedefs.entries, entry.2.ty.Built
  word : ∀ a, plan.alignment = some a → a < wordLimit

end LayoutPlan

/-! ## Alignments of types that have been built -/

theorem LayoutPlan.alignment_pos {plan : LayoutPlan} {l : Layout} (h : plan.build = .ok l) :
    0 < l.alignment := by
  unfold build at h
  simp only [bind, Except.bind] at h
  split at h
  · cases h
  next placed _ =>
  split at h
  · cases h
  split at h
  · cases h
  rw [← Except.ok.inj h]
  -- the least alignment is at least 1, whether it is given or not
  have hleast : 1 ≤ (plan.alignment.map (Nat.max 1)).getD 1 := by
    cases plan.alignment with
    | none => exact Nat.le_refl 1
    | some a => exact Nat.le_max_left 1 a
  exact Nat.lt_of_lt_of_le hleast (Nat.le_max_right placed.alignment _)

theorem Ty.Built.alignment_pos {t : Ty} (ht : t.Built) : 0 < t.alignment := by
  induction ht with
  | builtin b => exact b.alignment_pos
  | array n _ ih => exact ih
  | charArray n => exact Nat.one_pos
  | enumeration _ => exact Nat.succ_pos 3
  | callback s => exact Nat.succ_pos 7
  | struct h _ _ => exact LayoutPlan.alignment_pos h

namespace LayoutPlan

variable {plan : LayoutPlan}

theorem fieldAlignment_pos (plan : LayoutPlan) {t : Ty} (ht : 0 < t.alignment) :
    0 < plan.fieldAlignment t := by
  unfold fieldAlignment cap
  cases plan.packed with
  | none => exact ht
  | some n => exact Nat.lt_min.mpr ⟨ht, Nat.le_max_left 1 n⟩

/-! ## One declaration -/

/-- The offset of a field: in exact arithmetic, whatever the sums come to. -/
def offsetAfter (plan : LayoutPlan) (earlier : List Field) (ty : Ty) (offset : Option Nat) : Nat :=
  if plan.isUnion then 0
  else offset.getD (roundUp (fieldsStop earlier) (plan.fieldAlignment ty))

theorem isLeast_stop (earlier : List Field) {align : Nat} (h : 0 < align) :
    IsLeast {k | align ∣ k ∧ ∀ g ∈ earlier, g.stop ≤ k} (roundUp (fieldsStop earlier) align) := by
  simp only [← fieldsStop_le]
  exact isLeast_roundUp _ h

theorem places_iff {earlier : List Field} {d : Declaration} {f : Field} (ht : 0 < f.ty.alignment) :
    plan.Places earlier d f ↔ f.name = d.name ∧
      (∃ t, d.spec.resolve plan.typedefs = .ok t ∧ t.ty = f.ty) ∧
      f.offset = plan.offsetAfter earlier f.ty d.offset := by
  have hleast := isLeast_stop earlier (fieldAlignment_pos plan ht)
  unfold offsetAfter
  constructor
  · intro h
    refine ⟨h.name, h.ty, ?_⟩
    cases hu : plan.isUnion with
    | true => exact h.union hu
    | false =>
      cases ho : d.offset with
      | some offset => exact h.kept hu offset ho
      | none => exact (h.least hu ho).unique hleast
  · rintro ⟨hn, hty, ho⟩
    refine ⟨hn, hty, ?_, ?_, ?_⟩
    · intro hu
      simpa [hu] using ho
    · intro hu offset hd
      simpa [hu, hd] using ho
    · intro hu hd
      rw [ho, hu, hd]
      exact hleast

/-- The placement with one more field. -/
def push (plan : LayoutPlan) (placed : Placement) (f : Field) : Placement where
  fields := placed.fields ++ [f]
  size := max placed.size f.stop
  alignment := max placed.alignment (plan.fieldAlignment f.ty)
  natural := placed.natural &&
    (plan.isUnion || f.offset == roundUp placed.size (plan.fieldAlignment f.ty))

end LayoutPlan

/-- There is an accessor for whatever has bytes. -/
theorem Accessor.isSome_ofTy? {ty : Ty} (h : ty.size ≠ 0) : (Accessor.ofTy? ty).isSome := by
  cases ty with
  | builtin b =>
    cases b with
    | void => exact absurd rfl h
    | varargs => exact absurd rfl h
    | _ => rfl
  | _ => rfl

theorem TypeSpec.resolve_eq_error {typedefs : TypeMap} {spec : TypeSpec} {e : Fault} :
    spec.resolve typedefs = .error e ↔ ∃ name, spec = .name name ∧
      typedefs.entries.lookup name = none ∧ Descriptor.builtin? name = none ∧
      e = .argument s!"unknown type '{name}'" := by
  constructor
  · intro h
    cases spec with
    | descriptor d => cases h
    | name n =>
      simp only [resolve, TypeMap.find] at h
      cases hu : typedefs.entries.lookup n with
      | some d => simp only [hu, reduceCtorEq] at h
      | none =>
        simp only [hu, Descriptor.find] at h
        cases hb : Descriptor.builtin? n with
        | some b => simp only [hb, reduceCtorEq] at h
        | none =>
          simp only [hb] at h
          exact ⟨n, rfl, hu, hb, (Except.error.inj h).symm⟩
  · rintro ⟨n, rfl, hu, hb, rfl⟩
    simp only [resolve, TypeMap.find, hu, Descriptor.find, hb]

namespace LayoutPlan

variable {plan : LayoutPlan} {placed : Placement} {d : Declaration}

/-- A sum that leaves the word. -/
theorem orOverflow_addWords {a b : Nat} :
    orOverflow (addWords a b) = if a + b < wordLimit then .ok (a + b) else .error .overflow := by
  unfold addWords
  split <;> rfl

theorem orOverflow_alignUp (value : Nat) {align : Nat} (h : 0 < align) :
    orOverflow (alignUp value align) =
      if align ≤ 1 ∨ value + align < wordLimit then .ok (roundUp value align)
      else .error .overflow := by
  rw [alignUp_eq_ite value h]
  split <;> rfl

/-- A declaration whose type has bytes, its remaining checks written out. -/
theorem add_eq {t : Descriptor} (ht : d.spec.resolve plan.typedefs = .ok t)
    (hz : t.ty.size ≠ 0) :
    placed.add plan d = (do
      let (offset, natural) ← plan.placeAt placed t.ty d.offset
      let fieldEnd ← orOverflow (addWords offset t.ty.size)
      if placed.fields.any fun f => f.name == d.name then
        refuse (.argument s!"duplicate field name '{d.name}'")
      return {
        fields := placed.fields ++ [⟨d.name, offset, t.ty⟩]
        size := Nat.max placed.size fieldEnd
        alignment := Nat.max placed.alignment (plan.fieldAlignment t.ty)
        natural := placed.natural && natural }) := by
  have ha : (Accessor.ofTy? t.ty).isNone = false := by
    rw [Option.isNone_eq_false_iff]
    exact Accessor.isSome_ofTy? hz
  unfold Placement.add
  simp only [ht, Checked.outcome, bind, Except.bind, hz, ha, ↓reduceIte, Bool.false_eq_true]

/-- The sum of the rounding comes first, whether or not the rounded offset is used. -/
theorem placeAt_eq {ty : Ty} {offset : Option Nat} (ha : 0 < plan.fieldAlignment ty)
    (hsum : placed.size = fieldsStop placed.fields) :
    plan.placeAt placed ty offset =
      if plan.isUnion = false → 1 < plan.fieldAlignment ty →
          fieldsStop placed.fields + plan.fieldAlignment ty < wordLimit then
        .ok (plan.offsetAfter placed.fields ty offset, plan.isUnion ||
          plan.offsetAfter placed.fields ty offset == roundUp placed.size (plan.fieldAlignment ty))
      else .error .overflow := by
  unfold placeAt offsetAfter
  cases hu : plan.isUnion with
  | true => rfl
  | false =>
    simp only [Bool.false_eq_true, ↓reduceIte, Bool.false_or, forall_true_left]
    rw [orOverflow_alignUp _ ha, hsum]
    by_cases hr : 1 < plan.fieldAlignment ty →
        fieldsStop placed.fields + plan.fieldAlignment ty < wordLimit
    · rw [if_pos hr, if_pos (by omega)]
      cases offset with
      | some explicit => rfl
      | none => simp [bind, Except.bind, pure, Except.pure]
    · rw [if_neg hr, if_neg (by omega)]
      rfl

/-- A field whose sums fit is added, unless its name is taken. -/
theorem add_of_fits {f : Field} (hsum : placed.size = fieldsStop placed.fields)
    (hp : plan.Places placed.fields d f) (hz : 0 < f.ty.size) (ha : 0 < f.ty.alignment)
    (hf : plan.Fits placed.fields f) :
    placed.add plan d =
      if placed.fields.any fun g => g.name == d.name then
        .error (.fault (.argument s!"duplicate field name '{d.name}'"))
      else .ok (plan.push placed f) := by
  obtain ⟨hn, ⟨t, ht, hty⟩, ho⟩ := (places_iff ha).mp hp
  rw [add_eq ht (by rw [hty]; omega), hty, placeAt_eq (fieldAlignment_pos plan ha) hsum,
    if_pos hf.rounding, ← ho]
  have hstop : f.offset + f.ty.size < wordLimit := hf.stop
  simp only [bind, Except.bind, orOverflow_addWords, if_pos hstop]
  split
  · rfl
  · obtain ⟨name, offset, ty⟩ := f
    rw [← hn]
    rfl

theorem add_of_not_fits {f : Field} (hsum : placed.size = fieldsStop placed.fields)
    (hp : plan.Places placed.fields d f) (hz : 0 < f.ty.size) (ha : 0 < f.ty.alignment)
    (hf : ¬ plan.Fits placed.fields f) : placed.add plan d = .error .overflow := by
  obtain ⟨hn, ⟨t, ht, hty⟩, ho⟩ := (places_iff ha).mp hp
  rw [add_eq ht (by rw [hty]; omega), hty, placeAt_eq (fieldAlignment_pos plan ha) hsum, ← ho]
  -- either the rounding or the end of the field leaves the word
  split
  next hr =>
    have hstop : ¬ f.offset + f.ty.size < wordLimit := fun hs => hf ⟨hr, hs⟩
    simp only [bind, Except.bind, orOverflow_addWords, if_neg hstop]
  · rfl

theorem add_of_stops {e : Failure} (hsum : placed.size = fieldsStop placed.fields)
    (hv : ∀ t, d.spec.resolve plan.typedefs = .ok t → 0 < t.ty.alignment)
    (hs : plan.Stops placed.fields d e) : placed.add plan d = .error e := by
  have halign : ∀ {f}, plan.Places placed.fields d f → 0 < f.ty.alignment := by
    intro f hp
    obtain ⟨t, ht, hty⟩ := hp.ty
    rw [← hty]
    exact hv t ht
  cases hs with
  | unknown hs hu hb =>
    unfold Placement.add
    rw [TypeSpec.resolve_eq_error.mpr ⟨_, hs, hu, hb, rfl⟩]
    rfl
  | empty ht hz =>
    unfold Placement.add
    simp only [ht, Checked.outcome, bind, Except.bind, hz, ↓reduceIte]
    rfl
  | overflow hp hz hf => exact add_of_not_fits hsum hp hz (halign hp) hf
  | repeated hp hz hf hn =>
    obtain ⟨g, hg, hname⟩ := hn
    rw [add_of_fits hsum hp hz (halign hp) hf, if_pos]
    exact List.any_eq_true.mpr ⟨g, hg, beq_iff_eq.mpr hname⟩

theorem add_of_accepts {f : Field} (hsum : placed.size = fieldsStop placed.fields)
    (ha : 0 < f.ty.alignment) (h : plan.Accepts placed.fields d f) :
    placed.add plan d = .ok (plan.push placed f) := by
  rw [add_of_fits hsum h.toPlaces h.bytes ha h.fits, if_neg]
  intro hany
  obtain ⟨g, hg, hname⟩ := List.any_eq_true.mp hany
  exact h.fresh g hg (beq_iff_eq.mp hname)

/-- Every declaration becomes a field or is the end of the scan. -/
theorem stops_or_accepts (earlier : List Field) (d : Declaration)
    (hv : ∀ t, d.spec.resolve plan.typedefs = .ok t → 0 < t.ty.alignment) :
    (∃ e, plan.Stops earlier d e) ∨ ∃ f, 0 < f.ty.alignment ∧ plan.Accepts earlier d f := by
  cases ht : d.spec.resolve plan.typedefs with
  | error e =>
    obtain ⟨name, hs, hu, hb, -⟩ := TypeSpec.resolve_eq_error.mp ht
    exact Or.inl ⟨_, .unknown hs hu hb⟩
  | ok t =>
    rcases Nat.eq_zero_or_pos t.ty.size with hz | hz
    · exact Or.inl ⟨_, .empty ht hz⟩
    · have hp : plan.Places earlier d ⟨d.name, plan.offsetAfter earlier t.ty d.offset, t.ty⟩ :=
        (places_iff (hv t ht)).mpr ⟨rfl, ⟨t, ht, rfl⟩, rfl⟩
      by_cases hf : plan.Fits earlier ⟨d.name, plan.offsetAfter earlier t.ty d.offset, t.ty⟩
      · by_cases hn : ∃ g ∈ earlier, g.name = d.name
        · exact Or.inl ⟨_, .repeated hp hz hf hn⟩
        · refine Or.inr ⟨_, hv t ht, hp, hz, hf, ?_⟩
          intro g hg hname
          exact hn ⟨g, hg, hname⟩
      · exact Or.inl ⟨_, .overflow hp hz hf⟩

/-- The field that a declaration has become has the type that the declaration names. -/
theorem exists_ty_of_add {placed' : Placement} (h : placed.add plan d = .ok placed') :
    ∃ t, d.spec.resolve plan.typedefs = .ok t ∧
      ∃ f, f.ty = t.ty ∧ placed'.fields = placed.fields ++ [f] := by
  cases ht : d.spec.resolve plan.typedefs with
  | error e =>
    unfold Placement.add at h
    rw [ht] at h
    cases h
  | ok t =>
    by_cases hz : t.ty.size = 0
    · unfold Placement.add at h
      simp only [ht, Checked.outcome, bind, Except.bind, hz, ↓reduceIte] at h
      cases h
    · rw [add_eq ht hz] at h
      simp only [bind, Except.bind] at h
      split at h
      · cases h
      next place _ =>
      split at h
      · cases h
      split at h
      · cases h
      refine ⟨t, rfl, Field.mk d.name place.1 t.ty, rfl, ?_⟩
      rw [← Except.ok.inj h]

end LayoutPlan

end ForeignCall
