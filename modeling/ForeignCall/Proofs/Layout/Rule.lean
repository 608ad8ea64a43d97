import ForeignCall.Proofs.Layout.Placement

/-!
# The builder follows the rule

The declarations of a plan from the first to the last. The loop of the builder accumulates the
fields, their greatest end and their greatest alignment (`LayoutPlan.placementOf`), and goes on for
as long as `LayoutPlan.Scans` does.

Main statement: `LayoutPlan.build_rule`. A layout that is built is the one that the rule describes,
and a build fails with exactly the failure that the first offending declaration, the missing fields
or the last rounding give.
-/

namespace ForeignCall

namespace LayoutPlan

variable {plan : LayoutPlan} {placed : Placement} {d : Declaration}

/-! ## The scan -/

/-- The placement of fields, in order. -/
def placementOf (plan : LayoutPlan) (fields : List Field) : Placement :=
  fields.foldl plan.push plan.start

theorem placementOf_snoc (fields : List Field) (f : Field) :
    plan.placementOf (fields ++ [f]) = plan.push (plan.placementOf fields) f := by
  simp [placementOf]

@[simp] theorem placementOf_fields (plan : LayoutPlan) (fields : List Field) :
    (plan.placementOf fields).fields = fields := by
  induction fields using List.reverseRecOn with
  | nil => rfl
  | append_singleton fields f ih => rw [placementOf_snoc, push, ih]

@[simp] theorem placementOf_size (fields : List Field) :
    (plan.placementOf fields).size = fieldsStop fields := by
  induction fields using List.reverseRecOn with
  | nil => rfl
  | append_singleton fields f ih => rw [placementOf_snoc, push, ih, fieldsStop_snoc]

theorem isGreatest_placementOf_alignment (plan : LayoutPlan) (fields : List Field) :
    IsGreatest {a | a = 1 ∨ ∃ f ∈ fields, plan.fieldAlignment f.ty = a}
      (plan.placementOf fields).alignment := by
  induction fields using List.reverseRecOn with
  | nil =>
    refine ⟨Or.inl rfl, ?_⟩
    rintro a (rfl | ⟨f, hf, -⟩)
    · exact Nat.le_refl 1
    · cases hf
  | append_singleton fields f ih =>
    have hmax : (plan.push (plan.placementOf fields) f).alignment =
      max (plan.placementOf fields).alignment (plan.fieldAlignment f.ty) := rfl
    rw [placementOf_snoc, hmax]
    constructor
    · rcases Nat.le_total (plan.fieldAlignment f.ty) (plan.placementOf fields).alignment with h | h
      · rw [Nat.max_eq_left h]
        exact ih.1.imp_right fun ⟨g, hg, ha⟩ => ⟨g, List.mem_append_left _ hg, ha⟩
      · rw [Nat.max_eq_right h]
        exact Or.inr ⟨f, List.mem_append_right _ (List.mem_singleton_self f), rfl⟩
    · rintro a (rfl | ⟨g, hg, rfl⟩)
      · exact Nat.le_trans (ih.2 (Or.inl rfl)) (Nat.le_max_left ..)
      · rcases List.mem_append.mp hg with hg | hg
        · exact Nat.le_trans (ih.2 (Or.inr ⟨g, hg, rfl⟩)) (Nat.le_max_left ..)
        · rw [List.mem_singleton.mp hg]
          exact Nat.le_max_right ..

/-- The types of declarations have alignments. -/
def Aligned (plan : LayoutPlan) (ds : List Declaration) : Prop :=
  ∀ d ∈ ds, ∀ t, d.spec.resolve plan.typedefs = .ok t → 0 < t.ty.alignment

theorem Valid.aligned (hv : plan.Valid) : plan.Aligned plan.declarations := by
  intro d hd t ht
  refine Ty.Built.alignment_pos ?_
  cases hs : d.spec with
  | descriptor t' =>
    rw [hs] at ht
    rw [← Except.ok.inj ht]
    exact hv.given d hd t' hs
  | name n =>
    rw [hs] at ht
    simp only [TypeSpec.resolve, TypeMap.find, Descriptor.find] at ht
    -- a name of the user's own comes before those of builtin types
    cases hu : plan.typedefs.entries.lookup n with
    | some t' =>
      rw [hu] at ht
      obtain ⟨l, r, hmem, -⟩ := List.lookup_eq_some_iff.mp hu
      rw [← Except.ok.inj ht]
      exact hv.named (n, t') (by rw [hmem]; exact List.mem_append_right _ List.mem_cons_self)
    | none =>
      rw [hu] at ht
      cases hb : Descriptor.builtin? n with
      | none =>
        rw [hb] at ht
        cases ht
      | some b =>
        rw [hb] at ht
        rw [← Except.ok.inj ht]
        exact .builtin b

theorem foldlM_snoc_eq_ok {α β ε : Type} {step : β → α → Except ε β} {b c : β} {as : List α}
    {a : α} (h : (as ++ [a]).foldlM step b = .ok c) :
    ∃ m, as.foldlM step b = .ok m ∧ step m a = .ok c := by
  rw [List.foldlM_append] at h
  cases has : as.foldlM step b with
  | error e =>
    rw [has] at h
    cases h
  | ok m =>
    rw [has] at h
    refine ⟨m, rfl, ?_⟩
    rw [← h, ← bind_pure (step m a)]
    rfl

theorem aligned_of_foldlM {ds : List Declaration} {placed : Placement}
    (h : ds.foldlM (Placement.add plan) plan.start = .ok placed)
    (hf : ∀ f ∈ placed.fields, 0 < f.ty.alignment) : plan.Aligned ds := by
  induction ds using List.reverseRecOn generalizing placed with
  | nil =>
    intro d hd
    cases hd
  | append_singleton ds d ih =>
    obtain ⟨before, hbefore, hadd⟩ := foldlM_snoc_eq_ok h
    obtain ⟨t, ht, f, hty, hfields⟩ := exists_ty_of_add hadd
    rw [hfields] at hf
    intro d' hd' t' ht'
    rcases List.mem_append.mp hd' with hd' | hd'
    · exact ih hbefore (fun g hg => hf g (List.mem_append_left _ hg)) d' hd' t' ht'
    · rw [List.mem_singleton.mp hd', ht] at ht'
      rw [← Except.ok.inj ht', ← hty]
      exact hf f (List.mem_append_right _ (List.mem_singleton_self f))

/-- The first failure in a list of steps. -/
theorem foldlM_eq_error {α β ε : Type} {step : β → α → Except ε β} {b : β} {as : List α} {e : ε} :
    as.foldlM step b = .error e ↔ ∃ before a after c, as = before ++ a :: after ∧
      before.foldlM step b = .ok c ∧ step c a = .error e := by
  induction as generalizing b with
  | nil => simp [pure, Except.pure]
  | cons a as ih =>
    rw [List.foldlM_cons]
    constructor
    · intro h
      cases hs : step b a with
      | error e' =>
        rw [hs] at h
        exact ⟨[], a, as, b, rfl, rfl, hs.trans h⟩
      | ok c =>
        rw [hs] at h
        obtain ⟨before, a', after, c', rfl, hb, he⟩ := ih.mp h
        refine ⟨a :: before, a', after, c', rfl, ?_, he⟩
        rw [List.foldlM_cons, hs]
        exact hb
    · rintro ⟨before, a', after, c, happ, hb, he⟩
      cases before with
      | nil =>
        obtain ⟨rfl, rfl⟩ := List.cons.inj happ
        obtain rfl := Except.ok.inj hb
        rw [he]
        rfl
      | cons a₀ before =>
        obtain ⟨rfl, rfl⟩ := List.cons.inj happ
        rw [List.foldlM_cons] at hb
        cases hs : step b a with
        | error e' => rw [hs] at hb; cases hb
        | ok c' =>
          rw [hs] at hb
          exact ih.mpr ⟨before, a', after, c, rfl, hb, he⟩

theorem Scans.foldlM_eq {ds : List Declaration} {fields : List Field} (h : plan.Scans ds fields)
    (hv : plan.Aligned ds) :
    ds.foldlM (Placement.add plan) plan.start = .ok (plan.placementOf fields) := by
  induction h with
  | nil => rfl
  | @snoc ds d fields f hs ha ih =>
    have hrest : plan.Aligned ds := fun d' hd => hv d' (List.mem_append_left _ hd)
    obtain ⟨t, ht, hty⟩ := ha.ty
    have halign : 0 < f.ty.alignment := by
      rw [← hty]
      exact hv d (List.mem_append_right _ (List.mem_singleton_self d)) t ht
    have hadd : (plan.placementOf fields).add plan d =
        .ok (plan.push (plan.placementOf fields) f) := by
      refine add_of_accepts ?_ halign ?_
      · rw [placementOf_size, placementOf_fields]
      · rw [placementOf_fields]
        exact ha
    rw [List.foldlM_append, ih hrest]
    show Placement.add plan (plan.placementOf fields) d >>= pure = _
    rw [hadd, placementOf_snoc]
    rfl

theorem scans_of_foldlM {ds : List Declaration} {placed : Placement} (hv : plan.Aligned ds)
    (h : ds.foldlM (Placement.add plan) plan.start = .ok placed) :
    ∃ fields, plan.Scans ds fields ∧ placed = plan.placementOf fields := by
  induction ds using List.reverseRecOn generalizing placed with
  | nil => exact ⟨[], .nil, (Except.ok.inj h).symm⟩
  | append_singleton ds d ih =>
    obtain ⟨before, hds, hadd⟩ := foldlM_snoc_eq_ok h
    have hrest : plan.Aligned ds := fun d' hd => hv d' (List.mem_append_left _ hd)
    obtain ⟨fields, hs, rfl⟩ := ih hrest hds
    have hd := hv d (List.mem_append_right _ (List.mem_singleton_self d))
    have hsum : (plan.placementOf fields).size = fieldsStop (plan.placementOf fields).fields := by
      rw [placementOf_size, placementOf_fields]
    rcases stops_or_accepts (plan.placementOf fields).fields d hd with ⟨e, he⟩ | ⟨f, hf, ha⟩
    · rw [add_of_stops hsum hd he] at hadd
      cases hadd
    · rw [add_of_accepts hsum hf ha] at hadd
      rw [placementOf_fields] at ha
      exact ⟨fields ++ [f], .snoc hs ha, by rw [placementOf_snoc, Except.ok.inj hadd]⟩

/-- The scan of the builder fails where that of the rule stops. -/
theorem stops_of_foldlM {ds : List Declaration} (hv : plan.Aligned ds) {e : Failure} :
    ds.foldlM (Placement.add plan) plan.start = .error e ↔
      ∃ before d after fields, ds = before ++ d :: after ∧ plan.Scans before fields ∧
        plan.Stops fields d e := by
  have hsum : ∀ fields,
      (plan.placementOf fields).size = fieldsStop (plan.placementOf fields).fields := by
    intro fields
    rw [placementOf_size, placementOf_fields]
  rw [foldlM_eq_error]
  constructor
  · rintro ⟨before, d, after, placed, rfl, hb, he⟩
    have hbefore : plan.Aligned before := fun d' hd => hv d' (List.mem_append_left _ hd)
    have hd := hv d (List.mem_append_right _ List.mem_cons_self)
    obtain ⟨fields, hs, rfl⟩ := scans_of_foldlM hbefore hb
    refine ⟨before, d, after, fields, rfl, hs, ?_⟩
    rcases stops_or_accepts (plan.placementOf fields).fields d hd with ⟨e', he'⟩ | ⟨f, hf, ha⟩
    · rw [add_of_stops (hsum fields) hd he'] at he
      rw [← Except.error.inj he, ← placementOf_fields plan fields]
      exact he'
    · rw [add_of_accepts (hsum fields) hf ha] at he
      cases he
  · rintro ⟨before, d, after, fields, rfl, hs, he⟩
    have hbefore : plan.Aligned before := fun d' hd => hv d' (List.mem_append_left _ hd)
    have hd := hv d (List.mem_append_right _ List.mem_cons_self)
    refine ⟨before, d, after, _, rfl, hs.foldlM_eq hbefore, add_of_stops (hsum fields) hd ?_⟩
    rw [placementOf_fields]
    exact he

/-! ## What the scan gives -/

theorem Scans.length_eq {ds : List Declaration} {fields : List Field} (h : plan.Scans ds fields) :
    fields.length = ds.length := by
  induction h with
  | nil => rfl
  | snoc _ _ ih => simp [ih]

theorem Scans.accepts {ds : List Declaration} {fields : List Field} (h : plan.Scans ds fields)
    {i : Nat} (hd : i < ds.length) (hf : i < fields.length) :
    plan.Accepts (fields.take i) ds[i] fields[i] := by
  induction h with
  | nil => cases hd
  | @snoc ds d fields f hs ha ih =>
    have hlen := hs.length_eq
    rcases Nat.lt_or_ge i fields.length with hi | hi
    · rw [List.getElem_append_left (by omega), List.getElem_append_left hi,
        List.take_append_of_le_length (Nat.le_of_lt hi)]
      exact ih (by omega) hi
    · -- the last field, which stands after all others
      obtain rfl : i = fields.length := by
        rw [List.length_append, List.length_singleton] at hf
        omega
      simp only [hlen, List.getElem_concat_length, List.take_left']
      exact ha

theorem Scans.distinct {ds : List Declaration} {fields : List Field} (h : plan.Scans ds fields) :
    fields.Pairwise fun f g => f.name ≠ g.name := by
  induction h with
  | nil => exact List.Pairwise.nil
  | snoc hs ha ih =>
    refine List.pairwise_append.mpr ⟨ih, List.pairwise_singleton _ _, ?_⟩
    intro g hg f hf
    rw [List.mem_singleton.mp hf, ha.name]
    exact ha.fresh g hg

/-! ## The whole -/

/-- The alignment of the whole. -/
def wholeAlignment (plan : LayoutPlan) (fields : List Field) : Nat :=
  max (plan.placementOf fields).alignment ((plan.alignment.map (Nat.max 1)).getD 1)

theorem isGreatest_wholeAlignment (plan : LayoutPlan) (fields : List Field) :
    IsGreatest (plan.alignments fields) (plan.wholeAlignment fields) := by
  have hfields := isGreatest_placementOf_alignment plan fields
  have hleft : (plan.placementOf fields).alignment ≤ plan.wholeAlignment fields :=
    Nat.le_max_left ..
  constructor
  · rcases Nat.le_total ((plan.alignment.map (Nat.max 1)).getD 1)
      (plan.placementOf fields).alignment with h | h
    · rw [wholeAlignment, Nat.max_eq_left h]
      exact hfields.1.imp_right Or.inl
    · rw [wholeAlignment, Nat.max_eq_right h]
      cases ha : plan.alignment with
      | none => exact Or.inl rfl
      | some a =>
        rcases Nat.le_total a 1 with h1 | h1
        · exact Or.inl (Nat.max_eq_left h1)
        · refine Or.inr (Or.inr ?_)
          rw [ha]
          exact congrArg some (Nat.max_eq_right h1).symm
  · rintro a (rfl | ⟨f, hf, rfl⟩ | ha)
    · exact Nat.le_trans (hfields.2 (Or.inl rfl)) hleft
    · exact Nat.le_trans (hfields.2 (Or.inr ⟨f, hf, rfl⟩)) hleft
    · have hright : Nat.max 1 a ≤ plan.wholeAlignment fields := by
        rw [wholeAlignment, ha]
        exact Nat.le_max_right ..
      exact Nat.le_trans (Nat.le_max_right 1 a) hright

theorem wholeAlignment_pos (plan : LayoutPlan) (fields : List Field) :
    0 < plan.wholeAlignment fields :=
  (isGreatest_wholeAlignment plan fields).2 (Or.inl rfl)

/-- What follows the scan of all declarations. -/
theorem build_eq {fields : List Field} (hs : plan.Scans plan.declarations fields)
    (hv : plan.Aligned plan.declarations) :
    plan.build =
      if plan.wholeAlignment fields ≤ 1 ∨
          fieldsStop fields + plan.wholeAlignment fields < wordLimit then
        if roundUp (fieldsStop fields) (plan.wholeAlignment fields) = 0 then
          .error (.fault (.runtime "struct size is zero"))
        else .ok {
          fields
          size := roundUp (fieldsStop fields) (plan.wholeAlignment fields)
          alignment := plan.wholeAlignment fields
          isUnion := plan.isUnion
          natural := (plan.placementOf fields).natural &&
            decide ((plan.alignment.map (Nat.max 1)).getD 1 ≤
              (plan.placementOf fields).alignment) && !plan.isUnion }
      else .error .overflow := by
  have ha : Nat.max (plan.placementOf fields).alignment
    ((plan.alignment.map (Nat.max 1)).getD 1) = plan.wholeAlignment fields := rfl
  unfold build
  simp only [hs.foldlM_eq hv, bind, Except.bind, ha,
    orOverflow_alignUp _ (wholeAlignment_pos plan fields), placementOf_size, placementOf_fields]
  by_cases hw : plan.wholeAlignment fields ≤ 1 ∨
      fieldsStop fields + plan.wholeAlignment fields < wordLimit
  · simp only [if_pos hw]
    split
    · rfl
    · rfl
  · simp only [if_neg hw]

theorem build_of_error {e : Failure}
    (h : plan.declarations.foldlM (Placement.add plan) plan.start = .error e) :
    plan.build = .error e := by
  unfold build
  rw [h]
  rfl

/-- A layout in terms of the scan that it comes from. -/
structure ScansTo (plan : LayoutPlan) (l : Layout) : Prop where
  scans : plan.Scans plan.declarations l.fields
  alignment : l.alignment = plan.wholeAlignment l.fields
  size : l.size = roundUp (fieldsStop l.fields) l.alignment
  nonempty : l.size ≠ 0
  isUnion : l.isUnion = plan.isUnion
  natural : l.natural = ((plan.placementOf l.fields).natural &&
    decide ((plan.alignment.map (Nat.max 1)).getD 1 ≤ (plan.placementOf l.fields).alignment) &&
    !plan.isUnion)

theorem scansTo_of_build {l : Layout} (hv : plan.Aligned plan.declarations)
    (h : plan.build = .ok l) : plan.ScansTo l := by
  cases hd : plan.declarations.foldlM (Placement.add plan) plan.start with
  | error e =>
    rw [build_of_error hd] at h
    cases h
  | ok placed =>
    obtain ⟨fields, hs, rfl⟩ := scans_of_foldlM hv hd
    rw [build_eq hs hv] at h
    split at h
    · split at h
      · cases h
      next hz =>
        rw [← Except.ok.inj h]
        exact ⟨hs, rfl, rfl, hz, rfl, rfl⟩
    · cases h

/-- The types of a plan have alignments if those of the fields built from it have. -/
theorem aligned_of_build {l : Layout} (h : plan.build = .ok l)
    (hf : ∀ f ∈ l.fields, 0 < f.ty.alignment) : plan.Aligned plan.declarations := by
  cases hd : plan.declarations.foldlM (Placement.add plan) plan.start with
  | error e =>
    rw [build_of_error hd] at h
    cases h
  | ok placed =>
    unfold build at h
    simp only [hd, bind, Except.bind] at h
    split at h
    · cases h
    split at h
    · cases h
    rw [← Except.ok.inj h] at hf
    exact aligned_of_foldlM hd hf

theorem ScansTo.describes {l : Layout} (h : plan.ScansTo l) : plan.Describes l where
  isUnion := h.isUnion
  length := h.scans.length_eq
  placed := fun _ hd hf => (h.scans.accepts hd hf).toPlaces
  distinct := h.scans.distinct
  apart := by
    intro hu i j hij hd hf hn
    have hle := ((h.scans.accepts hd hf).least hu hn).1.2
    refine hle _ (List.mem_take_iff_getElem.mpr ⟨i, ?_, rfl⟩)
    exact Nat.lt_min.mpr ⟨hij, Nat.lt_trans hij hf⟩
  alignment := by
    rw [h.alignment]
    exact isGreatest_wholeAlignment plan l.fields
  size := by
    rw [h.size]
    refine isLeast_stop l.fields ?_
    rw [h.alignment]
    exact wholeAlignment_pos plan l.fields
  positive := Nat.pos_of_ne_zero h.nonempty

/-- Every field of a layout that has been built has bytes. -/
theorem ScansTo.bytes {l : Layout} (h : plan.ScansTo l) {f : Field} (hf : f ∈ l.fields) :
    0 < f.ty.size := by
  obtain ⟨i, hi, rfl⟩ := List.getElem_of_mem hf
  exact (h.scans.accepts (h.scans.length_eq ▸ hi) hi).bytes

theorem Scans.stop_lt {ds : List Declaration} {fields : List Field} (h : plan.Scans ds fields) :
    fieldsStop fields < wordLimit := by
  induction h with
  | nil => decide
  | snoc _ ha ih =>
    rw [fieldsStop_snoc]
    exact Nat.max_lt.mpr ⟨ih, ha.fits.stop⟩

/-- The size of a layout is a word. -/
theorem ScansTo.size_lt {l : Layout} (h : plan.ScansTo l) (hv : plan.Aligned plan.declarations)
    (hb : plan.build = .ok l) : l.size < wordLimit := by
  have hstop := h.scans.stop_lt
  rw [build_eq h.scans hv] at hb
  rw [h.size, h.alignment]
  split at hb
  next hw =>
    rcases hw with hle | hlt
    · have hone : plan.wholeAlignment l.fields = 1 :=
        Nat.le_antisymm hle (wholeAlignment_pos plan l.fields)
      rw [hone, roundUp, Nat.div_one, Nat.mul_one]
      exact hstop
    · exact Nat.lt_trans (roundUp_lt _ (wholeAlignment_pos plan l.fields)) hlt
  · cases hb

theorem size_lt_of_build {l : Layout} (h : plan.build = .ok l) (hf : ∀ f ∈ l.fields, f.ty.Built) :
    l.size < wordLimit := by
  have hv := aligned_of_build h fun f hm => (hf f hm).alignment_pos
  exact (scansTo_of_build hv h).size_lt hv h

theorem wholeAlignment_nil (hv : plan.Valid) : plan.wholeAlignment [] < wordLimit := by
  rcases (isGreatest_wholeAlignment plan []).1 with h | ⟨f, hf, -⟩ | h
  · rw [h]
    decide
  · cases hf
  · exact hv.word _ h

/-- Only the scan of no declarations ends at 0. -/
theorem Scans.stop_pos {ds : List Declaration} {fields : List Field} (h : plan.Scans ds fields)
    (hd : ds ≠ []) : 0 < fieldsStop fields := by
  cases h with
  | nil => exact absurd rfl hd
  | @snoc ds d fields f hs ha =>
    rw [fieldsStop_snoc]
    have hstop : 0 < f.stop := Nat.lt_of_lt_of_le ha.bytes (Nat.le_add_left ..)
    exact Nat.lt_of_lt_of_le hstop (Nat.le_max_right ..)

theorem build_eq_error (hv : plan.Valid) {e : Failure} :
    plan.build = .error e ↔ plan.Fails e := by
  constructor
  · intro h
    cases hd : plan.declarations.foldlM (Placement.add plan) plan.start with
    | error e' =>
      rw [build_of_error hd] at h
      obtain rfl := Except.error.inj h
      obtain ⟨before, d, after, fields, happ, hs, he⟩ := (stops_of_foldlM hv.aligned).mp hd
      exact .field happ hs he
    | ok placed =>
      obtain ⟨fields, hs, rfl⟩ := scans_of_foldlM hv.aligned hd
      rw [build_eq hs hv.aligned] at h
      split at h
      next =>
        split at h
        next hz =>
          obtain rfl := Except.error.inj h
          refine .none (Decidable.byContradiction fun hne => ?_)
          have hpos := hs.stop_pos hne
          have hle := le_roundUp (fieldsStop fields) (wholeAlignment_pos plan fields)
          omega
        · cases h
      next hw =>
        obtain rfl := Except.error.inj h
        refine .rounding ?_ hs (isGreatest_wholeAlignment plan fields) (by omega) (by omega)
        intro hnil
        rw [hnil] at hs
        have hlt := wholeAlignment_nil hv
        rw [List.length_eq_zero_iff.mp hs.length_eq, fieldsStop_nil] at hw
        omega
  · intro h
    cases h with
    | @field ds rest d fields e hd hs he =>
      exact build_of_error ((stops_of_foldlM hv.aligned).mpr ⟨ds, d, rest, fields, hd, hs, he⟩)
    | none hd =>
      have hs : plan.Scans plan.declarations [] := by
        rw [hd]
        exact .nil
      have hlt := wholeAlignment_nil hv
      rw [build_eq hs hv.aligned, fieldsStop_nil, if_pos (by omega), if_pos]
      exact Nat.le_zero.mp ((isLeast_roundUp 0 (wholeAlignment_pos plan [])).2
        ⟨Nat.dvd_zero _, Nat.le_refl 0⟩)
    | @rounding fields a hd hs ha h1 hw =>
      obtain rfl := ha.unique (isGreatest_wholeAlignment plan fields)
      rw [build_eq hs hv.aligned, if_neg (by omega)]
      rfl

/--
The rule of layouts. A layout that is built is the one that the rule describes; a layout is built
unless a declaration, the absence of declarations or the last rounding gives a failure; and that
failure is then the answer.
-/
theorem build_rule (plan : LayoutPlan) (hv : plan.Valid) :
    (∀ l, plan.build = .ok l → plan.Describes l) ∧
      ((∃ l, plan.build = .ok l) ↔ ∀ e, ¬ plan.Fails e) ∧
      ∀ e, plan.build = .error e ↔ plan.Fails e := by
  refine ⟨fun l h => (scansTo_of_build hv.aligned h).describes, ?_, fun e => build_eq_error hv⟩
  constructor
  · rintro ⟨l, hl⟩ e he
    rw [(build_eq_error hv).mpr he] at hl
    cases hl
  · intro hnone
    cases hb : plan.build with
    | ok l => exact ⟨l, rfl⟩
    | error e => exact absurd ((build_eq_error hv).mp hb) (hnone e)

/-- A field at its own offset, on top of one that has been rounded up to a capped alignment. -/
def overlapping : LayoutPlan where
  declarations := [⟨"a", .name "char", none⟩, ⟨"b", .descriptor (.ofBuiltin (.int .int32)), none⟩,
    ⟨"c", .name "short", some 3⟩]
  isUnion := false
  packed := some 2
  alignment := some 8
  typedefs := .empty

theorem build_rule_overlapping :
    overlapping.Valid ∧ ∃ l, overlapping.build = .ok l ∧ overlapping.Describes l ∧
      l.fields.map Field.offset = [0, 2, 3] ∧ l.size = 8 := by
  have hv : overlapping.Valid := by
    refine ⟨?_, ?_, ?_⟩
    · intro d hd t ht
      simp only [overlapping, List.mem_cons, List.not_mem_nil, or_false] at hd
      rcases hd with rfl | rfl | rfl
      · cases ht
      · cases ht
        exact .builtin _
      · cases ht
    · intro entry he
      cases he
    · intro a ha
      obtain rfl := Option.some.inj ha
      decide
  refine ⟨hv, ⟨_, 8, 8, false, false⟩, rfl, (build_rule overlapping hv).1 _ rfl, rfl, rfl⟩

end LayoutPlan

end ForeignCall
