import ForeignCall.Proofs.Layout.Records
import ForeignCall.Proofs.Memory.Blocks

/-!
# Rounding up, and the room that it takes

An address that is rounded up to an alignment moves by less than the alignment. So a block asks for
that many bytes more than it needs, and whatever address it is given, its own bytes lie inside.

Main statement: `alignUp_exact`. Where a rounding has a result, it is the least multiple of the
alignment that is not below the value. It has none as soon as the value and the alignment together
leave the word, and so none for the last multiple below the limit
(`alignUp_refuses_last_multiple`).
-/

namespace ForeignCall

/-! ## Roundings -/

section

variable {value value' align r r' : Nat}

/-- A rounding that is not refused gives the least multiple that is not below the value. -/
theorem alignUp_eq_some_iff : alignUp value align = some r ↔
    IsLeast {k | max align 1 ∣ k ∧ value ≤ k} r ∧ (align ≤ 1 ∨ value + align < wordLimit) := by
  have hleast := isLeast_roundUp value (Nat.lt_of_lt_of_le Nat.one_pos (Nat.le_max_right align 1))
  rcases Nat.lt_or_ge 1 align with h | h
  · rw [Nat.max_eq_left (Nat.le_of_lt h)] at hleast ⊢
    rw [alignUp_eq_some h, or_iff_right (Nat.not_le_of_lt h)]
    exact and_congr_left fun _ => ⟨fun hr => hr ▸ hleast, fun hr => hr.unique hleast⟩
  · rw [Nat.max_eq_right h] at hleast ⊢
    rw [alignUp_of_le_one h, Option.some_inj, and_iff_left (Or.inl h)]
    have hself : roundUp value 1 = value := (roundUp_eq_self Nat.one_pos).mpr (Nat.one_dvd value)
    rw [hself] at hleast
    exact ⟨fun hr => hr ▸ hleast, fun hr => hleast.unique hr⟩

/-- Rounding keeps the order of values. -/
theorem alignUp_mono (h : value ≤ value') (hr : alignUp value align = some r)
    (hr' : alignUp value' align = some r') : r ≤ r' := by
  obtain ⟨⟨-, hleast⟩, -⟩ := alignUp_eq_some_iff.mp hr
  obtain ⟨⟨⟨hdvd, hle⟩, -⟩, -⟩ := alignUp_eq_some_iff.mp hr'
  exact hleast ⟨hdvd, Nat.le_trans h hle⟩

/-- What has been rounded is not moved again. -/
theorem alignUp_idem (hr : alignUp value align = some r) (hr' : alignUp r align = some r') :
    r' = r := by
  obtain ⟨⟨⟨hdvd, -⟩, -⟩, -⟩ := alignUp_eq_some_iff.mp hr
  obtain ⟨⟨⟨-, hle⟩, hleast⟩, -⟩ := alignUp_eq_some_iff.mp hr'
  exact Nat.le_antisymm (hleast ⟨hdvd, Nat.le_refl r⟩) hle

/-- A rounding moves a value by less than the alignment. -/
theorem lt_of_alignUp (h : 1 < align) (hr : alignUp value align = some r) :
    r < value + align := by
  obtain ⟨rfl, -⟩ := (alignUp_eq_some h).mp hr
  exact roundUp_lt value (Nat.lt_of_succ_lt h)

/-- Of the values whose sum with the alignment reaches the limit at most, the one whose sum reaches
it is refused, and no other. -/
theorem exists_alignUp_iff (hv : value < wordLimit) (hsum : value + align ≤ wordLimit) :
    (∃ r, alignUp value align = some r ∧ r < wordLimit) ↔
      align ≤ 1 ∨ value + align ≠ wordLimit := by
  constructor
  · rintro ⟨r, hr, -⟩
    exact (alignUp_eq_some_iff.mp hr).2.imp_right Nat.ne_of_lt
  · intro h
    rcases Nat.lt_or_ge 1 align with h1 | h1
    · have hlt : value + align < wordLimit := by omega
      have hr : alignUp value align = some (roundUp value align) :=
        (alignUp_eq_some h1).mpr ⟨rfl, hlt⟩
      exact ⟨_, hr, Nat.lt_trans (lt_of_alignUp h1 hr) hlt⟩
    · exact ⟨value, alignUp_of_le_one h1, hv⟩

end

/-! ## Blocks -/

/-- A block stands in the bytes that are obtained for it, at a multiple of the alignment of
blocks. -/
theorem Memory.allocate_inside {m m' : Memory} {typeSize count : Nat} {v : View}
    (h : m.allocate typeSize count = .ok (v, m')) :
    ∃ base, m.heap.obtain (v.size + 7) = (base, m'.heap) ∧ v.size = typeSize * count ∧
      8 ∣ v.address ∧ base ≤ v.address ∧ v.address + v.size ≤ base + (v.size + 7) := by
  obtain ⟨size, address, hsize, -, hplace, rfl, rfl⟩ := allocate_eq h
  have hleast := (alignUp_eq_some_iff.mp hplace).1.1
  have hlt : address < m.heap.next + 8 := lt_of_alignUp (by decide) hplace
  refine ⟨m.heap.next, rfl, (totalSize_eq_ok_iff.mp hsize).1, hleast.1, hleast.2, ?_⟩
  show address + size ≤ m.heap.next + (size + 7)
  omega

/--
Rounding up and over-allocating.

A rounding that has a result gives the least multiple of the alignment that is not below the value,
alignments 0 and 1 leaving the value as it is; it has one exactly if the alignment is one of these
or its sum with the value stays in the word. So of the values that may lie up to one alignment below
the limit, all but the last multiple are rounded. Roundings keep the order of values, and do nothing
to what has been rounded. A block that is allocated stands at a multiple of 8, with all its bytes
inside the bytes that have been obtained for it, which are 7 more; this is so wherever these begin.
-/
theorem alignUp_exact (value align : Nat) :
    (∀ r, alignUp value align = some r ↔
      IsLeast {k | max align 1 ∣ k ∧ value ≤ k} r ∧ (align ≤ 1 ∨ value + align < wordLimit)) ∧
    (value < wordLimit → value + align ≤ wordLimit →
      ((∃ r, alignUp value align = some r ∧ r < wordLimit) ↔
        align ≤ 1 ∨ value + align ≠ wordLimit)) ∧
    (∀ value' r r', value ≤ value' → alignUp value align = some r →
      alignUp value' align = some r' → r ≤ r') ∧
    (∀ r r', alignUp value align = some r → alignUp r align = some r' → r' = r) ∧
    ∀ (m m' : Memory) (typeSize count : Nat) (v : View), m.allocate typeSize count = .ok (v, m') →
      ∃ base, m.heap.obtain (v.size + 7) = (base, m'.heap) ∧ v.size = typeSize * count ∧
        8 ∣ v.address ∧ base ≤ v.address ∧ v.address + v.size ≤ base + (v.size + 7) := by
  refine ⟨fun r => alignUp_eq_some_iff, exists_alignUp_iff, ?_, ?_, ?_⟩
  · exact fun value' r r' => alignUp_mono
  · exact fun r r' => alignUp_idem
  · exact fun m m' typeSize count v => Memory.allocate_inside

/-- Two values are rounded to a multiple of 6, and 20 bytes are placed in 27 that begin at 4099. -/
theorem alignUp_exact_six :
    alignUp 13 6 = some 18 ∧ IsLeast {k | max 6 1 ∣ k ∧ 13 ≤ k} 18 ∧
      (∃ r, alignUp 13 6 = some r ∧ r < wordLimit) ∧ (∃ r, alignUp 20 6 = some r ∧ 18 ≤ r) ∧
      (∃ r, alignUp 18 6 = some r ∧ r = 18) ∧
      ∃ v m', Memory.allocate ⟨.empty 4099 fun _ _ => false, #[]⟩ 4 5 = .ok (v, m') ∧
        v.address = 4104 ∧ 8 ∣ v.address ∧ 4099 ≤ v.address ∧ v.address + v.size ≤ 4099 + 27 := by
  obtain ⟨hleast, hexists, hmono, hidem, hblock⟩ := alignUp_exact 13 6
  have hr : alignUp 13 6 = some 18 := rfl
  refine ⟨hr, ((hleast 18).mp hr).1, (hexists (by decide) (by decide)).mpr (.inr (by decide)),
    ⟨24, rfl, hmono 20 18 24 (by decide) hr rfl⟩, ⟨18, rfl, hidem 18 18 hr rfl⟩, ?_⟩
  obtain ⟨base, hbase, -, hdvd, hle, hend⟩ := hblock ⟨.empty 4099 fun _ _ => false, #[]⟩ _ 4 5 _ rfl
  obtain rfl : 4099 = base := congrArg Prod.fst hbase
  exact ⟨_, _, rfl, rfl, hdvd, hle, hend⟩

/-- The last multiple of 8 is no sooner formed than the sum with which its rounding begins leaves
the word. -/
theorem alignUp_refuses_last_multiple :
    18446744073709551608 + 8 - 1 < wordLimit ∧
      IsLeast {k | max 8 1 ∣ k ∧ 18446744073709551608 ≤ k} 18446744073709551608 ∧
      alignUp 18446744073709551608 8 = none :=
  ⟨by decide, ⟨⟨by decide, Nat.le_refl _⟩, fun _ hk => hk.2⟩, rfl⟩

end ForeignCall
