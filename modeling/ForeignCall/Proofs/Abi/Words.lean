import ForeignCall.Abi.Passing

/-!
# Eightbytes

The bytes of an argument or a result travel as eightbytes. Whatever register or part of the stack
they travel in, put together again and cut to the size of the record they are the bytes of before
(`Record.fit_eightbytes`): a small integer is widened on the way and narrowed at its end.
-/

namespace ForeignCall

namespace Bytes

/-! ## Cutting to a length -/

theorem fit_take {n : Nat} {bs : List UInt8} (h : n ≤ bs.length) : fit n bs = bs.take n := by
  simp [fit, Nat.sub_eq_zero_of_le h]

/-- Bytes that begin with the given ones are cut to them. -/
theorem fit_of_take {bs cs : List UInt8} (h : cs.take bs.length = bs) : fit bs.length cs = bs := by
  have hl : bs.length ≤ cs.length := by
    have := congrArg List.length h
    rw [List.length_take] at this
    omega
  rw [fit_take hl, h]

/-- What a larger size keeps, a smaller one may be cut from. -/
theorem fit_fit {m n : Nat} (h : m ≤ n) (bs : List UInt8) : fit m (fit n bs) = fit m bs := by
  rw [fit_take (by simpa using h)]
  unfold fit
  rw [List.take_append, List.take_take, Nat.min_eq_left h, List.take_replicate, List.length_take]
  congr 2
  omega

theorem take_ofNat {j n : Nat} (h : j ≤ n) (x : Nat) : (ofNat n x).take j = ofNat j x := by
  induction n generalizing j x with
  | zero =>
    obtain rfl := Nat.le_zero.mp h
    rfl
  | succ n ih =>
    cases j with
    | zero => rfl
    | succ j => rw [ofNat, List.take_succ_cons, ih (Nat.le_of_succ_le_succ h), ofNat]

theorem limit_pos (n : Nat) : 0 < limit n := by
  induction n with
  | zero => exact Nat.one_pos
  | succ n ih => exact Nat.mul_pos (by decide) ih

theorem ofNat_mod (n x : Nat) : ofNat n (x % limit n) = ofNat n x := by
  have h := ofNat_toNat (ofNat n x)
  rw [length_ofNat, toNat_ofNat] at h
  exact h

/-! ## Cutting into pieces -/

variable {w : Nat} {bs : List UInt8}

theorem length_words (w : Nat) (bs : List UInt8) :
    (words w bs).length = (bs.length + w - 1) / w := by
  simp [words]

theorem words_cons (hw : 0 < w) (hb : bs ≠ []) :
    words w bs = fit w (bs.take w) :: words w (bs.drop w) := by
  have hl := List.length_pos_iff.mpr hb
  have hc : (bs.length + w - 1) / w = ((bs.drop w).length + w - 1) / w + 1 := by
    rw [List.length_drop, ← Nat.add_div_right _ hw]
    by_cases h : w ≤ bs.length
    · congr 1
      omega
    · rw [Nat.div_eq_of_lt_le (k := 1) (by omega) (by omega),
        Nat.div_eq_of_lt_le (k := 1) (by omega) (by omega)]
  unfold words
  rw [hc, List.range_succ_eq_map, List.map_cons, List.map_map]
  congr 1
  · rw [Nat.zero_mul, List.drop_zero]
  · refine List.map_congr_left fun i _ => ?_
    show fit w ((bs.drop ((i + 1) * w)).take w) = fit w (((bs.drop w).drop (i * w)).take w)
    rw [List.drop_drop, Nat.succ_mul, Nat.add_comm]

/-- The pieces put together begin with the bytes. -/
theorem take_flatten_words (hw : 0 < w) (bs : List UInt8) :
    (words w bs).flatten.take bs.length = bs := by
  induction hn : bs.length using Nat.strongRecOn generalizing bs with
  | ind n ih =>
    subst hn
    by_cases hb : bs = []
    · subst hb
      rfl
    · have hl := List.length_pos_iff.mpr hb
      rw [words_cons hw hb, List.flatten_cons, List.take_append, length_fit]
      have hd : (bs.drop w).length < bs.length := by
        rw [List.length_drop]
        omega
      have hrest := ih _ hd (bs.drop w) rfl
      rw [List.length_drop] at hrest
      rw [hrest]
      by_cases h : w ≤ bs.length
      · have ht : (bs.take w).length = w := by
          rw [List.length_take, Nat.min_eq_left h]
        rw [fit_of_length ht, List.take_of_length_le (by omega), List.take_append_drop]
      · have ht : bs.take w = bs := List.take_of_length_le (by omega)
        rw [ht, List.drop_of_length_le (by omega), List.append_nil]
        unfold fit
        rw [ht, List.take_left]

end Bytes

/-! ## Integers in registers -/

/-- An integer has the bit pattern that it has been read from. -/
theorem IntKind.emod_ofBits (k : IntKind) {n : Nat} (h : n < k.modulus) :
    k.ofBits n % (k.modulus : Int) = n := by
  unfold IntKind.ofBits
  split
  · rw [Int.sub_emod_right]
    exact Int.emod_eq_of_lt (Int.natCast_nonneg n) (Int.ofNat_lt.mpr h)
  · exact Int.emod_eq_of_lt (Int.natCast_nonneg n) (Int.ofNat_lt.mpr h)

namespace Bytes

theorem limit_dvd {j n : Nat} (h : j ≤ n) : limit j ∣ limit n := by
  induction h with
  | refl => exact Nat.dvd_refl _
  | step _ ih => exact Nat.dvd_trans ih (Nat.dvd_mul_left ..)

/-- A widened integer is narrowed to what it has been. -/
theorem fit_ofInt {j n : Nat} (h : j ≤ n) (i : Int) : fit j (ofInt n i) = ofInt j i := by
  rw [fit_take (by simpa using h)]
  unfold ofInt
  rw [take_ofNat h, ← ofNat_mod j]
  congr 1
  have hj := limit_pos j
  have hn := limit_pos n
  have hd : (limit j : Int) ∣ (limit n : Int) := Int.natCast_dvd_natCast.mpr (limit_dvd h)
  have h1 := Int.emod_nonneg i (show (limit n : Int) ≠ 0 by omega)
  have h2 := Int.emod_nonneg i (show (limit j : Int) ≠ 0 by omega)
  apply Int.ofNat.inj
  show ((((i % (limit n : Int)).toNat % limit j : Nat)) : Int) = ((i % (limit j : Int)).toNat : Int)
  rw [Int.natCast_emod, Int.toNat_of_nonneg h1, Int.toNat_of_nonneg h2,
    Int.emod_emod_of_dvd _ hd]

end Bytes

namespace Abi.Record

/-- The bytes of a record are one integer in a register, or eightbytes cut from its start. -/
theorem length_eightbytes (r : Record) (bytes : List UInt8) :
    (r.eightbytes bytes).length = (r.size + 7) / 8 := by
  have hwords : (Bytes.words 8 (Bytes.fit r.size bytes)).length = (r.size + 7) / 8 := by
    rw [Bytes.length_words, Bytes.length_fit]
    rfl
  cases r with
  | int k =>
    have h1 : 0 < k.bytes := k.width.bytes_pos
    have h2 : k.bytes ≤ 8 := k.width.bytes_le
    rw [eightbytes, size, List.length_singleton]
    omega
  | _ => exact hwords

/-- The eightbytes of a record put together are its bytes again. -/
theorem fit_eightbytes (r : Record) (bytes : List UInt8) :
    Bytes.fit r.size (r.eightbytes bytes).flatten = Bytes.fit r.size bytes := by
  have hwords : Bytes.fit r.size (Bytes.words 8 (Bytes.fit r.size bytes)).flatten =
      Bytes.fit r.size bytes := by
    have h := Bytes.take_flatten_words (show 0 < 8 by decide) (Bytes.fit r.size bytes)
    have hf := Bytes.fit_of_take h
    rw [Bytes.length_fit] at hf
    exact hf
  cases r with
  | int k =>
    -- an integer is widened by its sign, and only the new bytes are cut off
    show Bytes.fit k.bytes (List.flatten [Bytes.ofInt 8 _]) = Bytes.fit k.bytes bytes
    have hl : k.modulus = Bytes.limit k.bytes := k.width.modulus_eq
    have hlt : Bytes.toNat (Bytes.fit k.bytes bytes) < k.modulus := by
      have h := Bytes.toNat_lt (Bytes.fit k.bytes bytes)
      rw [Bytes.length_fit] at h
      rw [hl]
      exact h
    have hk : k.bytes ≤ 8 := k.width.bytes_le
    rw [List.flatten_singleton, Bytes.fit_ofInt hk]
    unfold Bytes.ofInt
    rw [← hl, k.emod_ofBits hlt, Int.toNat_natCast]
    have h := Bytes.ofNat_toNat (Bytes.fit k.bytes bytes)
    rw [Bytes.length_fit] at h
    exact h
  | _ => exact hwords

end Abi.Record

end ForeignCall
