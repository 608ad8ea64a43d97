import Mathlib.Data.Nat.Find
import ForeignCall.Proofs.Memory.CStrings
import ForeignCall.Proofs.Memory.Numbers

/-!
# Arrays of strings

An array of string addresses is scanned slot by slot. With a count every slot is looked at and a
null entry is no text; without one the scan ends at the first null entry. What ends it besides is
the end of the view alone: a slot that fits makes the place of the next one a word.

Main statement: `Memory.string_array_exact`.
-/

namespace ForeignCall

namespace Memory

/-! ## Rounds of the scan -/

/-- What one round of the scan comes to. -/
inductive Round where
  /-- The array has ended. -/
  | ended
  | failed (failure : Failure)
  /-- The slot holds an address that belongs to the array. -/
  | entry (address : Nat)

/-- What the scan does at its slot `index`. -/
def stringRound (m : Memory) (v : View) (offset : Nat) (count : Option Nat) (index : Nat) : Round :=
  if count.any fun n => n ≤ index then .ended
  else if offset + index * addressSize < wordLimit then
    match (m.readAddress v (offset + index * addressSize)).outcome with
    | .error e => .failed e
    | .ok address => if address = 0 ∧ count.isNone then .ended else .entry address
  else .failed .overflow

/-- The text that an address stands for. -/
def textAt (m : Memory) (address : Nat) : Option String := (m.stringAt address).map Utf8.lossy

/-- The scan from slot `index` on, given up after a number of rounds. -/
def readStringsWithin (m : Memory) (v : View) (offset : Nat) (count : Option Nat) :
    Nat → Nat → Option (Outcome (List (Option String)))
  | 0, _ => none
  | rounds + 1, index =>
    match m.stringRound v offset count index with
    | .ended => some (.ok [])
    | .failed e => some (.error e)
    | .entry address =>
      (m.readStringsWithin v offset count rounds (index + 1)).map
        ((m.textAt address :: ·) <$> ·)

variable {m : Memory} {v : View} {offset index : Nat} {count : Option Nat}

/-- The scan goes round by round. -/
theorem readStringsFrom_eq : m.readStringsFrom v offset count index =
    match m.stringRound v offset count index with
    | .ended => .ok []
    | .failed e => .error e
    | .entry address =>
      (m.textAt address :: ·) <$> m.readStringsFrom v offset count (index + 1) := by
  rw [readStringsFrom]
  unfold stringRound
  split
  · rfl
  split
  · cases (m.readAddress v (offset + index * addressSize)).outcome with
    | error e => rfl
    | ok address =>
      by_cases hz : address = 0 ∧ count.isNone = true
      · simp [hz, bind, Except.bind, pure, Except.pure]
      · simp only [bind, Except.bind, if_neg hz]
        cases m.readStringsFrom v offset count (index + 1) <;> rfl
  · rfl

end Memory

/-! ## Slots -/

/-- Whether slot `index` of an array of addresses lies in the view. -/
def View.HasSlot (v : View) (offset index : Nat) : Prop :=
  offset + (index + 1) * addressSize ≤ v.size

instance (v : View) (offset index : Nat) : Decidable (v.HasSlot offset index) :=
  inferInstanceAs (Decidable (_ ≤ _))

theorem View.HasSlot.of_le {v : View} {offset i j : Nat} (h : v.HasSlot offset j) (hij : i ≤ j) :
    v.HasSlot offset i := by
  unfold HasSlot addressSize at *
  omega

namespace Memory

/-- The address in slot `index`, in the byte order of the view. -/
def slotAddress (m : Memory) (v : View) (offset index : Nat) : Nat :=
  v.decode (m.heap.load (wrap (v.address + (offset + index * addressSize))) addressSize)

/-- The texts of the first `k` slots. -/
def slotTexts (m : Memory) (v : View) (offset k : Nat) : List (Option String) :=
  (List.range k).map fun i => m.textAt (m.slotAddress v offset i)

variable {m : Memory} {v : View} {offset index : Nat} {count : Option Nat}

theorem admits_slot (hv : v.size < wordLimit) :
    m.Admits v (offset + index * addressSize) addressSize .read ↔
      m.Permits v .read ∧ v.HasSlot offset index := by
  rw [admits_iff hv, View.HasSlot, Nat.add_assoc, Nat.succ_mul]

theorem readAddress_slot (hv : v.size < wordLimit) (hp : m.Permits v .read)
    (hs : v.HasSlot offset index) :
    m.readAddress v (offset + index * addressSize) = .ok (m.slotAddress v offset index) :=
  readBits_eq_ok.mpr ⟨(admits_slot hv).mpr ⟨hp, hs⟩, rfl⟩

theorem readAddress_eq_bounds (hp : m.Permits v .read) (hs : ¬v.HasSlot offset index) :
    ∃ f, m.readAddress v (offset + index * addressSize) = .error f ∧ f.kind = .bounds := by
  simp only [readAddress, readBits, readBytes, Checked.bind_pure_eq_error]
  refine check_eq_bounds.mpr ⟨hp, fun hfit => hs ?_⟩
  have hinside := hfit.2
  rwa [Nat.add_assoc, ← Nat.succ_mul] at hinside

/-- A slot that the scan takes for an entry. -/
structure TakesSlot (m : Memory) (v : View) (offset : Nat) (count : Option Nat) (index : Nat) :
    Prop where
  counted : ∀ n, count = some n → index < n
  slot : v.HasSlot offset index
  nonnull : count = none → m.slotAddress v offset index ≠ 0

/-- The place of a slot that fits is a word, and so is the place behind it. -/
theorem word_of_slot (hv : v.size < wordLimit) (hs : v.HasSlot offset index) {i : Nat}
    (hi : i ≤ index + 1) : offset + i * addressSize < wordLimit :=
  calc offset + i * addressSize
    _ ≤ offset + (index + 1) * addressSize :=
        Nat.add_le_add_left (Nat.mul_le_mul_right addressSize hi) offset
    _ ≤ v.size := hs
    _ < wordLimit := hv

/-- The place of a slot with none before it outside the view is a word. -/
theorem word_of_slots (hv : v.size < wordLimit) (ho : offset < wordLimit)
    (h : ∀ i < index, v.HasSlot offset i) : offset + index * addressSize < wordLimit := by
  cases index with
  | zero => simpa using ho
  | succ i => exact word_of_slot hv (h i (Nat.lt_succ_self i)) (Nat.le_refl _)

/-! ## What each round comes to -/

theorem not_reached (h : ∀ n, count = some n → index < n) :
    ¬(count.any fun n => n ≤ index) = true := by
  cases count with
  | none => simp
  | some n => simpa using h n rfl

theorem stringRound_of_takes (hv : v.size < wordLimit) (hp : m.Permits v .read)
    (h : m.TakesSlot v offset count index) :
    m.stringRound v offset count index = .entry (m.slotAddress v offset index) := by
  have hword := word_of_slot hv h.slot (Nat.le_succ index)
  have hnull : ¬(m.slotAddress v offset index = 0 ∧ count.isNone = true) := fun hz =>
    h.nonnull (by simpa using hz.2) hz.1
  unfold stringRound
  rw [if_neg (not_reached h.counted), if_pos hword, readAddress_slot hv hp h.slot]
  exact if_neg hnull

theorem stringRound_of_count {n : Nat} (h : n ≤ index) :
    m.stringRound v offset (some n) index = .ended := by
  unfold stringRound
  exact if_pos (by simpa using h)

theorem stringRound_of_null (hv : v.size < wordLimit) (hp : m.Permits v .read)
    (hs : v.HasSlot offset index) (hz : m.slotAddress v offset index = 0) :
    m.stringRound v offset none index = .ended := by
  have hword := word_of_slot hv hs (Nat.le_succ index)
  unfold stringRound
  rw [if_neg (by simp), if_pos hword, readAddress_slot hv hp hs]
  exact if_pos ⟨hz, rfl⟩

theorem stringRound_of_outside (hp : m.Permits v .read)
    (hcount : ∀ n, count = some n → index < n) (hw : offset + index * addressSize < wordLimit)
    (hs : ¬v.HasSlot offset index) :
    ∃ f, m.stringRound v offset count index = .failed (.fault f) ∧ f.kind = .bounds := by
  obtain ⟨f, hread, hk⟩ := readAddress_eq_bounds hp hs
  refine ⟨f, ?_, hk⟩
  unfold stringRound
  rw [if_neg (not_reached hcount), if_pos hw, hread]
  rfl

/-- An entry stands in a slot that fits; what fails, fails with a fault. -/
theorem stringRound_cases (m : Memory) (count : Option Nat) (hv : v.size < wordLimit)
    (hw : offset + index * addressSize < wordLimit) :
    m.stringRound v offset count index = .ended ∨
    (∃ f, m.stringRound v offset count index = .failed (.fault f)) ∨
    ∃ address, m.stringRound v offset count index = .entry address ∧ v.HasSlot offset index := by
  unfold stringRound
  split
  · exact Or.inl rfl
  cases hr : m.readAddress v (offset + index * addressSize) with
  | error f => exact Or.inr (Or.inl ⟨f, rfl⟩)
  | ok address =>
    have hslot := ((admits_slot hv).mp (readBits_eq_ok.mp hr).1).2
    by_cases hz : address = 0 ∧ count.isNone = true
    · exact Or.inl (if_pos hz)
    · exact Or.inr (Or.inr ⟨address, if_neg hz, hslot⟩)

/-! ## Runs -/

/-- A scan takes entry after entry. -/
theorem readStringsFrom_run (hv : v.size < wordLimit) (hp : m.Permits v .read) {k : Nat}
    (h : ∀ i, index ≤ i → i < index + k → m.TakesSlot v offset count i) :
    m.readStringsFrom v offset count index =
      (((List.range' index k).map fun i => m.textAt (m.slotAddress v offset i)) ++ ·) <$>
        m.readStringsFrom v offset count (index + k) := by
  induction k generalizing index with
  | zero => simp
  | succ k ih =>
    have hfirst := h index (Nat.le_refl _) (by omega)
    have hrest := ih fun i (h1 : index + 1 ≤ i) h2 => h i (by omega) (by omega)
    rw [Nat.add_assoc, Nat.add_comm 1] at hrest
    rw [readStringsFrom_eq, stringRound_of_takes hv hp hfirst, List.range'_succ]
    show _ <$> m.readStringsFrom v offset count (index + 1) = _
    rw [hrest]
    cases m.readStringsFrom v offset count (index + (k + 1)) <;> rfl

theorem readStrings_run (hv : v.size < wordLimit) (hp : m.Permits v .read) {k : Nat}
    (h : ∀ i < k, m.TakesSlot v offset count i) :
    m.readStrings v offset count =
      (m.slotTexts v offset k ++ ·) <$> m.readStringsFrom v offset count k := by
  have hrun : m.readStringsFrom v offset count 0 = _ :=
    readStringsFrom_run hv hp (k := k) fun i _ hi => h i (by omega)
  rw [Nat.zero_add, ← List.range_eq_range'] at hrun
  exact hrun

/-- A scan that ends behind `k` entries answers with their texts. -/
theorem readStrings_of_ended (hv : v.size < wordLimit) (hp : m.Permits v .read) {k : Nat}
    (h : ∀ i < k, m.TakesSlot v offset count i) (hend : m.stringRound v offset count k = .ended) :
    m.readStrings v offset count = .ok (m.slotTexts v offset k) := by
  rw [readStrings_run hv hp h, readStringsFrom_eq, hend]
  show Except.ok (_ ++ []) = _
  rw [List.append_nil]

/-- A scan that fails behind `k` entries gives none of them. -/
theorem readStrings_of_failed (hv : v.size < wordLimit) (hp : m.Permits v .read) {k : Nat}
    {e : Failure} (h : ∀ i < k, m.TakesSlot v offset count i)
    (hfail : m.stringRound v offset count k = .failed e) :
    m.readStrings v offset count = .error e := by
  rw [readStrings_run hv hp h, readStringsFrom_eq, hfail]
  rfl

/-- The scan ends: a slot too far for the view is the last that is looked at. -/
theorem readStringsWithin_eq (hv : v.size < wordLimit)
    (hw : offset + index * addressSize < wordLimit) {rounds : Nat} (hr : 0 < rounds)
    (hend : v.size < offset + (index + rounds) * addressSize) :
    m.readStringsWithin v offset count rounds index =
      some (m.readStringsFrom v offset count index) := by
  induction rounds generalizing index with
  | zero => omega
  | succ rounds ih =>
    unfold readStringsWithin
    rw [readStringsFrom_eq]
    obtain he | ⟨f, hf⟩ | ⟨address, ha, hslot⟩ :=
      m.stringRound_cases count hv hw
    · rw [he]
    · rw [hf]
    · have hmore : 0 < rounds := by
        unfold View.HasSlot at hslot
        refine Nat.pos_of_ne_zero fun h0 => ?_
        rw [h0, Nat.zero_add] at hend
        omega
      rw [Nat.add_comm rounds, ← Nat.add_assoc] at hend
      rw [ha]
      show Option.map _ (m.readStringsWithin v offset count rounds (index + 1)) = _
      rw [ih (word_of_slot hv hslot (Nat.le_refl _)) hmore hend]
      rfl

/-- The scan is never abandoned: the place of a slot is a word when the scan comes to it. -/
theorem readStringsWithin_fault (hv : v.size < wordLimit)
    (hw : offset + index * addressSize < wordLimit) {rounds : Nat} {e : Failure}
    (h : m.readStringsWithin v offset count rounds index = some (.error e)) :
    ∃ f, e = .fault f := by
  induction rounds generalizing index with
  | zero => cases h
  | succ rounds ih =>
    unfold readStringsWithin at h
    obtain he | ⟨f, hf⟩ | ⟨address, ha, hslot⟩ :=
      m.stringRound_cases count hv hw
    · rw [he] at h
      cases h
    · rw [hf] at h
      cases h
      exact ⟨f, rfl⟩
    · rw [ha] at h
      obtain ⟨rest, hrest, he⟩ := Option.map_eq_some_iff.mp h
      cases rest with
      | error e' =>
        cases he
        exact ih (word_of_slot hv hslot (Nat.le_refl _)) hrest
      | ok texts => cases he

/-! ## What an array holds -/

/-- The entry for an address: none for the null address, else the text of the C string there. -/
inductive StringEntry (m : Memory) : Nat → Option String → Prop where
  | null : StringEntry m 0 none
  | text {address : Nat} {bytes : List UInt8} (hz : address ≠ 0)
      (hb : LongestNulFree (m.heap.load address (wordLimit - address)) bytes) :
      StringEntry m address (some (Utf8.lossy bytes))

theorem stringEntry_iff {address : Nat} {entry : Option String} :
    m.StringEntry address entry ↔ entry = m.textAt address := by
  unfold textAt stringAt
  constructor
  · rintro (_ | ⟨hz, hb⟩)
    · rfl
    · rw [if_neg hz, longestNulFree_iff.mp hb, ← Heap.cString_eq_untilNul]
      rfl
  · rintro rfl
    by_cases hz : address = 0
    · rw [if_pos hz, hz]
      exact .null
    · rw [if_neg hz, Heap.cString_eq_untilNul]
      exact .text hz (longestNulFree_untilNul _)

/-- The entries of the first `k` slots. -/
structure Lists (m : Memory) (v : View) (offset k : Nat) (texts : List (Option String)) :
    Prop where
  length : texts.length = k
  entries : ∀ i entry, texts[i]? = some entry → m.StringEntry (m.slotAddress v offset i) entry

theorem lists_iff {k : Nat} {texts : List (Option String)} :
    m.Lists v offset k texts ↔ texts = m.slotTexts v offset k := by
  unfold slotTexts
  constructor
  · intro h
    refine List.ext_getElem? fun i => ?_
    by_cases hi : i < texts.length
    · have hentry := h.entries i texts[i] (List.getElem?_eq_getElem hi)
      have hk : i < k := h.length ▸ hi
      rw [List.getElem?_eq_getElem hi, stringEntry_iff.mp hentry]
      simp [hk]
    · have hk : ¬i < k := h.length ▸ hi
      rw [List.getElem?_eq_none (by omega), List.getElem?_eq_none (by simpa using hk)]
  · rintro rfl
    refine ⟨by simp, fun i entry hi => stringEntry_iff.mpr ?_⟩
    simp only [List.getElem?_map, Option.map_eq_some_iff, List.getElem?_eq_some_iff] at hi
    obtain ⟨j, ⟨hi, rfl⟩, rfl⟩ := hi
    rw [List.getElem_range]

/-- The first null entry of an array, in a slot of the view. -/
structure EndsAt (m : Memory) (v : View) (offset k : Nat) : Prop where
  slot : v.HasSlot offset k
  null : m.slotAddress v offset k = 0
  before : ∀ i < k, m.slotAddress v offset i ≠ 0

theorem EndsAt.unique {j k : Nat} (hj : m.EndsAt v offset j) (hk : m.EndsAt v offset k) :
    j = k := by
  rcases Nat.lt_trichotomy j k with h | h | h
  · exact absurd hj.null (hk.before j h)
  · exact h
  · exact absurd hk.null (hj.before k h)

/-- An outcome that reports an access out of bounds. -/
def OutOfBounds {α : Type} (o : Outcome α) : Prop := ∃ f, o = .error (.fault f) ∧ f.kind = .bounds

/-! ## Whole scans -/

theorem readStrings_counted (hv : v.size < wordLimit) (ho : offset < wordLimit)
    (hp : m.Permits v .read) (n : Nat) :
    ((∀ i < n, v.HasSlot offset i) ∧ m.readStrings v offset (some n) =
      .ok (m.slotTexts v offset n)) ∨
    (∃ i < n, ¬v.HasSlot offset i) ∧ OutOfBounds (m.readStrings v offset (some n)) := by
  have htakes : ∀ {k}, k ≤ n → (∀ i < k, v.HasSlot offset i) →
      ∀ i < k, m.TakesSlot v offset (some n) i := fun hk h i hi =>
    ⟨fun _ hn => by cases hn; omega, h i hi, nofun⟩
  by_cases hout : ∃ i, i < n ∧ ¬v.HasSlot offset i
  · -- the first slot that does not fit is where the scan fails
    obtain ⟨hk, hs⟩ := Nat.find_spec hout
    have hbefore : ∀ i < Nat.find hout, v.HasSlot offset i := fun i hi =>
      Decidable.byContradiction fun h => Nat.find_min hout hi ⟨by omega, h⟩
    have hword := word_of_slots hv ho hbefore
    have hcount : ∀ n', some n = some n' → Nat.find hout < n' := fun _ hn => by
      cases hn
      exact hk
    obtain ⟨f, hfail, hkind⟩ := stringRound_of_outside hp hcount hword hs
    exact Or.inr ⟨hout, f, readStrings_of_failed hv hp (htakes (by omega) hbefore) hfail, hkind⟩
  · have hall : ∀ i < n, v.HasSlot offset i := fun i hi =>
      Decidable.byContradiction fun h => hout ⟨i, hi, h⟩
    exact Or.inl ⟨hall, readStrings_of_ended hv hp (htakes (Nat.le_refl n) hall)
      (stringRound_of_count (Nat.le_refl n))⟩

theorem readStrings_open (hv : v.size < wordLimit) (ho : offset < wordLimit)
    (hp : m.Permits v .read) :
    (∃ k, m.EndsAt v offset k ∧ m.readStrings v offset none =
      .ok (m.slotTexts v offset k)) ∨
    (∀ k, ¬m.EndsAt v offset k) ∧ OutOfBounds (m.readStrings v offset none) := by
  have hstop : ∃ k, ¬v.HasSlot offset k ∨ m.slotAddress v offset k = 0 :=
    ⟨v.size, Or.inl (by unfold View.HasSlot addressSize; omega)⟩
  have hbefore : ∀ i < Nat.find hstop, v.HasSlot offset i ∧ m.slotAddress v offset i ≠ 0 :=
    fun i hi => by simpa using Nat.find_min hstop hi
  have htakes : ∀ i < Nat.find hstop, m.TakesSlot v offset none i := fun i hi =>
    ⟨nofun, (hbefore i hi).1, fun _ => (hbefore i hi).2⟩
  by_cases hs : v.HasSlot offset (Nat.find hstop)
  · have hz := (Nat.find_spec hstop).resolve_left (not_not_intro hs)
    exact Or.inl ⟨_, ⟨hs, hz, fun i hi => (hbefore i hi).2⟩,
      readStrings_of_ended hv hp htakes (stringRound_of_null hv hp hs hz)⟩
  · have hword := word_of_slots hv ho fun i hi => (hbefore i hi).1
    have hcount : ∀ n, none = some n → Nat.find hstop < n := nofun
    obtain ⟨f, hfail, hkind⟩ := stringRound_of_outside hp hcount hword hs
    refine Or.inr ⟨fun k hk => ?_, f, readStrings_of_failed hv hp htakes hfail, hkind⟩
    by_cases hlt : k < Nat.find hstop
    · exact (hbefore k hlt).2 hk.null
    · exact hs (hk.slot.of_le (Nat.le_of_not_lt hlt))

/--
Arrays of strings are scanned exactly. With a count the answer has that many entries, one for each
slot, and it is out of bounds when one of the slots does not fit in the view; without a count it has
the entries before the first null one, and it is out of bounds when the view ends before that.
Asking for no entry at all gives none, whatever the view is. No scan is abandoned for the place of a
slot that is no word, and none needs more rounds than the view has slots, and one.
-/
theorem string_array_exact (m : Memory) (v : View) (offset : Nat) (hv : v.size < wordLimit)
    (ho : offset < wordLimit) :
    m.readStrings v offset (some 0) = .ok [] ∧
    (∀ count e, m.readStrings v offset count = .error e → ∃ f, e = .fault f) ∧
    (∀ count rounds, (v.size - offset) / addressSize < rounds →
      m.readStringsWithin v offset count rounds 0 = some (m.readStrings v offset count)) ∧
    (m.Permits v .read →
      (∀ n texts, m.readStrings v offset (some n) = .ok texts ↔
        (∀ i < n, v.HasSlot offset i) ∧ m.Lists v offset n texts) ∧
      (∀ n, OutOfBounds (m.readStrings v offset (some n)) ↔ ∃ i < n, ¬v.HasSlot offset i) ∧
      (∀ texts, m.readStrings v offset none = .ok texts ↔
        ∃ k, m.EndsAt v offset k ∧ m.Lists v offset k texts) ∧
      (OutOfBounds (m.readStrings v offset none) ↔ ∀ k, ¬m.EndsAt v offset k)) := by
  have hword : offset + 0 * addressSize < wordLimit := by simpa using ho
  have hrounds : ∀ count rounds, (v.size - offset) / addressSize < rounds →
      m.readStringsWithin v offset count rounds 0 = some (m.readStrings v offset count) := by
    intro count rounds hr
    refine readStringsWithin_eq hv hword (Nat.zero_lt_of_lt hr) ?_
    unfold addressSize at *
    omega
  refine ⟨?_, ?_, hrounds, fun hp => ⟨?_, ?_, ?_, ?_⟩⟩
  · unfold readStrings
    rw [readStringsFrom_eq, stringRound_of_count (Nat.le_refl 0)]
  · intro count e he
    have hfuel := hrounds count _ (Nat.lt_succ_self _)
    rw [he] at hfuel
    exact readStringsWithin_fault hv hword hfuel
  · intro n texts
    rw [lists_iff]
    obtain ⟨hall, hr⟩ | ⟨⟨i, hi, hs⟩, f, hf, -⟩ := readStrings_counted hv ho hp n
    · rw [hr]
      exact ⟨fun h => ⟨hall, (Except.ok.inj h).symm⟩, fun h => congrArg _ h.2.symm⟩
    · rw [hf]
      exact iff_of_false nofun fun h => hs (h.1 i hi)
  · intro n
    obtain ⟨hall, hr⟩ | ⟨hout, hb⟩ := readStrings_counted hv ho hp n
    · rw [hr]
      exact iff_of_false nofun fun ⟨i, hi, hs⟩ => hs (hall i hi)
    · exact iff_of_true hb hout
  · intro texts
    simp only [lists_iff]
    obtain ⟨k, hk, hr⟩ | ⟨hnone, f, hf, -⟩ := readStrings_open hv ho hp
    · rw [hr]
      refine ⟨fun h => ⟨k, hk, (Except.ok.inj h).symm⟩, ?_⟩
      rintro ⟨j, hj, rfl⟩
      rw [hk.unique hj]
    · rw [hf]
      exact iff_of_false nofun fun ⟨k, hk, _⟩ => hnone k hk
  · obtain ⟨k, hk, hr⟩ | ⟨hnone, hb⟩ := readStrings_open hv ho hp
    · rw [hr]
      exact iff_of_false nofun fun h => h k hk
    · exact iff_of_true hb hnone

end Memory

/-! ## Two arrays -/

/-- A bare address of unknown extent counts as one byte short of the whole address space: its last
bytes hold no slot, and a scan is out of bounds there although a null address stands in it. -/
theorem string_array_past_unbounded :
    World.start.memory.Permits (.pointer 4100) .read ∧
    (View.pointer 4100).isUnbounded = true ∧
    World.start.memory.slotAddress (.pointer 4100) (wordLimit - 4) 0 = 0 ∧
    Memory.OutOfBounds
      (World.start.memory.readStrings (.pointer 4100) (wordLimit - 4) none) := by
  have hp : World.start.memory.Permits (.pointer 4100) .read := ⟨by decide, rfl, rfl⟩
  refine ⟨hp, rfl, ?_, ?_⟩
  · unfold Memory.slotAddress
    simp only [World.start, Heap.load_empty]
    decide
  · have ho : wordLimit - 4 < wordLimit := by decide
    obtain ⟨k, hk, -⟩ | ⟨-, hb⟩ := Memory.readStrings_open (by decide) ho hp
    · have hslot := hk.slot
      have hsize : (View.pointer 4100).size = wordLimit - 1 := rfl
      unfold View.HasSlot addressSize at hslot
      omega
    · exact hb

/-- Three slots in the order that is not the host's: the address of a text twice, and a null entry
between. -/
def greetings : View := (View.sized 4096 24).order .big

/-- The memory behind `greetings`. -/
def greetingMemory : Memory :=
  { World.start.memory with
    heap := (World.start.memory.heap.store 4096
      ([0, 0, 0, 0, 0, 0, 0x13, 0x88] ++ List.replicate 8 0 ++
        [0, 0, 0, 0, 0, 0, 0x13, 0x88])).store 0x1388 [104, 105, 0] }

theorem slotAddress_greetings {i : Nat} (hi : i < 3) :
    greetingMemory.slotAddress greetings 0 i = [0x1388, 0, 0x1388].getD i 0 := by
  unfold Memory.slotAddress greetingMemory
  match i with
  | 0 | 1 | 2 =>
    simp [Heap.load, Heap.get_store, greetings, View.sized, View.ofParts, View.order, wrap,
      wordLimit, addressSize]
    decide

theorem textAt_greetings : greetingMemory.textAt 0x1388 = some "hi" := by
  have hstring : greetingMemory.heap.cString 0x1388 = [104, 105] :=
    Heap.cString_of_load (by decide) (by decide) (Heap.load_store _ 0x1388 [104, 105, 0])
  have hlossy : Utf8.lossy [104, 105] = "hi" := by
    simp [Utf8.lossy, Utf8.scan, Utf8.next, Utf8.first?, Utf8.follow]
  unfold Memory.textAt Memory.stringAt
  rw [hstring, if_neg (by decide), Option.map_some, hlossy]

/-- Without a count the array ends at its null entry, with one it goes on behind it; a fourth slot
does not fit, and behind the third one there is none. -/
theorem string_array_exact_greetings :
    greetings.size < wordLimit ∧ greetingMemory.Permits greetings .read ∧
    greetingMemory.readStrings greetings 0 none = .ok [some "hi"] ∧
    greetingMemory.readStrings greetings 0 (some 3) = .ok [some "hi", none, some "hi"] ∧
    Memory.OutOfBounds (greetingMemory.readStrings greetings 0 (some 4)) ∧
    Memory.OutOfBounds (greetingMemory.readStrings greetings 24 none) := by
  have hsize : greetings.size < wordLimit := by decide
  have hp : greetingMemory.Permits greetings .read := ⟨by decide, rfl, rfl⟩
  obtain ⟨-, -, -, hstart⟩ :=
    Memory.string_array_exact greetingMemory greetings 0 hsize (by decide)
  obtain ⟨hcounted, hout, hopen, -⟩ := hstart hp
  obtain ⟨-, -, -, hend⟩ :=
    Memory.string_array_exact greetingMemory greetings 24 hsize (by decide)
  have h0 := slotAddress_greetings (i := 0) (by decide)
  have h1 := slotAddress_greetings (i := 1) (by decide)
  have h2 := slotAddress_greetings (i := 2) (by decide)
  have hnull : greetingMemory.textAt 0 = none := rfl
  refine ⟨hsize, hp, ?_, ?_, (hout 4).mpr ⟨3, by decide, by decide⟩, ?_⟩
  · refine (hopen _).mpr ⟨1, ⟨by decide, h1, fun i hi => ?_⟩, Memory.lists_iff.mpr ?_⟩
    · rw [Nat.lt_one_iff.mp hi, h0]
      decide
    · simp [Memory.slotTexts, h0, textAt_greetings]
  · refine (hcounted 3 _).mpr ⟨fun i hi => ?_, Memory.lists_iff.mpr ?_⟩
    · exact View.HasSlot.of_le (j := 2) (by decide) (by omega)
    · simp [Memory.slotTexts, List.range_succ, h0, h1, h2, textAt_greetings, hnull]
  · refine (hend hp).2.2.2.mpr fun k hk => ?_
    have hslot := hk.slot.of_le (Nat.zero_le k)
    revert hslot
    decide

end ForeignCall
