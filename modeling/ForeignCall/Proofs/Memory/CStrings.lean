import Mathlib.Data.List.TakeWhile
import ForeignCall.Proofs.Actions
import ForeignCall.Proofs.Memory.Blocks

/-!
# C strings through views

A string is read up to its first zero byte, and no further than its limit: the length that is asked
for, else the end of a view that has one. It is written with one zero byte behind it, and what has
been written is read again, up to the first zero byte it has itself.

Main statement: `Memory.string_access_exact`.
-/

namespace ForeignCall

/-! ## Up to the first zero byte -/

/-- The longest part without a zero byte that bytes begin with. -/
structure LongestNulFree (bytes text : List UInt8) : Prop where
  begins : text <+: bytes
  nonzero : 0 ∉ text
  longest : ∀ other, other <+: bytes → 0 ∉ other → other.length ≤ text.length

open Memory (untilNul)

variable {bytes text : List UInt8}

theorem untilNul_of_nonzero (h : 0 ∉ bytes) : untilNul bytes = bytes := by
  refine List.takeWhile_eq_self_iff.mpr fun b hb => ?_
  simpa using fun h0 : b = 0 => h (h0 ▸ hb)

/-- What comes behind a zero byte does not count. -/
theorem untilNul_append_zero (bytes rest : List UInt8) :
    untilNul (bytes ++ 0 :: rest) = untilNul bytes := by
  unfold untilNul
  induction bytes with
  | nil => rfl
  | cons b bytes ih => rw [List.cons_append, List.takeWhile_cons, List.takeWhile_cons, ih]

theorem longestNulFree_untilNul (bytes : List UInt8) : LongestNulFree bytes (untilNul bytes) := by
  refine ⟨List.takeWhile_prefix _, fun h => ?_, ?_⟩
  · simpa using List.mem_takeWhile_imp h
  · rintro other ⟨rest, rfl⟩ hother
    -- nothing stops the scan before the end of a part without a zero byte
    have hpart : other.takeWhile (· != 0) = other := untilNul_of_nonzero hother
    unfold untilNul
    rw [List.takeWhile_append, hpart, if_pos rfl, List.length_append]
    omega

theorem longestNulFree_iff : LongestNulFree bytes text ↔ text = untilNul bytes := by
  constructor
  · intro h
    have hscan := longestNulFree_untilNul bytes
    have hlen : text.length ≤ (untilNul bytes).length := hscan.longest text h.begins h.nonzero
    have hprefix := List.prefix_of_prefix_length_le h.begins hscan.begins hlen
    exact hprefix.eq_of_length_le (h.longest _ hscan.begins hscan.nonzero)
  · rintro rfl
    exact longestNulFree_untilNul bytes

namespace Heap

variable {h : Heap} {a : Nat}

/-- A string without a limit ends with the address space at the latest. -/
theorem cString_eq_untilNul (h : Heap) (a : Nat) :
    h.cString a = untilNul (h.load a (wordLimit - a)) := by
  fun_induction h.cString a with
  | case1 a ha hz =>
    obtain ⟨n, hn⟩ := Nat.exists_eq_succ_of_ne_zero (Nat.sub_ne_zero_of_lt ha)
    rw [hn, load, hz]
    rfl
  | case2 a ha hz ih =>
    have hn : wordLimit - a = wordLimit - (a + 1) + 1 := by omega
    have hb : (h.get a != 0) = true := by simpa using hz
    rw [ih, hn, load, untilNul, untilNul, List.takeWhile_cons, if_pos hb]
  | case3 a ha =>
    rw [Nat.sub_eq_zero_of_le (Nat.le_of_not_lt ha)]
    rfl

theorem take_load (h : Heap) (a n k : Nat) : (h.load a (n + k)).take n = h.load a n := by
  rw [load_add, List.take_left' (h.length_load a n)]

/-- However far it is scanned, a string ends where its zero byte stands. -/
theorem untilNul_load {s : List UInt8} (hl : h.load a (s.length + 1) = s ++ [0]) (n : Nat) :
    untilNul (h.load a n) = (untilNul s).take n := by
  have hfar : untilNul (h.load a (n + (s.length + 1))) = untilNul s := by
    rw [Nat.add_comm, load_add, hl, List.append_assoc]
    exact untilNul_append_zero s _
  rw [← hfar]
  unfold untilNul
  rw [List.take_takeWhile, take_load]

/-- A C string ends where its zero byte stands. -/
theorem cString_of_load {bytes : List UInt8} (hz : 0 ∉ bytes) (hw : a + bytes.length < wordLimit)
    (hl : h.load a (bytes.length + 1) = bytes ++ [0]) : h.cString a = bytes := by
  rw [cString_eq_untilNul, untilNul_load hl, untilNul_of_nonzero hz,
    List.take_of_length_le (by omega)]

end Heap

/-! ## Reading -/

namespace Memory

variable {m m' : Memory} {u v : View} {offset n : Nat} {maxLength : Option Nat}

/--
A string whose range has `n` bytes is read as the longest part without a zero byte that the bytes
in the range begin with, and a range that does not fit in the view is out of bounds.
-/
structure ReadsWithin (m : Memory) (v : View) (offset : Nat) (maxLength : Option Nat) (n : Nat) :
    Prop where
  text : ∀ text, m.readString v offset maxLength = .ok text ↔
    m.Permits v .read ∧ offset + n ≤ v.size ∧
      LongestNulFree (m.heap.load (wrap (v.address + offset)) n) text
  bounds : (∃ f, m.readString v offset maxLength = .error f ∧ f.kind = .bounds) ↔
    m.Permits v .read ∧ v.size < offset + n

theorem readString_of_limit (h : stringLimit v offset maxLength = some n) :
    m.readString v offset maxLength =
      (m.readBytes v offset n >>= fun bytes => pure (untilNul bytes)) := by
  unfold readString
  rw [h]

theorem readsWithin (hv : v.size < wordLimit) (h : stringLimit v offset maxLength = some n) :
    m.ReadsWithin v offset maxLength n := by
  constructor
  · intro text
    rw [readString_of_limit h, Checked.bind_eq_ok, ← and_assoc, ← admits_iff hv,
      longestNulFree_iff]
    constructor
    · rintro ⟨bytes, hr, ht⟩
      obtain ⟨ha, rfl⟩ := readBytes_eq_ok hr
      exact ⟨ha, (Except.ok.inj ht).symm⟩
    · rintro ⟨ha, rfl⟩
      exact ⟨_, ha.readBytes, rfl⟩
  · rw [readString_of_limit h]
    simp only [readBytes, Checked.bind_pure_eq_error]
    rw [check_eq_bounds]
    exact and_congr_right fun _ => by omega

theorem readString_unbounded (h : v.isUnbounded = true) :
    m.readString v offset none = (m.check v offset 0 .read >>= fun address =>
      pure (m.heap.cString address)) := by
  unfold readString stringLimit
  rw [h]
  rfl

/-- Through a view without known end a string is read as far as its zero byte is. -/
theorem readString_unbounded_eq_ok (hv : v.isUnbounded = true) (ho : offset < wordLimit)
    {text : List UInt8} : m.readString v offset none = .ok text ↔ m.Permits v .read ∧
      LongestNulFree (m.heap.load (wrap (v.address + offset))
        (wordLimit - wrap (v.address + offset))) text := by
  have hsize : v.size = wordLimit - 1 := by simpa [View.isUnbounded, unbounded] using hv
  have hpos : 0 < wordLimit := by decide
  rw [readString_unbounded hv, Checked.bind_eq_ok, longestNulFree_iff, ← Heap.cString_eq_untilNul]
  constructor
  · rintro ⟨address, hc, ht⟩
    obtain ⟨ha, rfl⟩ := check_eq_ok hc
    exact ⟨((admits_iff (by omega)).mp ha).1, (Except.ok.inj ht).symm⟩
  · rintro ⟨hp, rfl⟩
    have ha : m.Admits v offset 0 .read := (admits_iff (by omega)).mpr ⟨hp, by omega⟩
    exact ⟨_, ha.check, rfl⟩

theorem readString_unbounded_kind (hv : v.isUnbounded = true) (ho : offset < wordLimit)
    {f : Fault} (h : m.readString v offset none = .error f) : f.kind ≠ .bounds := by
  have hsize : v.size = wordLimit - 1 := by simpa [View.isUnbounded, unbounded] using hv
  have hpos : 0 < wordLimit := by decide
  rw [readString_unbounded hv, Checked.bind_pure_eq_error] at h
  intro hk
  obtain ⟨-, hout⟩ := check_eq_bounds.mp ⟨f, h, hk⟩
  omega

/-! ## Writing -/

theorem writeString_eq_ok {s : List UInt8} : m.writeString v offset s = .ok m' ↔
    m.Admits v offset (s.length + 1) .write ∧
      m' = { m with heap := m.heap.store (wrap (v.address + offset)) (s ++ [0]) } := by
  have hlen : (s ++ [0]).length = s.length + 1 := List.length_append
  unfold writeString
  constructor
  · intro h
    rw [← hlen]
    exact writeBytes_eq_ok h
  · rintro ⟨ha, rfl⟩
    rw [← hlen] at ha
    exact ha.writeBytes

/-! ## Reading back -/

/--
The text at an address is read through every view that reaches it, as far as its limit. Without a
limit it has to end within the address space.
-/
structure HoldsText (m : Memory) (address : Nat) (text : List UInt8) : Prop where
  limited : ∀ u o n, wrap (u.address + o) = address → m.Admits u o n .read →
    m.readString u o (some n) = .ok (text.take n)
  bounded : ∀ u o, wrap (u.address + o) = address → u.isUnbounded = false →
    m.Admits u o (u.size - o) .read → m.readString u o none = .ok (text.take (u.size - o))
  unbounded : ∀ u o, wrap (u.address + o) = address → u.isUnbounded = true →
    m.Admits u o 0 .read → address + text.length ≤ wordLimit → m.readString u o none = .ok text

theorem holdsText {a : Nat} {s : List UInt8} (hl : m.heap.load a (s.length + 1) = s ++ [0]) :
    m.HoldsText a (untilNul s) := by
  constructor
  · intro u o n ha hr
    rw [readString_of_limit rfl, hr.readBytes, ha]
    exact congrArg Except.ok (Heap.untilNul_load hl n)
  · intro u o ha hb hr
    have hlimit : stringLimit u o none = some (u.size - o) := by simp [stringLimit, hb]
    rw [readString_of_limit hlimit, hr.readBytes, ha]
    exact congrArg Except.ok (Heap.untilNul_load hl _)
  · intro u o ha hb hr hend
    rw [readString_unbounded hb, hr.check, ha]
    refine congrArg Except.ok ?_
    rw [Heap.cString_eq_untilNul, Heap.untilNul_load hl, List.take_of_length_le (by omega)]

/--
C strings are written and read exactly. A string is written when the view is not null, is live and
writable and has room for it and one zero byte, and then just these bytes change. A string is read
as the longest part without a zero byte that the bytes from its offset begin with: within the length
that is asked for, to the end of the view that has one, else as far as the zero byte is; where the
range has to fit in the view, it is out of bounds when it does not. So what has been written is read
again, up to its own first zero byte and cut at the limit.
-/
theorem string_access_exact (m : Memory) (v : View) (offset : Nat) (hv : v.size < wordLimit)
    (ho : offset < wordLimit) :
    (∀ s, (∃ m', m.writeString v offset s = .ok m') ↔
      m.Permits v .write ∧ offset + (s.length + 1) ≤ v.size) ∧
    (∀ s m', m.writeString v offset s = .ok m' →
      m'.owners = m.owners ∧
      m'.heap.load (wrap (v.address + offset)) (s.length + 1) = s ++ [0] ∧
      (∀ c, c < wrap (v.address + offset) ∨ wrap (v.address + offset) + (s.length + 1) ≤ c →
        m'.heap.get c = m.heap.get c) ∧
      ∃ text, LongestNulFree s text ∧ m'.HoldsText (wrap (v.address + offset)) text) ∧
    (∀ n, m.ReadsWithin v offset (some n) n) ∧
    (v.isUnbounded = false → m.ReadsWithin v offset none (v.size - offset)) ∧
    (v.isUnbounded = true →
      (∀ text, m.readString v offset none = .ok text ↔ m.Permits v .read ∧
        LongestNulFree (m.heap.load (wrap (v.address + offset))
          (wordLimit - wrap (v.address + offset))) text) ∧
      ∀ f, m.readString v offset none = .error f → f.kind ≠ .bounds) := by
  refine ⟨?_, ?_, fun n => readsWithin hv rfl, ?_, ?_⟩
  · intro s
    rw [← admits_iff hv]
    exact ⟨fun ⟨_, h⟩ => (writeString_eq_ok.mp h).1, fun h => ⟨_, writeString_eq_ok.mpr ⟨h, rfl⟩⟩⟩
  · intro s m' h
    obtain ⟨-, rfl⟩ := writeString_eq_ok.mp h
    have hlen : (s ++ [0]).length = s.length + 1 := List.length_append
    have hload := m.heap.load_store (wrap (v.address + offset)) (s ++ [0])
    rw [hlen] at hload
    refine ⟨rfl, hload, ?_, _, longestNulFree_untilNul s, holdsText hload⟩
    intro c hc
    rw [← hlen] at hc
    exact Heap.get_store_of_outside hc
  · intro hb
    exact readsWithin hv (by simp [stringLimit, hb])
  · intro hu
    exact ⟨fun _ => readString_unbounded_eq_ok hu ho, fun _ => readString_unbounded_kind hu ho⟩

end Memory

/-! ## Eight bytes of text -/

/-- Eight bytes at a bare address. -/
def lineOfText : View := .sized 4096 8

theorem permits_lineOfText (m : Memory) (mode : Mode) : m.Permits lineOfText mode := by
  cases mode <;> exact ⟨by decide, rfl, rfl⟩

/-- Five bytes fit behind the first two and are read up to the zero byte among them, six do not;
from the ninth byte on nothing can be read. -/
theorem string_access_exact_interior_nul :
    lineOfText.size < wordLimit ∧
    (∃ m, World.start.memory.writeString lineOfText 2 [97, 98, 0, 99] = .ok m ∧
      m.readString lineOfText 2 (some 5) = .ok [97, 98] ∧
      m.readString lineOfText 2 (some 1) = .ok [97] ∧
      m.readString (.pointer 4098) 0 none = .ok [97, 98]) ∧
    (¬∃ m, World.start.memory.writeString lineOfText 2 [97, 98, 0, 99, 100, 101] = .ok m) ∧
    ∃ f, World.start.memory.readString lineOfText 9 none = .error f ∧ f.kind = .bounds := by
  have hsize : lineOfText.size < wordLimit := by decide
  obtain ⟨hfits, hwritten, -⟩ :=
    Memory.string_access_exact World.start.memory lineOfText 2 hsize (by decide)
  obtain ⟨-, -, -, hpast, -⟩ :=
    Memory.string_access_exact World.start.memory lineOfText 9 hsize (by decide)
  have hp := permits_lineOfText World.start.memory
  refine ⟨hsize, ?_, fun h => absurd ((hfits _).mp h).2 (by decide), ?_⟩
  · obtain ⟨m, hm⟩ := (hfits [97, 98, 0, 99]).mpr ⟨hp .write, by decide⟩
    obtain ⟨-, -, -, text, htext, hback⟩ := hwritten _ m hm
    obtain rfl : text = [97, 98] := longestNulFree_iff.mp htext
    have hadmits : ∀ n, n ≤ 6 → m.Admits lineOfText 2 n .read := fun n hn =>
      (Memory.admits_iff hsize).mpr ⟨permits_lineOfText m .read, Nat.add_le_add_left hn 2⟩
    refine ⟨m, hm, hback.limited _ _ 5 rfl (hadmits 5 (by decide)),
      hback.limited _ _ 1 rfl (hadmits 1 (by decide)), ?_⟩
    exact hback.unbounded _ 0 rfl rfl ⟨by decide, rfl, rfl, by decide, by decide⟩ (by decide)
  · exact (hpast rfl).bounds.mpr ⟨hp .read, by decide⟩

end ForeignCall
