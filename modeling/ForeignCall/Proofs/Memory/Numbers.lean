import ForeignCall.Memory.Scalar
import ForeignCall.Proofs.Actions
import ForeignCall.Proofs.Memory.Blocks

/-!
# Numbers through views

A number written through one view is read through every view of the same bytes: as it was where the
two views have the same byte order, and with its bytes reversed where they have not. An array of
numbers is read and written like its elements one by one, or it is refused as a whole.

Main statement: `Number.access_exact`.
-/

namespace ForeignCall

/-! ## Bytes in both orders -/

/-- The bit pattern of a width whose bytes stand the other way round. -/
def Bytes.reversed (width bits : Nat) : Nat := toNat (ofNat width bits).reverse

/-- A bit pattern that one view has stored, as another one reads it. -/
theorem View.decode_encode_through (u v : View) {width bits : Nat} (h : bits < Bytes.limit width) :
    u.decode (v.encode width bits) =
      if u.swapped = v.swapped then bits else Bytes.reversed width bits := by
  have hself : Bytes.toNat (Bytes.ofNat width bits) = bits := by
    rw [Bytes.toNat_ofNat, Nat.mod_eq_of_lt h]
  cases hu : u.swapped <;> cases hv : v.swapped <;>
    simp [decode, encode, hu, hv, hself, Bytes.reversed]

theorem wrap_wrap_add (a b : Nat) : wrap (wrap a + b) = wrap (a + b) := Nat.mod_add_mod ..

/-! ## Single bit patterns -/

namespace Memory

variable {m m' : Memory} {u v : View} {offset width bits : Nat}

theorem readBits_eq_ok : m.readBits v offset width = .ok bits ↔
    m.Admits v offset width .read ∧
      bits = v.decode (m.heap.load (wrap (v.address + offset)) width) := by
  unfold readBits
  rw [Checked.bind_eq_ok]
  constructor
  · rintro ⟨bytes, hr, hb⟩
    obtain ⟨ha, rfl⟩ := readBytes_eq_ok hr
    exact ⟨ha, (Except.ok.inj hb).symm⟩
  · rintro ⟨ha, rfl⟩
    exact ⟨_, ha.readBytes, rfl⟩

theorem writeBits_eq_ok : m.writeBits v offset width bits = .ok m' ↔
    m.Admits v offset width .write ∧ m' = { m with
      heap := m.heap.store (wrap (v.address + offset)) (v.encode width bits) } := by
  unfold writeBits
  have hlen := v.length_encode width bits
  constructor
  · intro h
    obtain ⟨ha, rfl⟩ := writeBytes_eq_ok h
    rw [hlen] at ha
    exact ⟨ha, rfl⟩
  · rintro ⟨ha, rfl⟩
    rw [← hlen] at ha
    exact ha.writeBytes

/-- What one view has written, a view of the same bytes reads. -/
theorem readBits_writeBits (hw : m.writeBits v offset width bits = .ok m')
    (hb : bits < Bytes.limit width) {o : Nat}
    (hsame : wrap (u.address + o) = wrap (v.address + offset)) (hu : m'.Admits u o width .read) :
    m'.readBits u o width =
      .ok (if u.swapped = v.swapped then bits else Bytes.reversed width bits) := by
  obtain ⟨-, rfl⟩ := writeBits_eq_ok.mp hw
  have hload := m.heap.load_store (wrap (v.address + offset)) (v.encode width bits)
  rw [v.length_encode] at hload
  rw [readBits_eq_ok.mpr ⟨hu, rfl⟩, hsame, hload, u.decode_encode_through v hb]

/-! ## Arrays of bit patterns -/

/-- An access of a whole array is admitted when each of its elements is. -/
theorem admits_elements {n : Nat} {mode : Mode} (hn : 0 < n) :
    m.Admits v offset (n * width) mode ↔ ∀ i < n, m.Admits v (offset + i * width) width mode := by
  constructor
  · intro h i hi
    have hend : i * width + width ≤ n * width := by
      rw [← Nat.succ_mul]
      exact Nat.mul_le_mul_right width hi
    have hword := h.word
    have hinside := h.inside
    exact ⟨h.address, h.live, h.mode, by omega, by omega⟩
  · intro h
    have hlast := h (n - 1) (by omega)
    have hend : (n - 1) * width + width = n * width := by
      rw [← Nat.succ_mul, Nat.succ_eq_add_one, Nat.sub_add_cancel hn]
    have hword := hlast.word
    have hinside := hlast.inside
    exact ⟨hlast.address, hlast.live, hlast.mode, by omega, by omega⟩

/-- The size of an array that is accessed is a word. -/
theorem arrayWidth_of_lt {count : Nat} (h : count * width < wordLimit) :
    arrayWidth width count = .ok (count * width) := by
  unfold arrayWidth
  rw [mulWords_eq_some.mpr ⟨rfl, h⟩]

theorem arrayWidth_eq_ok {count size : Nat} (h : arrayWidth width count = .ok size) :
    size = count * width := by
  unfold arrayWidth at h
  split at h
  next hs =>
    obtain ⟨rfl, -⟩ := mulWords_eq_some.mp hs
    exact (Except.ok.inj h).symm
  · cases h

theorem readBitsArray_eq_ok {count : Nat} {values : List Nat} :
    m.readBitsArray v offset width count = .ok values ↔
      m.Admits v offset (count * width) .read ∧ values = (List.range count).map fun i =>
        v.decode (m.heap.load (wrap (v.address + (offset + i * width))) width) := by
  have helement : ∀ i, wrap (wrap (v.address + offset) + i * width) =
      wrap (v.address + (offset + i * width)) := fun i => by rw [wrap_wrap_add, Nat.add_assoc]
  unfold readBitsArray
  simp only [Checked.bind_eq_ok]
  constructor
  · rintro ⟨size, hs, address, hc, hv⟩
    obtain rfl := arrayWidth_eq_ok hs
    obtain ⟨ha, rfl⟩ := check_eq_ok hc
    simp only [helement] at hv
    exact ⟨ha, (Except.ok.inj hv).symm⟩
  · rintro ⟨ha, rfl⟩
    have hword := ha.word
    refine ⟨_, arrayWidth_of_lt (by omega), _, ha.check, ?_⟩
    simp only [helement]
    rfl

theorem writeBitsArray_eq_ok {values : List Nat} :
    m.writeBitsArray v offset width values = .ok m' ↔
      m.Admits v offset (values.length * width) .write ∧ m' = { m with
        heap := m.heap.storeEach (wrap (v.address + offset)) width
          (values.map (v.encode width)) } := by
  unfold writeBitsArray
  simp only [Checked.bind_eq_ok]
  constructor
  · rintro ⟨size, hs, address, hc, hm⟩
    obtain rfl := arrayWidth_eq_ok hs
    obtain ⟨ha, rfl⟩ := check_eq_ok hc
    exact ⟨ha, (Except.ok.inj hm).symm⟩
  · rintro ⟨ha, rfl⟩
    have hword := ha.word
    exact ⟨_, arrayWidth_of_lt (by omega), _, ha.check, rfl⟩

/-- Elements written one by one from the element `k` on are stored one behind the other. -/
theorem foldlM_writeBits {values : List Nat} {k : Nat}
    (h : ∀ i < values.length, m.Admits v (offset + (k + i) * width) width .write) :
    (values.zipIdx k).foldlM (fun m x => m.writeBits v (offset + x.2 * width) width x.1) m =
      .ok { m with
        heap := m.heap.storeEach (wrap (v.address + (offset + k * width))) width
          (values.map (v.encode width)) } := by
  induction values generalizing m k with
  | nil => rfl
  | cons bits values ih =>
    have hfirst := h 0 (by simp)
    rw [Nat.add_zero] at hfirst
    have hnext : wrap (wrap (v.address + (offset + k * width)) + width) =
        wrap (v.address + (offset + (k + 1) * width)) := by
      rw [wrap_wrap_add, Nat.succ_mul, Nat.add_assoc, Nat.add_assoc]
    rw [List.zipIdx_cons, List.foldlM_cons, writeBits_eq_ok.mpr ⟨hfirst, rfl⟩]
    -- a write releases nothing, so what was admitted before it is admitted behind it
    refine (ih fun i hi => ?_).trans ?_
    · have hi' := h (i + 1) (by simpa using hi)
      rw [Nat.add_assoc k, Nat.add_comm 1]
      exact ⟨hi'.address, hi'.live, hi'.mode, hi'.word, hi'.inside⟩
    · rw [List.map_cons, Heap.storeEach, hnext]

end Memory

/-! ## Numbers by their type -/

/-- A type of number that is read and written by itself. -/
inductive Number where
  | int (kind : IntKind)
  /-- A float, by its bit pattern. -/
  | float (kind : FloatKind)
  | address
  /-- The host's C `long`. -/
  | long
  /-- The host's C `unsigned long`. -/
  | ulong
  deriving DecidableEq, Repr

namespace Number

/-- The integers that the numbers of a type are counted as. -/
def kind : Number → IntKind
  | .int k => k
  | .float .float32 => ⟨false, .w32⟩
  | .float .float64 => ⟨false, .w64⟩
  | .address => .uint64
  | .long => .int64
  | .ulong => .uint64

/-- Bytes of a number. -/
def bytes (t : Number) : Nat := t.kind.bytes

/-- Whether a number of the type can be the given one. -/
def Holds (t : Number) (i : Int) : Prop := t.kind.min ≤ i ∧ i ≤ t.kind.max

instance (t : Number) (i : Int) : Decidable (t.Holds i) :=
  inferInstanceAs (Decidable (_ ∧ _))

/-- The number whose bytes are those of the given one the other way round. -/
def reversed (t : Number) (i : Int) : Int :=
  t.kind.ofBits (Bytes.reversed t.bytes (t.kind.toBits i))

/-- The number of a type at an offset. -/
def read (t : Number) (m : Memory) (v : View) (offset : Nat) : Checked Int :=
  match t with
  | .int k => m.readInt v offset k
  | .float k => do
    let bits ← m.readBits v offset k.bytes
    return (bits : Int)
  | .address => do
    let address ← m.readAddress v offset
    return (address : Int)
  | .long => m.readInt v offset .int64
  | .ulong => m.readInt v offset .uint64

/-- The memory with a number of a type written at an offset. -/
def write (t : Number) (m : Memory) (v : View) (offset : Nat) (i : Int) : Checked Memory :=
  match t with
  | .int k => m.writeInt v offset k i
  | .float k => m.writeBits v offset k.bytes ((Number.float k).kind.toBits i)
  | .address => m.writeAddress v offset (IntKind.uint64.toBits i)
  | .long => m.writeInt v offset .int64 i
  | .ulong => m.writeInt v offset .uint64 i

/-- The numbers of an array. -/
def readAll (t : Number) (m : Memory) (v : View) (offset count : Nat) : Checked (List Int) := do
  let values ← m.readBitsArray v offset t.bytes count
  return values.map t.kind.ofBits

/-- The memory with the numbers of an array written. -/
def writeAll (t : Number) (m : Memory) (v : View) (offset : Nat) (is : List Int) :
    Checked Memory :=
  m.writeBitsArray v offset t.bytes (is.map t.kind.toBits)

/-- The numbers of an array, each read by itself. -/
def readEach (t : Number) (m : Memory) (v : View) (offset count : Nat) : Checked (List Int) :=
  (List.range count).mapM fun k => t.read m v (offset + k * t.bytes)

/-- The memory with the numbers of an array written by themselves, one after another. -/
def writeEach (t : Number) (m : Memory) (v : View) (offset : Nat) (is : List Int) :
    Checked Memory :=
  is.zipIdx.foldlM (fun m x => t.write m v (offset + x.2 * t.bytes) x.1) m

variable {t : Number} {m m' : Memory} {v : View} {offset : Nat}

theorem toBits_lt (t : Number) (i : Int) : t.kind.toBits i < Bytes.limit t.bytes := by
  have hpos : 0 < t.kind.modulus := by
    unfold IntKind.modulus
    cases t.kind.width <;> decide
  have hlimit : Bytes.limit t.bytes = t.kind.modulus := t.kind.width.modulus_eq.symm
  rw [hlimit]
  unfold IntKind.toBits
  have h1 := Int.emod_nonneg i (show (t.kind.modulus : Int) ≠ 0 by omega)
  have h2 := Int.emod_lt_of_pos i (show (0 : Int) < t.kind.modulus by omega)
  omega

/-- An unsigned number is its own bit pattern. -/
theorem ofBits_unsigned (w : Width) (bits : Nat) : IntKind.ofBits ⟨false, w⟩ bits = bits := by
  simp [IntKind.ofBits]

theorem read_eq (t : Number) (m : Memory) (v : View) (offset : Nat) :
    t.read m v offset = t.kind.ofBits <$> m.readBits v offset t.bytes := by
  have hmap : ∀ {c : Checked Nat} {f g : Nat → Int}, (∀ n, f n = g n) →
      (do let n ← c; return f n) = g <$> c := by
    intro c f g h
    cases c with
    | error e => rfl
    | ok n => exact congrArg Except.ok (h n)
  cases t with
  | int k => exact hmap fun _ => rfl
  | float k => cases k <;> exact hmap fun n => (ofBits_unsigned _ n).symm
  | address => exact hmap fun n => (ofBits_unsigned _ n).symm
  | long => exact hmap fun _ => rfl
  | ulong => exact hmap fun _ => rfl

theorem write_eq (t : Number) (m : Memory) (v : View) (offset : Nat) (i : Int) :
    t.write m v offset i = m.writeBits v offset t.bytes (t.kind.toBits i) := by
  cases t with
  | float k => cases k <;> rfl
  | _ => rfl

theorem read_eq_ok {i : Int} : t.read m v offset = .ok i ↔
    m.Admits v offset t.bytes .read ∧
      i = t.kind.ofBits (v.decode (m.heap.load (wrap (v.address + offset)) t.bytes)) := by
  rw [read_eq]
  constructor
  · intro h
    cases hr : m.readBits v offset t.bytes with
    | error e => rw [hr] at h; cases h
    | ok bits =>
      obtain ⟨ha, rfl⟩ := Memory.readBits_eq_ok.mp hr
      rw [hr] at h
      exact ⟨ha, (Except.ok.inj h).symm⟩
  · rintro ⟨ha, rfl⟩
    rw [Memory.readBits_eq_ok.mpr ⟨ha, rfl⟩]
    rfl

theorem write_eq_ok {i : Int} : t.write m v offset i = .ok m' ↔
    m.Admits v offset t.bytes .write ∧ m' = { m with
      heap := m.heap.store (wrap (v.address + offset))
        (v.encode t.bytes (t.kind.toBits i)) } := by
  rw [write_eq]
  exact Memory.writeBits_eq_ok

theorem exists_read_iff : (∃ i, t.read m v offset = .ok i) ↔ m.Admits v offset t.bytes .read :=
  ⟨fun ⟨_, h⟩ => (read_eq_ok.mp h).1, fun h => ⟨_, read_eq_ok.mpr ⟨h, rfl⟩⟩⟩

theorem exists_write_iff (i : Int) :
    (∃ m', t.write m v offset i = .ok m') ↔ m.Admits v offset t.bytes .write :=
  ⟨fun ⟨_, h⟩ => (write_eq_ok.mp h).1, fun h => ⟨_, write_eq_ok.mpr ⟨h, rfl⟩⟩⟩

/-- What one view has written, a view of the same bytes reads. -/
theorem read_write {i : Int} (hi : t.Holds i) (hw : t.write m v offset i = .ok m') {u : View}
    {o : Nat} (hsame : wrap (u.address + o) = wrap (v.address + offset))
    (hu : m'.Admits u o t.bytes .read) :
    t.read m' u o = .ok (if u.swapped = v.swapped then i else t.reversed i) := by
  rw [write_eq] at hw
  rw [read_eq, Memory.readBits_writeBits hw (t.toBits_lt i) hsame hu]
  show Except.ok (t.kind.ofBits _) = _
  split
  · rw [t.kind.ofBits_toBits i hi]
  · rfl

/-! ## Arrays of numbers -/

theorem readAll_eq_ok {n : Nat} {is : List Int} : t.readAll m v offset n = .ok is ↔
    m.Admits v offset (n * t.bytes) .read ∧ is = (List.range n).map fun k => t.kind.ofBits
      (v.decode (m.heap.load (wrap (v.address + (offset + k * t.bytes))) t.bytes)) := by
  unfold readAll
  rw [Checked.bind_eq_ok]
  constructor
  · rintro ⟨values, hr, hv⟩
    obtain ⟨ha, rfl⟩ := Memory.readBitsArray_eq_ok.mp hr
    refine ⟨ha, ?_⟩
    rw [← Except.ok.inj hv, List.map_map]
    rfl
  · rintro ⟨ha, rfl⟩
    refine ⟨_, Memory.readBitsArray_eq_ok.mpr ⟨ha, rfl⟩, ?_⟩
    rw [List.map_map]
    rfl

/-- An array that is read is read as its elements are one by one. -/
theorem readEach_of_readAll {n : Nat} {is : List Int} (hn : 0 < n)
    (h : t.readAll m v offset n = .ok is) : t.readEach m v offset n = .ok is := by
  obtain ⟨ha, rfl⟩ := readAll_eq_ok.mp h
  have heach := (Memory.admits_elements hn).mp ha
  exact Checked.mapM_of_ok fun k hk => read_eq_ok.mpr ⟨heach k (List.mem_range.mp hk), rfl⟩

theorem exists_writeAll_iff (is : List Int) : (∃ m', t.writeAll m v offset is = .ok m') ↔
    m.Admits v offset (is.length * t.bytes) .write := by
  unfold writeAll
  rw [← List.length_map t.kind.toBits]
  exact ⟨fun ⟨_, h⟩ => (Memory.writeBitsArray_eq_ok.mp h).1,
    fun h => ⟨_, Memory.writeBitsArray_eq_ok.mpr ⟨h, rfl⟩⟩⟩

/-- An array that is written is written as its elements are one by one. -/
theorem writeEach_of_writeAll {is : List Int} (hn : 0 < is.length)
    (h : t.writeAll m v offset is = .ok m') : t.writeEach m v offset is = .ok m' := by
  have ha := (exists_writeAll_iff is).mp ⟨m', h⟩
  obtain ⟨-, rfl⟩ := Memory.writeBitsArray_eq_ok.mp h
  have heach : ∀ k < (is.map t.kind.toBits).length,
      m.Admits v (offset + (0 + k) * t.bytes) t.bytes .write := by
    intro k hk
    rw [List.length_map] at hk
    rw [Nat.zero_add]
    exact (Memory.admits_elements hn).mp ha k hk
  have hfold := Memory.foldlM_writeBits heach
  rw [List.zipIdx_map, List.foldlM_map, Nat.zero_mul, Nat.add_zero] at hfold
  unfold writeEach
  simp only [write_eq]
  exact hfold

/--
Typed access is exact. A number that a view admits is written, nothing but its own bytes changes,
and every view that reaches the same bytes reads it: in the same byte order as it was, in the other
one with its bytes reversed. An array is read, and written, exactly when each of its elements would
be, and then just as they are one by one; all offsets on the way are words. An array that is
refused leaves the world as it was, and no access is ever abandoned for a sum that is no word.
-/
theorem access_exact (t : Number) (w : World) (v : View) (offset : Nat) :
    (∀ i, t.Holds i → w.memory.Admits v offset t.bytes .write →
      ∃ m, t.write w.memory v offset i = .ok m ∧ m.owners = w.memory.owners ∧
        (∀ c, c < wrap (v.address + offset) ∨ wrap (v.address + offset) + t.bytes ≤ c →
          m.heap.get c = w.memory.heap.get c) ∧
        ∀ u o, wrap (u.address + o) = wrap (v.address + offset) → m.Admits u o t.bytes .read →
          t.read m u o = .ok (if u.swapped = v.swapped then i else t.reversed i)) ∧
    (∀ n, 0 < n →
      ((∃ is, t.readAll w.memory v offset n = .ok is) ↔
        ∀ k < n, ∃ i, t.read w.memory v (offset + k * t.bytes) = .ok i) ∧
      ∀ is, t.readAll w.memory v offset n = .ok is →
        offset + n * t.bytes < wordLimit ∧ t.readEach w.memory v offset n = .ok is) ∧
    (∀ is, 0 < is.length →
      ((∃ m, t.writeAll w.memory v offset is = .ok m) ↔ ∀ (k : Nat) (i : Int), is[k]? = some i →
        ∃ m, t.write w.memory v (offset + k * t.bytes) i = .ok m) ∧
      ∀ m, t.writeAll w.memory v offset is = .ok m →
        offset + is.length * t.bytes < wordLimit ∧ t.writeEach w.memory v offset is = .ok m) ∧
    (∀ n e w', Act.read (fun m => t.readAll m v offset n) w = (.error e, w') →
      w' = w ∧ ∃ f, e = .fault f) ∧
    ∀ is e w', Act.write (fun m => t.writeAll m v offset is) w = (.error e, w') →
      w' = w ∧ ∃ f, e = .fault f := by
  refine ⟨?_, ?_, ?_, fun _ _ _ => Act.fault_of_read,
    fun _ _ _ => Act.fault_of_write⟩
  · intro i hi ha
    obtain ⟨m, hw⟩ := (exists_write_iff i).mpr ha
    have hread := fun (u : View) (o : Nat) => read_write hi hw (u := u) (o := o)
    obtain ⟨-, rfl⟩ := write_eq_ok.mp hw
    refine ⟨_, hw, rfl, fun c hc => Heap.get_store_of_outside ?_, hread⟩
    rwa [v.length_encode]
  · intro n hn
    have hadmits : w.memory.Admits v offset (n * t.bytes) .read ↔
        ∀ k < n, w.memory.Admits v (offset + k * t.bytes) t.bytes .read :=
      Memory.admits_elements hn
    simp only [exists_read_iff, ← hadmits]
    refine ⟨⟨fun ⟨_, h⟩ => (readAll_eq_ok.mp h).1, fun h => ⟨_, readAll_eq_ok.mpr ⟨h, rfl⟩⟩⟩, ?_⟩
    exact fun is h => ⟨(readAll_eq_ok.mp h).1.word, readEach_of_readAll hn h⟩
  · intro is hn
    have hadmits : w.memory.Admits v offset (is.length * t.bytes) .write ↔
        ∀ k < is.length, w.memory.Admits v (offset + k * t.bytes) t.bytes .write :=
      Memory.admits_elements hn
    refine ⟨?_, fun m h => ⟨((exists_writeAll_iff is).mp ⟨m, h⟩).word, writeEach_of_writeAll hn h⟩⟩
    rw [exists_writeAll_iff, hadmits]
    constructor
    · intro h k i hk
      exact (exists_write_iff i).mpr (h k (List.getElem?_eq_some_iff.mp hk).1)
    · intro h k hk
      exact (exists_write_iff is[k]).mp (h k is[k] (List.getElem?_eq_getElem hk))

/-! ## Eight bytes -/

/-- Eight bytes at a bare address. -/
def eightBytes : View := .sized 4096 8

/-- The type `uint32`. -/
def uint32 : Number := .int ⟨false, .w32⟩

theorem admits_eightBytes (m : Memory) (u : View) (hu : u = eightBytes ∨ u = eightBytes.order .big)
    (mode : Mode) : m.Admits u 0 4 mode := by
  rcases hu with rfl | rfl <;> cases mode <;> exact ⟨by decide, rfl, rfl, by decide, by decide⟩

/-- In the other order the bytes 4, 3, 2, 1 read as 1, 2, 3, 4; two numbers fit, and three are
refused together. -/
theorem access_exact_reversed :
    uint32.Holds 0x01020304 ∧ World.start.memory.Admits eightBytes 0 4 .write ∧
    (∃ m, uint32.write World.start.memory eightBytes 0 0x01020304 = .ok m ∧
      m.Admits (eightBytes.order .big) 0 4 .read ∧
      uint32.read m eightBytes 0 = .ok 0x01020304 ∧
      uint32.read m (eightBytes.order .big) 0 = .ok 0x04030201) ∧
    uint32.readEach World.start.memory eightBytes 0 2 = .ok [0, 0] ∧
    (∃ m, uint32.writeEach World.start.memory eightBytes 0 [1, 2] = .ok m) ∧
    (Act.read (fun m => uint32.readAll m eightBytes 0 3) World.start).2 = World.start ∧
    (Act.write (fun m => uint32.writeAll m eightBytes 0 [1, 2, 3]) World.start).2 =
      World.start := by
  obtain ⟨hsingle, hread, hwrite, hunread, hunwritten⟩ :=
    access_exact uint32 World.start eightBytes 0
  have hholds : uint32.Holds 0x01020304 := by decide
  have hadmits := admits_eightBytes World.start.memory _ (Or.inl rfl) .write
  refine ⟨hholds, hadmits, ?_, ?_, ?_, ?_, ?_⟩
  · obtain ⟨m, hm, -, -, hback⟩ := hsingle _ hholds hadmits
    have hbig := admits_eightBytes m _ (Or.inr rfl) .read
    refine ⟨m, hm, hbig, hback eightBytes 0 rfl (admits_eightBytes m _ (Or.inl rfl) .read), ?_⟩
    have hreversed : uint32.reversed 0x01020304 = 0x04030201 := by decide
    rw [← hreversed]
    exact hback _ 0 rfl hbig
  · have hzero : uint32.readAll World.start.memory eightBytes 0 2 = .ok [0, 0] := by
      refine readAll_eq_ok.mpr ⟨⟨by decide, rfl, rfl, by decide, by decide⟩, ?_⟩
      simp only [World.start, Heap.load_empty]
      decide
    exact ((hread 2 (by decide)).2 _ hzero).2
  · have htwo : ∃ m, uint32.writeAll World.start.memory eightBytes 0 [1, 2] = .ok m := ⟨_, rfl⟩
    obtain ⟨m, hm⟩ := htwo
    exact ⟨m, ((hwrite [1, 2] (by decide)).2 m hm).2⟩
  · exact (hunread 3 (.fault (.bounds 0 12 8)) _ rfl).1
  · exact (hunwritten [1, 2, 3] (.fault (.bounds 0 12 8)) _ rfl).1

end Number

end ForeignCall
