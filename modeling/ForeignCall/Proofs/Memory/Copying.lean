import ForeignCall.Proofs.Memory.Numbers
import ForeignCall.Proofs.Struct.Steady

/-!
# Copying between views

A copy moves the old bytes of its source all at once: where the two ranges overlap, in whichever
direction, no byte is read after it has been overwritten. The byte orders of the two views have no
part in it.

Main statement: `Memory.copy_simultaneous`.
-/

namespace ForeignCall

/-- A copy of the first bytes of `src` into `dst` from `offset` on, as an operation. -/
def View.copyFrom (dst : View) (offset : Nat) (src : View) (length : Nat) : Act Unit :=
  Act.write fun m => m.copy dst offset src length

/-- A world in which a range of bytes holds what another range held before, and all else is as it
was. -/
structure World.Moved (w w' : World) (target source length : Nat) : Prop where
  /-- Only bytes have changed. -/
  rest : w' = { w with memory := { w.memory with heap := w'.memory.heap } }
  /-- Nothing has been handed out. -/
  next : w'.memory.heap.next = w.memory.heap.next
  inside : ∀ i < length, w'.memory.heap.get (target + i) = w.memory.heap.get (source + i)
  outside : ∀ c, c < target ∨ target + length ≤ c → w'.memory.heap.get c = w.memory.heap.get c

namespace World.Moved

variable {w w' : World} {target source length : Nat}

/-- Whatever stood anywhere in the source stands at the same distance in the target. -/
theorem load (h : w.Moved w' target source length) {i n : Nat} (hi : i + n ≤ length) :
    w'.memory.heap.load (target + i) n = w.memory.heap.load (source + i) n :=
  Heap.load_shift fun j hj => by
    rw [Nat.add_assoc, Nat.add_assoc]
    exact h.inside (i + j) (by omega)

/-- What has no byte in the target is loaded as before. -/
theorem load_of_disjoint (h : w.Moved w' target source length) {a n : Nat}
    (ha : a + n ≤ target ∨ target + length ≤ a) :
    w'.memory.heap.load a n = w.memory.heap.load a n :=
  Heap.load_congr fun c h1 h2 => h.outside c (by omega)

end World.Moved

/-! ## Copies -/

namespace View

variable {dst src : View} {offset length : Nat} {w w' : World}

theorem copyFrom_eq_ok : dst.copyFrom offset src length w = (.ok (), w') ↔
    w.memory.Admits src 0 length .read ∧ w.memory.Admits dst offset length .write ∧
      w' = { w with memory := { w.memory with
        heap := w.memory.heap.store (wrap (dst.address + offset))
          (w.memory.heap.load (wrap src.address) length) } } := by
  unfold copyFrom
  rw [Act.write_eq_ok]
  constructor
  · rintro ⟨m, hm, rfl⟩
    obtain ⟨hs, hd, rfl⟩ := Memory.copy_eq_ok.mp hm
    exact ⟨hs, hd, rfl⟩
  · rintro ⟨hs, hd, rfl⟩
    exact ⟨_, Memory.copy_eq_ok.mpr ⟨hs, hd, rfl⟩, rfl⟩

/-- A copy moves the bytes of its source. -/
theorem moved_copyFrom (h : dst.copyFrom offset src length w = (.ok (), w')) :
    w.Moved w' (wrap (dst.address + offset)) (wrap src.address) length := by
  obtain ⟨-, -, rfl⟩ := copyFrom_eq_ok.mp h
  refine ⟨rfl, Heap.next_store .., fun i hi => ?_, fun c hc => ?_⟩
  · exact Heap.get_store_load _ _ _ _ hi
  · refine Heap.get_store_of_outside ?_
    rwa [Heap.length_load]

/-- Neither byte order has a part in a copy. -/
theorem copyFrom_order (dst src : View) (offset length : Nat) (d s : ByteOrder) :
    (dst.order d).copyFrom offset (src.order s) length = dst.copyFrom offset src length := rfl

end View

/-! ## The copy as a whole -/

/--
A copy succeeds exactly when its source may be read and its target may be written, both of them
over the whole length. Every byte of the target then is what the byte at the same distance in the
source was before, however the two ranges overlap, and nothing else in the world has changed. A
copy that does not succeed reports a fault and changes nothing. The byte orders of the views do not
matter.
-/
theorem Memory.copy_simultaneous (dst src : View) (offset length : Nat) (w : World) :
    ((∃ w', dst.copyFrom offset src length w = (.ok (), w')) ↔
      w.memory.Admits src 0 length .read ∧ w.memory.Admits dst offset length .write) ∧
    (∀ w', dst.copyFrom offset src length w = (.ok (), w') →
      w.Moved w' (wrap (dst.address + offset)) (wrap src.address) length) ∧
    (∀ e w', dst.copyFrom offset src length w = (.error e, w') → w' = w ∧ ∃ f, e = .fault f) ∧
    ∀ d s, (dst.order d).copyFrom offset (src.order s) length w =
      dst.copyFrom offset src length w := by
  refine ⟨?_, fun w' => View.moved_copyFrom, fun e w' => Act.fault_of_write, fun d s => ?_⟩
  · constructor
    · rintro ⟨w', h⟩
      obtain ⟨hs, hd, -⟩ := View.copyFrom_eq_ok.mp h
      exact ⟨hs, hd⟩
    · rintro ⟨hs, hd⟩
      exact ⟨_, View.copyFrom_eq_ok.mpr ⟨hs, hd, rfl⟩⟩
  · rw [View.copyFrom_order]

/-! ## Overlapping ranges -/

/-- A world in which eight bytes have been written. -/
def World.counted : World :=
  { World.start with memory := { World.start.memory with
      heap := World.start.memory.heap.store 4096 [1, 2, 3, 4, 5, 6, 7, 8] } }

/-- Six of eight bytes are moved upwards and downwards in their own region; seven do not fit. -/
theorem Memory.copy_simultaneous_overlapping :
    (∃ w', (View.sized 4096 8).copyFrom 2 (.sized 4096 8) 6 World.counted = (.ok (), w') ∧
      w'.memory.heap.load 4096 8 = [1, 2, 1, 2, 3, 4, 5, 6]) ∧
    (∃ w', (View.sized 4096 8).copyFrom 0 (.sized 4098 6) 6 World.counted = (.ok (), w') ∧
      w'.memory.heap.load 4096 8 = [3, 4, 5, 6, 7, 8, 7, 8]) ∧
    ((View.sized 4096 8).copyFrom 2 (.sized 4096 8) 7 World.counted).2 = World.counted := by
  have hadmits : ∀ {address size offset length : Nat} {mode : Mode}, address ≠ 0 →
      offset + length < wordLimit → offset + length ≤ size →
      World.counted.memory.Admits (.sized address size) offset length mode :=
    fun {_ _ _ _ mode} ha hw hs => ⟨ha, rfl, by cases mode <;> rfl, hw, hs⟩
  obtain ⟨hup, hmovedUp, -⟩ :=
    Memory.copy_simultaneous (.sized 4096 8) (.sized 4096 8) 2 6 World.counted
  obtain ⟨hdown, hmovedDown, -⟩ :=
    Memory.copy_simultaneous (.sized 4096 8) (.sized 4098 6) 0 6 World.counted
  obtain ⟨-, -, hrefused, -⟩ :=
    Memory.copy_simultaneous (.sized 4096 8) (.sized 4096 8) 2 7 World.counted
  refine ⟨?_, ?_, ?_⟩
  · obtain ⟨w', h⟩ := hup.mpr ⟨hadmits (by decide) (by decide) (by decide),
      hadmits (by decide) (by decide) (by decide)⟩
    have hm := hmovedUp w' h
    have hkept := hm.load_of_disjoint (a := 4096) (n := 2) (Or.inl (by decide))
    have hcopied : w'.memory.heap.load 4098 6 = _ := hm.load (i := 0) (n := 6) (by decide)
    refine ⟨w', h, ?_⟩
    rw [Heap.load_add 4096 2 6, hkept, hcopied]
    simp [World.counted, Heap.load, Heap.get_store, wrap, wordLimit, View.sized, View.ofParts]
  · obtain ⟨w', h⟩ := hdown.mpr ⟨hadmits (by decide) (by decide) (by decide),
      hadmits (by decide) (by decide) (by decide)⟩
    have hm := hmovedDown w' h
    have hkept := hm.load_of_disjoint (a := 4102) (n := 2) (Or.inr (by decide))
    have hcopied : w'.memory.heap.load 4096 6 = _ := hm.load (i := 0) (n := 6) (by decide)
    refine ⟨w', h, ?_⟩
    rw [Heap.load_add 4096 6 2, hkept, hcopied]
    simp [World.counted, Heap.load, Heap.get_store, wrap, wordLimit, View.sized, View.ofParts]
  · exact (hrefused (.fault (.bounds 2 7 8)) _ rfl).1

end ForeignCall
