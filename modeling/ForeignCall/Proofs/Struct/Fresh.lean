import ForeignCall.Proofs.Memory.Growth
import ForeignCall.Struct.Instance

/-!
# Structs made of bytes

A struct that is passed by value is copied into a block of its own (`Instance.ofBytes_fresh`). The
block is fresh, so nothing that was there before changes.
-/

namespace ForeignCall

namespace Instance

variable {w : World} {layout : Layout}

/-- A struct made of bytes stands in a fresh block, with these bytes. -/
theorem ofBytes_fresh (h : w.memory.Grants layout.size) (bytes : List UInt8) :
    ∃ address id retention w', ofBytes layout bytes w =
        (.ok ⟨layout, .ofParts address layout.size 1 (some (.owner id)), retention⟩, w') ∧
      w.Extends w' ∧ (w.StringsPlaced → w'.StringsPlaced) ∧ w.memory.heap.next ≤ address ∧
      address + layout.size ≤ w'.memory.heap.next ∧
      w'.memory.readBytes (.ofParts address layout.size 1 (some (.owner id))) 0 layout.size =
        .ok (Bytes.fit layout.size bytes) := by
  obtain ⟨v, m, hv, hz⟩ := h
  have hlen := Bytes.length_fit layout.size bytes
  generalize hfit : Bytes.fit layout.size bytes = fitted at hlen ⊢
  have hread : m.Admits v 0 layout.size .read := Memory.allocate_admits hv hz (Nat.le_refl _)
  have hwrite : m.Admits v 0 fitted.length .write :=
    Memory.allocate_admits hv hz (Nat.le_of_eq hlen)
  obtain ⟨address, heap, rfl, rfl, -, hge, hlt, hword, hlacks, hget⟩ := Memory.allocate_eq_ok hv
  have hwrap : wrap ((View.ofParts address layout.size 1
      (some (.owner w.memory.owners.size))).address + 0) = address :=
    Nat.mod_eq_of_lt hword
  have hm := hwrite.writeBytes
  rw [hwrap] at hm
  have hmake : make layout w = (.ok ⟨layout, _, w.retentions.size⟩,
      { w with memory := _, retentions := w.retentions.push [] }) :=
    Act.bind_eq_ok.mpr ⟨_, _, Act.make_eq_ok.mpr ⟨_, hv, rfl⟩, rfl⟩
  have hnext := Heap.next_store heap address fitted
  refine ⟨address, w.memory.owners.size, w.retentions.size, _,
    Act.bind_eq_ok.mpr ⟨_, _, hmake, Act.bind_eq_ok.mpr ⟨(), _,
      Act.write_eq_ok.mpr ⟨_, by rw [hfit]; exact hm, rfl⟩, rfl⟩⟩, ?_, ?_, hge, ?_, ?_⟩
  · refine ⟨?_, ?_, ?_, fun _ _ h => h, ?_, rfl, rfl⟩
    · show _ ≤ (heap.store address fitted).next
      omega
    · exact (Heap.lacks_store heap address fitted).trans hlacks
    · intro c hc
      show (heap.store address fitted).get c = _
      rw [Heap.get_store_of_outside (Or.inl (by omega)), hget]
    · exact fun o => Memory.isLive_push _ rfl o
  · intro hp id s hs
    have := hp id s hs
    show _ < (heap.store address fitted).next
    omega
  · show _ ≤ (heap.store address fitted).next
    omega
  · -- storing the bytes has not changed what may be read
    have hread' : Memory.Admits ⟨heap.store address fitted, w.memory.owners.push
        ⟨.allocation, address, layout.size, true, false⟩⟩ (View.ofParts address layout.size 1
          (some (.owner w.memory.owners.size))) 0 layout.size .read :=
      ⟨hread.address, hread.live, hread.mode, hread.word, hread.inside⟩
    have hbytes := hread'.readBytes
    rw [hwrap] at hbytes
    show Memory.readBytes ⟨heap.store address fitted, _⟩ _ 0 _ = _
    rw [hbytes, ← hlen, Heap.load_store]

theorem rises_ofBytes (layout : Layout) (bytes : List UInt8) : (ofBytes layout bytes).Rises := by
  have hmake : (Act.make fun m => m.allocate 1 layout.size).Rises := by
    refine Act.rises_make fun m r hr => ?_
    obtain ⟨v, m'⟩ := r
    obtain ⟨address, heap, rfl, -, -, h1, h2, -⟩ := Memory.allocate_eq_ok hr
    show m.heap.next ≤ heap.next
    omega
  have hretain : newRetention.Rises := fun w => Nat.le_refl _
  refine (hmake.bind fun v => hretain.bind fun _ => Act.rises_pure _).bind fun s => ?_
  refine (Act.rises_write fun m m' hm => ?_).bind fun _ => Act.rises_pure s
  rw [(Memory.writeBytes_eq_ok hm).2]
  show _ ≤ (Heap.store _ _ _).next
  exact Nat.le_of_eq (Heap.next_store _ _ _).symm

end Instance

end ForeignCall
