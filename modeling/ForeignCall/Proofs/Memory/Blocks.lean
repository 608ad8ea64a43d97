import ForeignCall.Memory.CString

/-!
# Loads, stores and fresh blocks

What a load sees of a store, which accesses a view admits, and where a fresh block stands: above
everything that has been handed out before it.
-/

namespace ForeignCall

/-! ## Loads and stores -/

namespace Heap

variable {h h' : Heap} {a b : Nat}

/-- The same bytes at two places give the same load. -/
theorem load_shift {n : Nat} (hb : ∀ i < n, h.get (a + i) = h'.get (b + i)) :
    h.load a n = h'.load b n := by
  refine List.ext_getElem? fun i => ?_
  by_cases hi : i < n
  · rw [getElem?_load _ _ _ _ hi, getElem?_load _ _ _ _ hi, hb i hi]
  · rw [List.getElem?_eq_none (by rw [length_load]; omega),
      List.getElem?_eq_none (by rw [length_load]; omega)]

/-- Two heaps with the same bytes in a range give the same load of it. -/
theorem load_congr {n : Nat} (hb : ∀ c, a ≤ c → c < a + n → h.get c = h'.get c) :
    h.load a n = h'.load a n :=
  load_shift fun i hi => hb (a + i) (by omega) (by omega)

theorem load_add (a n k : Nat) : h.load a (n + k) = h.load a n ++ h.load (a + n) k := by
  induction n generalizing a with
  | zero => simp [load]
  | succ n ih =>
    rw [Nat.succ_add, load, load, ih, List.cons_append]
    congr 3
    omega

@[simp] theorem lacks_store (h : Heap) (a : Nat) (bs : List UInt8) :
    (h.store a bs).lacks = h.lacks := by
  induction bs generalizing h a with
  | nil => rfl
  | cons b bs ih => rw [store, ih, set]

theorem get_empty (next : Nat) (lacks : Nat → Nat → Bool) : (empty next lacks).get a = 0 :=
  Std.HashMap.getD_empty

/-- Where nothing has been written, zeros are loaded. -/
theorem load_empty (next : Nat) (lacks : Nat → Nat → Bool) (a n : Nat) :
    (empty next lacks).load a n = List.replicate n 0 := by
  induction n generalizing a with
  | zero => rfl
  | succ n ih => rw [load, get_empty, ih, List.replicate_succ]

/-- What has been stored is loaded again. -/
theorem load_store (h : Heap) (a : Nat) (bs : List UInt8) :
    (h.store a bs).load a bs.length = bs := by
  refine List.ext_getElem? fun i => ?_
  by_cases hi : i < bs.length
  · have h1 : a ≤ a + i ∧ a + i < a + bs.length := by omega
    rw [getElem?_load _ _ _ _ hi, get_store, if_pos h1, Nat.add_sub_cancel_left]
    simp [hi]
  · rw [List.getElem?_eq_none (by rw [length_load]; omega), List.getElem?_eq_none (by omega)]

/-- A store elsewhere is not seen by a load. -/
theorem load_store_of_disjoint {n : Nat} {bs : List UInt8} (hd : a + n ≤ b ∨ b + bs.length ≤ a) :
    (h.store b bs).load a n = h.load a n := by
  refine load_congr fun c h1 h2 => ?_
  have hc : ¬(b ≤ c ∧ c < b + bs.length) := by omega
  rw [get_store, if_neg hc]

theorem get_store_of_outside {bs : List UInt8} {c : Nat} (hc : c < a ∨ a + bs.length ≤ c) :
    (h.store a bs).get c = h.get c := by
  have h1 : ¬(a ≤ c ∧ c < a + bs.length) := by omega
  rw [get_store, if_neg h1]

/-- Bytes that have been copied stand at the new place as they stood at the old one. -/
theorem get_store_load (h h' : Heap) (a b : Nat) {n i : Nat} (hi : i < n) :
    (h.store a (h'.load b n)).get (a + i) = h'.get (b + i) := by
  have hin : a ≤ a + i ∧ a + i < a + (h'.load b n).length := by
    rw [length_load]
    omega
  rw [get_store, if_pos hin, Nat.add_sub_cancel_left, List.getD_eq_getElem?_getD,
    getElem?_load _ _ _ _ hi, Option.getD_some]

end Heap

/-! ## Checked accesses -/

namespace Memory

variable {m : Memory} {v : View}

/-- What it takes for an access to be admitted. -/
structure Admits (m : Memory) (v : View) (offset width : Nat) (mode : Mode) : Prop where
  address : v.address ≠ 0
  live : v.origin.any (fun o => !m.isLive o) = false
  mode : v.access.allows mode = true
  word : offset + width < wordLimit
  inside : offset + width ≤ v.size

/-- The part of it that is looked at before the range of the access. -/
structure Permits (m : Memory) (v : View) (mode : Mode) : Prop where
  address : v.address ≠ 0
  live : v.origin.any (fun o => !m.isLive o) = false
  mode : v.access.allows mode = true

variable {offset width : Nat} {mode : Mode}

theorem Admits.permits (h : m.Admits v offset width mode) : m.Permits v mode :=
  ⟨h.address, h.live, h.mode⟩

theorem admits_iff (hv : v.size < wordLimit) :
    m.Admits v offset width mode ↔ m.Permits v mode ∧ offset + width ≤ v.size :=
  ⟨fun h => ⟨h.permits, h.inside⟩,
    fun ⟨h, hin⟩ => ⟨h.address, h.live, h.mode, by omega, hin⟩⟩

/-- What is permitted is decided by its range. -/
theorem Permits.check (h : m.Permits v mode) : m.check v offset width mode =
    if offset + width < wordLimit ∧ offset + width ≤ v.size then .ok (wrap (v.address + offset))
    else .error (.outside offset width v.size) := by
  unfold Memory.check
  rw [if_neg h.address, h.live, h.mode, if_neg Bool.false_ne_true, if_neg (by simp)]

/-- What is not permitted is refused before its range is looked at. -/
theorem check_of_not_permits (h : ¬m.Permits v mode) (offset width : Nat) :
    ∃ f, m.check v offset width mode = .error f ∧ f.kind ≠ .bounds := by
  unfold Memory.check
  split
  · exact ⟨_, rfl, by decide⟩
  next hz =>
  split
  · exact ⟨_, rfl, by decide⟩
  next hl =>
  split
  · exact ⟨_, rfl, nofun⟩
  next hm => exact absurd ⟨hz, by simpa using hl, by simpa using hm⟩ h

theorem Admits.check (h : m.Admits v offset width mode) :
    m.check v offset width mode = .ok (wrap (v.address + offset)) := by
  rw [h.permits.check, if_pos ⟨h.word, h.inside⟩]

theorem check_eq_ok {address : Nat} (h : m.check v offset width mode = .ok address) :
    m.Admits v offset width mode ∧ address = wrap (v.address + offset) := by
  by_cases hp : m.Permits v mode
  · rw [hp.check] at h
    split at h
    next hfit =>
      exact ⟨⟨hp.address, hp.live, hp.mode, hfit.1, hfit.2⟩, (Except.ok.inj h).symm⟩
    · cases h
  · obtain ⟨f, hf, -⟩ := check_of_not_permits hp offset width
    rw [hf] at h
    cases h

/-- Out of bounds is what is permitted and does not fit. -/
theorem check_eq_bounds : (∃ f, m.check v offset width mode = .error f ∧ f.kind = .bounds) ↔
    m.Permits v mode ∧ ¬(offset + width < wordLimit ∧ offset + width ≤ v.size) := by
  constructor
  · rintro ⟨f, hf, hk⟩
    by_cases hp : m.Permits v mode
    · refine ⟨hp, fun hfit => ?_⟩
      rw [hp.check, if_pos hfit] at hf
      cases hf
    · obtain ⟨f', hf', hk'⟩ := check_of_not_permits hp offset width
      rw [hf'] at hf
      cases hf
      exact absurd hk hk'
  · rintro ⟨hp, hout⟩
    exact ⟨_, by rw [hp.check, if_neg hout], rfl⟩

theorem Admits.readBytes {length : Nat} (h : m.Admits v offset length .read) :
    m.readBytes v offset length = .ok (m.heap.load (wrap (v.address + offset)) length) := by
  unfold Memory.readBytes
  rw [h.check]
  rfl

theorem Admits.writeBytes {bytes : List UInt8} (h : m.Admits v offset bytes.length .write) :
    m.writeBytes v offset bytes =
      .ok { m with heap := m.heap.store (wrap (v.address + offset)) bytes } := by
  unfold Memory.writeBytes
  rw [h.check]
  rfl

theorem readBytes_eq_ok {length : Nat} {bytes : List UInt8}
    (h : m.readBytes v offset length = .ok bytes) :
    m.Admits v offset length .read ∧
      bytes = m.heap.load (wrap (v.address + offset)) length := by
  unfold Memory.readBytes at h
  cases hc : m.check v offset length .read with
  | error e => rw [hc] at h; cases h
  | ok address =>
    rw [hc] at h
    obtain ⟨ha, rfl⟩ := check_eq_ok hc
    exact ⟨ha, (Except.ok.inj h).symm⟩

theorem writeBytes_eq_ok {bytes : List UInt8} {m' : Memory}
    (h : m.writeBytes v offset bytes = .ok m') :
    m.Admits v offset bytes.length .write ∧
      m' = { m with heap := m.heap.store (wrap (v.address + offset)) bytes } := by
  unfold Memory.writeBytes at h
  cases hc : m.check v offset bytes.length .write with
  | error e => rw [hc] at h; cases h
  | ok address =>
    rw [hc] at h
    obtain ⟨ha, rfl⟩ := check_eq_ok hc
    exact ⟨ha, (Except.ok.inj h).symm⟩

/-! ## Fresh blocks -/

/-- One more owner releases nothing. -/
theorem isLive_push (heap : Heap) {owner : Owner} (h : owner.released = false) (o : Origin) :
    isLive ⟨heap, m.owners.push owner⟩ o = m.isLive o := by
  cases o with
  | owner id =>
    simp only [isLive, Array.getElem?_push]
    split
    next he => simp [he, h]
    · rfl
  | callback id => rfl
  | library id => rfl

/-- Memory that has a block of a size to give. -/
def Grants (m : Memory) (size : Nat) : Prop :=
  ∃ v m', m.allocate 1 size = .ok (v, m') ∧ v.address ≠ 0

/-- The size of elements is a product that stays in the word. -/
theorem totalSize_eq_ok_iff {typeSize count size : Nat} :
    totalSize typeSize count = .ok size ↔
      size = typeSize * count ∧ typeSize * count < wordLimit := by
  rw [← mulWords_eq_some, totalSize]
  cases mulWords typeSize count with
  | none => simp
  | some total => simp

/-- What an allocation has done: it has obtained 7 bytes more than the size, placed the block in
them, and made an owner for it. -/
theorem allocate_eq {m' : Memory} {typeSize count : Nat}
    (h : m.allocate typeSize count = .ok (v, m')) :
    ∃ size address, totalSize typeSize count = .ok size ∧
      m.heap.refuses (size + bufferAlign - 1) = false ∧
      placeBlock m.heap.next = some address ∧
      v = View.ofParts address size typeSize (some (.owner m.owners.size)) ∧
      m' = ⟨(m.heap.obtain (size + bufferAlign - 1)).2,
        m.owners.push ⟨.allocation, address, size, true, false⟩⟩ := by
  unfold allocate at h
  cases hs : totalSize typeSize count with
  | error e =>
    rw [hs] at h
    cases h
  | ok size =>
    rw [hs] at h
    cases hc : m.heap.refuses (size + bufferAlign - 1) with
    | true => simp [hc, Checked.outcome, refuse, bind, Except.bind] at h
    | false =>
      cases hp : placeBlock m.heap.next with
      | none => simp [hc, Checked.outcome, bind, Except.bind, Heap.obtain, hp, orOverflow] at h
      | some address =>
        simp only [Checked.outcome, bind, Except.bind, hc, Heap.obtain, hp, orOverflow, pure,
          Except.pure, Bool.false_eq_true, if_false, Except.ok.injEq, Prod.mk.injEq] at h
        obtain ⟨rfl, rfl⟩ := h
        exact ⟨size, address, rfl, hc, rfl, rfl, rfl⟩

/-- A fresh block: it stands above everything handed out before, and its owner is new. -/
theorem allocate_eq_ok {m' : Memory} {size : Nat} (h : m.allocate 1 size = .ok (v, m')) :
    ∃ address heap, m' = ⟨heap, m.owners.push ⟨.allocation, address, size, true, false⟩⟩ ∧
      v = View.ofParts address size 1 (some (.owner m.owners.size)) ∧
      size < signedLimit ∧ m.heap.next ≤ address ∧ address + size < heap.next ∧
      address < wordLimit ∧ heap.lacks = m.heap.lacks ∧ ∀ c, heap.get c = m.heap.get c := by
  obtain ⟨total, address, hs, hc, hp, rfl, rfl⟩ := allocate_eq h
  obtain rfl : total = size := by
    rw [(totalSize_eq_ok_iff.mp hs).1, Nat.one_mul]
  obtain ⟨rfl, hw⟩ := (alignUp_eq_some (by decide)).mp hp
  have hpos : 0 < bufferAlign := by decide
  have h1 := le_roundUp m.heap.next hpos
  have h2 := roundUp_lt m.heap.next hpos
  have h3 := le_roundUp (m.heap.next + (total + bufferAlign - 1) + 1) (show 0 < 16 by decide)
  have h4 : bufferAlign = 8 := rfl
  have h5 := Heap.lt_signedLimit_of_refuses hc
  refine ⟨_, _, rfl, rfl, by omega, h1, ?_, by omega, rfl, fun c => rfl⟩
  -- what is obtained has room for aligning the block inside it
  show _ < roundUp (m.heap.next + (total + bufferAlign - 1) + 1) 16
  omega

/-- A block that has just been given is written from its start. -/
theorem allocate_admits {m' : Memory} {size n : Nat} {mode : Mode}
    (h : m.allocate 1 size = .ok (v, m')) (hz : v.address ≠ 0) (hn : n ≤ size) :
    m'.Admits v 0 n mode := by
  obtain ⟨address, heap, rfl, rfl, hc, -⟩ := allocate_eq_ok h
  have h1 : signedLimit < wordLimit := by decide
  refine ⟨hz, ?_, by cases mode <;> rfl, by omega, by simpa [View.ofParts] using hn⟩
  simp [View.ofParts, isLive]

end Memory

end ForeignCall
