import ForeignCall.Proofs.Actions
import ForeignCall.Proofs.Memory.Blocks

/-!
# Worlds that grow

Fresh blocks stand above everything that has been handed out. So an operation that only makes
strings and blocks extends the world (`World.Extends`): what was there before stays as it is.
-/

namespace ForeignCall

/-- The system has memory for a block of a size, wherever blocks are handed out. -/
def Heap.Affords (h : Heap) (size : Nat) : Prop :=
  ∀ next, Heap.refuses { h with next } (size + bufferAlign - 1) = false

theorem Heap.Affords.congr {h h' : Heap} {size : Nat} (hs : h.Affords size)
    (hl : h'.lacks = h.lacks) : h'.Affords size := by
  intro next
  have hn := hs next
  unfold Heap.refuses at hn ⊢
  dsimp only at hn ⊢
  rw [hl]
  exact hn

namespace World

/-- A world in which more has been handed out, and nothing else has happened to memory. Nothing has
been compiled either, and no event has been recorded. -/
structure Extends (w w' : World) : Prop where
  next : w.memory.heap.next ≤ w'.memory.heap.next
  lacks : w'.memory.heap.lacks = w.memory.heap.lacks
  bytes : ∀ c < w.memory.heap.next, w'.memory.heap.get c = w.memory.heap.get c
  strings : ∀ (id : Nat) (s : ManagedString), w.strings[id]? = some s → w'.strings[id]? = some s
  live : ∀ o, w'.memory.isLive o = w.memory.isLive o
  callbacks : w'.callbacks = w.callbacks
  events : w'.events = w.events

/-- The bytes of every string, and the byte behind them, stand below what is still to be handed
out. -/
def StringsPlaced (w : World) : Prop :=
  ∀ (id : Nat) (s : ManagedString), w.strings[id]? = some s →
    s.address + s.length < w.memory.heap.next

variable {w w' w'' : World}

theorem Extends.refl (w : World) : w.Extends w :=
  ⟨Nat.le_refl _, rfl, fun _ _ => rfl, fun _ _ h => h, fun _ => rfl, rfl, rfl⟩

theorem Extends.trans (h : w.Extends w') (h' : w'.Extends w'') : w.Extends w'' where
  next := Nat.le_trans h.next h'.next
  lacks := h'.lacks.trans h.lacks
  bytes := fun c hc => by rw [h'.bytes c (Nat.lt_of_lt_of_le hc h.next), h.bytes c hc]
  strings := fun id s hs => h'.strings id s (h.strings id s hs)
  live := fun o => by rw [h'.live, h.live]
  callbacks := h'.callbacks.trans h.callbacks
  events := h'.events.trans h.events

theorem Extends.affords (h : w.Extends w') {size : Nat} (hs : w.memory.heap.Affords size) :
    w'.memory.heap.Affords size := hs.congr h.lacks

theorem Extends.load (h : w.Extends w') {a n : Nat} (ha : a + n ≤ w.memory.heap.next) :
    w'.memory.heap.load a n = w.memory.heap.load a n :=
  Heap.load_congr fun c _ hc => h.bytes c (by omega)

/-- A string that was there keeps its bytes. -/
theorem Extends.stringBytes (h : w.Extends w') (hp : w.StringsPlaced) {id : Nat}
    {s : ManagedString} (hs : w.strings[id]? = some s) : w'.stringBytes id = w.stringBytes id := by
  unfold World.stringBytes
  rw [hs, h.strings id s hs]
  exact h.load (Nat.le_of_lt (hp id s hs))

/-! ## New strings -/

theorem getElem?_strings_newString (w : World) (bytes : List UInt8) :
    (w.newString bytes).2.strings[(w.newString bytes).1]? =
      some ⟨w.memory.heap.next, bytes.length⟩ :=
  Array.getElem?_push_size

theorem next_newString (w : World) (bytes : List UInt8) :
    w.memory.heap.next + bytes.length < (w.newString bytes).2.memory.heap.next := by
  have h := w.memory.heap.next_obtain (bytes.length + 1)
  show _ < ((w.memory.heap.obtain (bytes.length + 1)).2.store _ bytes).next
  rw [Heap.next_store]
  omega

/-- A new string extends the world. -/
theorem extends_newString (w : World) (bytes : List UInt8) : w.Extends (w.newString bytes).2 where
  next := Nat.le_of_lt (Nat.lt_of_le_of_lt (Nat.le_add_right ..) (w.next_newString bytes))
  lacks := Heap.lacks_store _ _ _
  bytes := fun c hc => Heap.get_store_of_outside (Or.inl hc)
  strings := fun id s hs => by
    show (w.strings.push _)[id]? = some s
    obtain ⟨hi, rfl⟩ := Array.getElem?_eq_some_iff.mp hs
    exact Array.getElem?_push_lt hi
  live := fun _ => rfl
  callbacks := rfl
  events := rfl

theorem stringBytes_newString (w : World) (bytes : List UInt8) :
    (w.newString bytes).2.stringBytes (w.newString bytes).1 = bytes := by
  unfold World.stringBytes
  rw [getElem?_strings_newString]
  exact Heap.load_store _ _ _

theorem StringsPlaced.newString (h : w.StringsPlaced) (bytes : List UInt8) :
    (w.newString bytes).2.StringsPlaced := by
  intro id s hs
  have hn := w.next_newString bytes
  change (w.strings.push _)[id]? = some s at hs
  rw [Array.getElem?_push] at hs
  split at hs
  · rw [← Option.some.inj hs]
    exact hn
  · exact Nat.lt_of_lt_of_le (h id s hs) (Nat.le_trans (Nat.le_add_right ..) (Nat.le_of_lt hn))

/-! ## Room for more -/

/-- Addresses are left for one more block. -/
def HasRoom (w : World) : Prop := w.memory.heap.next + bufferAlign < wordLimit

/-- Where addresses are left, a block that the system has memory for is granted. -/
theorem HasRoom.grants {size : Nat} (h : w.HasRoom) (hn : 0 < w.memory.heap.next)
    (hs : w.memory.heap.Affords size) : w.memory.Grants size := by
  have hlimit : signedLimit < wordLimit := by decide
  have halign : bufferAlign = 8 := rfl
  have hrefuses := hs w.memory.heap.next
  have hfit := Heap.lt_signedLimit_of_refuses hrefuses
  have hplace : Memory.placeBlock w.memory.heap.next =
      some (roundUp w.memory.heap.next bufferAlign) :=
    (alignUp_eq_some (by decide)).mpr ⟨rfl, h⟩
  have hsize : Memory.totalSize 1 size = .ok size := by
    unfold Memory.totalSize
    rw [mulWords_eq_some.mpr ⟨rfl, by omega⟩, Nat.one_mul]
  have halloc : w.memory.allocate 1 size = .ok
      (View.ofParts (roundUp w.memory.heap.next bufferAlign) size 1
          (some (.owner w.memory.owners.size)),
        ⟨(w.memory.heap.obtain (size + bufferAlign - 1)).2, w.memory.owners.push
          ⟨.allocation, roundUp w.memory.heap.next bufferAlign, size, true, false⟩⟩) := by
    unfold Memory.allocate
    rw [hsize]
    simp only [Checked.outcome, bind, Except.bind, Heap.obtain, hplace, orOverflow, pure,
      Except.pure, hrefuses, Bool.false_eq_true, if_false]
  refine ⟨_, _, halloc, ?_⟩
  have := le_roundUp w.memory.heap.next (show 0 < bufferAlign by decide)
  show roundUp w.memory.heap.next bufferAlign ≠ 0
  omega

end World

/-! ## Operations that hand out -/

namespace Act

variable {α β : Type} {w : World}

/-- An operation that never takes back what has been handed out. -/
def Rises (x : Act α) : Prop := ∀ w : World, w.memory.heap.next ≤ (x w).2.memory.heap.next

theorem Rises.of_eq {x : Act α} (hx : x.Rises) {w w' : World} {o : Outcome α} (h : x w = (o, w')) :
    w.memory.heap.next ≤ w'.memory.heap.next := by
  have hr := hx w
  rw [h] at hr
  exact hr

theorem rises_pure (a : α) : (pure a : Act α).Rises := fun _ => Nat.le_refl _

theorem Rises.bind {x : Act α} {f : α → Act β} (hx : x.Rises) (hf : ∀ a, (f a).Rises) :
    (x >>= f).Rises := by
  intro w
  have h := hx w
  rcases hw : x w with ⟨e | a, w'⟩
  · rw [hw] at h
    rw [bind_error hw]
    exact h
  · rw [hw] at h
    rw [bind_ok hw]
    exact Nat.le_trans h (hf a w')

theorem rises_mapM {l : List α} {f : α → Act β} (hf : ∀ a, (f a).Rises) : (l.mapM f).Rises := by
  induction l with
  | nil => exact rises_pure []
  | cons a l ih =>
    rw [List.mapM_cons]
    exact (hf a).bind fun b => ih.bind fun bs => rises_pure _

theorem rises_forM {l : List α} {f : α → Act PUnit} (hf : ∀ a, (f a).Rises) :
    (l.forM f).Rises := by
  induction l with
  | nil => exact rises_pure _
  | cons a rest ih => exact (hf a).bind fun _ => ih

theorem rises_make {f : Memory → Outcome (α × Memory)}
    (h : ∀ m r, f m = .ok r → m.heap.next ≤ r.2.heap.next) : (make f).Rises := by
  intro w
  unfold make
  split
  next a m hm => exact h _ _ hm
  next => exact Nat.le_refl _

theorem rises_write {f : Memory → Checked Memory}
    (h : ∀ m m', f m = .ok m' → m.heap.next ≤ m'.heap.next) : (write f).Rises := by
  intro w
  unfold write
  split
  next m hm => exact h _ _ hm
  next => exact Nat.le_refl _

end Act

end ForeignCall
