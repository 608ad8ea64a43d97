import ForeignCall.Proofs.Memory.Growth
import ForeignCall.Proofs.Struct.Content
import ForeignCall.Struct.Field

/-!
# Operations that leave everything but bytes alone

Putting a value in a field changes bytes, hands out scratch buffers and keeps callbacks; the strings
and the owners stay as they are (`Ty.steady_putField`). A scratch buffer is fresh.
-/

namespace ForeignCall

/-! ## Operations that leave everything but bytes alone -/

namespace World

/-- A world in which more has been handed out, with the same strings and the same owners alive. -/
structure Steady (w w' : World) : Prop where
  next : w.memory.heap.next ≤ w'.memory.heap.next
  strings : w'.strings = w.strings
  live : ∀ o, w'.memory.isLive o = w.memory.isLive o

variable {w w' w'' : World}

theorem Steady.refl (w : World) : w.Steady w := ⟨Nat.le_refl _, rfl, fun _ => rfl⟩

theorem Steady.trans (h : w.Steady w') (h' : w'.Steady w'') : w.Steady w'' :=
  ⟨Nat.le_trans h.next h'.next, h'.strings.trans h.strings, fun o => (h'.live o).trans (h.live o)⟩

theorem StringsPlaced.steady (h : w.StringsPlaced) (hw : w.Steady w') : w'.StringsPlaced := by
  intro id s hs
  rw [hw.strings] at hs
  exact Nat.lt_of_lt_of_le (h id s hs) hw.next

/-- A world in which besides only bytes have changed that had not been handed out. -/
structure Undisturbed (w w' : World) : Prop extends Steady w w' where
  bytes : ∀ c < w.memory.heap.next, w'.memory.heap.get c = w.memory.heap.get c

theorem Undisturbed.refl (w : World) : w.Undisturbed w := ⟨.refl w, fun _ _ => rfl⟩

theorem Undisturbed.trans (h : w.Undisturbed w') (h' : w'.Undisturbed w'') : w.Undisturbed w'' :=
  ⟨h.toSteady.trans h'.toSteady, fun c hc => by
    rw [h'.bytes c (Nat.lt_of_lt_of_le hc h.next), h.bytes c hc]⟩

theorem Undisturbed.stringBytes (h : w.Undisturbed w') (hp : w.StringsPlaced) (id : Nat) :
    w'.stringBytes id = w.stringBytes id := by
  unfold World.stringBytes
  rw [h.strings]
  cases hs : w.strings[id]? with
  | none => rfl
  | some s => exact Heap.load_congr fun c _ hc => h.bytes c (Nat.lt_trans hc (hp id s hs))

end World

/-- An operation that leaves everything but bytes alone. -/
def Act.Steady {α : Type} (x : Act α) : Prop := ∀ w : World, w.Steady (x w).2

namespace Act

variable {α β : Type}

theorem Steady.of_eq {x : Act α} (hx : x.Steady) {w w' : World} {o : Outcome α}
    (h : x w = (o, w')) : w.Steady w' := by
  have hs := hx w
  rw [h] at hs
  exact hs

theorem Steady.rises {x : Act α} (hx : x.Steady) : x.Rises := fun w => (hx w).next

theorem Steady.bind {x : Act α} {f : α → Act β} (hx : x.Steady) (hf : ∀ a, (f a).Steady) :
    (x >>= f).Steady := by
  intro w
  rcases hr : x w with ⟨e | a, w'⟩
  · rw [bind_error hr]
    exact hx.of_eq hr
  · rw [bind_ok hr]
    exact (hx.of_eq hr).trans (hf a w')

theorem steady_pure (a : α) : (pure a : Act α).Steady := fun w => .refl w

theorem steady_refuse (f : Fault) : (refuse f : Act α).Steady := fun w => .refl w

theorem steady_ofOutcome (o : Outcome α) : (ofOutcome o).Steady := fun w => .refl w

theorem steady_ofChecked (c : Checked α) : (ofChecked c).Steady := fun w => .refl w

theorem steady_view (f : World → α) : (view f).Steady := fun w => .refl w

/-- A write changes bytes alone. -/
theorem steady_write {f : Memory → Checked Memory}
    (hf : ∀ m m', f m = .ok m' → m'.heap.next = m.heap.next ∧ m'.owners = m.owners) :
    (write f).Steady := by
  intro w
  unfold write
  cases h : f w.memory with
  | error e => exact .refl w
  | ok m =>
    obtain ⟨hn, ho⟩ := hf _ _ h
    refine ⟨Nat.le_of_eq hn.symm, rfl, fun o => ?_⟩
    show m.isLive o = w.memory.isLive o
    cases o <;> simp [Memory.isLive, ho]

theorem steady_make {f : Memory → Outcome (α × Memory)}
    (hf : ∀ m a m', f m = .ok (a, m') →
      m.heap.next ≤ m'.heap.next ∧ ∀ o, m'.isLive o = m.isLive o) : (make f).Steady := by
  intro w
  unfold make
  rcases h : f w.memory with e | ⟨a, m⟩
  · exact .refl w
  · obtain ⟨hn, hl⟩ := hf _ _ _ h
    exact ⟨hn, rfl, hl⟩

theorem steady_forM {l : List α} {f : α → Act PUnit} (hf : ∀ a, (f a).Steady) :
    (l.forM f).Steady := by
  induction l with
  | nil => exact steady_pure _
  | cons a rest ih => exact (hf a).bind fun _ => ih

end Act

namespace Memory

variable {m m' : Memory} {v : View} {offset : Nat}

theorem same_writeBytes {bytes : List UInt8} (h : m.writeBytes v offset bytes = .ok m') :
    m'.heap.next = m.heap.next ∧ m'.owners = m.owners := by
  rw [(writeBytes_eq_ok h).2]
  exact ⟨Heap.next_store .., rfl⟩

/-- The bytes of a write stand where the view says, as long as that is a word. -/
theorem writeBytes_store {bytes : List UInt8} (h : m.writeBytes v offset bytes = .ok m')
    (hw : v.address + offset + bytes.length ≤ wordLimit) :
    m' = { m with heap := m.heap.store (v.address + offset) bytes } := by
  rw [(writeBytes_eq_ok h).2]
  cases bytes with
  | nil => rfl
  | cons b bs =>
    rw [List.length_cons] at hw
    rw [wrap, Nat.mod_eq_of_lt (by omega)]

theorem copy_eq_ok {dst src : View} {length : Nat} : m.copy dst offset src length = .ok m' ↔
    m.Admits src 0 length .read ∧ m.Admits dst offset length .write ∧ m' = { m with
      heap := m.heap.store (wrap (dst.address + offset))
        (m.heap.load (wrap src.address) length) } := by
  unfold copy
  simp only [Checked.bind_eq_ok]
  constructor
  · rintro ⟨source, hs, target, hd, hm⟩
    obtain ⟨has, rfl⟩ := check_eq_ok hs
    obtain ⟨had, rfl⟩ := check_eq_ok hd
    exact ⟨has, had, (Except.ok.inj hm).symm⟩
  · rintro ⟨has, had, rfl⟩
    exact ⟨_, has.check, _, had.check, rfl⟩

theorem same_copy {dst src : View} {length : Nat} (h : m.copy dst offset src length = .ok m') :
    m'.heap.next = m.heap.next ∧ m'.owners = m.owners := by
  rw [(copy_eq_ok.mp h).2.2]
  exact ⟨Heap.next_store .., rfl⟩

/-- Bytes are copied from place to place, as long as both are words. -/
theorem copy_store {dst src : View} {length : Nat} (h : m.copy dst offset src length = .ok m')
    (hd : dst.address + offset + length ≤ wordLimit) (hs : src.address + length ≤ wordLimit) :
    m' = { m with
      heap := m.heap.store (dst.address + offset) (m.heap.load src.address length) } := by
  rw [(copy_eq_ok.mp h).2.2]
  cases length with
  | zero => rfl
  | succ n => rw [wrap, wrap, Nat.mod_eq_of_lt (by omega), Nat.mod_eq_of_lt (by omega)]

theorem clear_eq_ok (h : m.clear v = .ok m') (hw : v.address + v.size ≤ wordLimit) :
    m' = { m with heap := m.heap.store v.address (List.replicate v.size 0) } := by
  unfold clear at h
  split at h
  · cases h
  cases hc : m.check v 0 v.size .write with
  | error e => rw [hc] at h; cases h
  | ok address =>
    rw [hc] at h
    rw [← Except.ok.inj h, (check_eq_ok hc).2, Nat.add_zero]
    cases hsize : v.size with
    | zero => rfl
    | succ n => rw [wrap, Nat.mod_eq_of_lt (by omega)]

theorem same_clear (h : m.clear v = .ok m') :
    m'.heap.next = m.heap.next ∧ m'.owners = m.owners := by
  unfold clear at h
  split at h
  · cases h
  cases hc : m.check v 0 v.size .write with
  | error e => rw [hc] at h; cases h
  | ok address =>
    rw [hc] at h
    rw [← Except.ok.inj h]
    exact ⟨Heap.next_store .., rfl⟩

end Memory

/-! ## Scratch buffers -/

/-- A buffer is fresh: it stands above everything handed out before, unless it has no bytes. -/
theorem Memory.allocateBuffer_eq_ok {m m' : Memory} {v : View} {size : Nat}
    (h : m.allocateBuffer 1 size = .ok (v, m')) :
    v.size = size ∧ v.swapped = false ∧ m.heap.next ≤ m'.heap.next ∧
      (∀ c, m'.heap.get c = m.heap.get c) ∧ (∀ o, m'.isLive o = m.isLive o) ∧
      (∀ c, v.address ≤ c → c < v.address + size → m.heap.next ≤ c ∧ c < m'.heap.next) ∧
      (m'.heap.next ≤ wordLimit → v.address + size ≤ wordLimit) := by
  unfold allocateBuffer totalSize at h
  cases hs : mulWords 1 size with
  | none => rw [hs] at h; cases h
  | some total =>
    obtain ⟨ht, -⟩ := mulWords_eq_some.mp hs
    rw [Nat.one_mul] at ht
    subst ht
    rw [hs] at h
    by_cases hc : total ≠ 0 ∧ m.heap.refuses (roundUp total 8) = true
    · simp [hc, bind, Except.bind, throw, throwThe, MonadExceptOf.throw] at h
    simp only [hc, bind, Except.bind, pure, Except.pure, if_false, Except.ok.injEq,
      Prod.mk.injEq] at h
    obtain ⟨rfl, rfl⟩ := h
    have hlive : ∀ (address : Nat) (heap : Heap) o, Memory.isLive ⟨heap, m.owners.push
        ⟨.buffer, address, total, true, false⟩⟩ o = m.isLive o :=
      fun address heap o => isLive_push heap rfl o
    by_cases hz : total = 0
    · subst hz
      refine ⟨rfl, rfl, Nat.le_refl _, fun _ => rfl, hlive _ _, fun c h1 h2 => ?_, fun _ => ?_⟩
      · exact absurd h2 (Nat.not_lt.mpr h1)
      · show emptyBufferAddress + 0 ≤ wordLimit
        decide
    · have hn := m.heap.next_obtain total
      simp only [hz, if_false]
      refine ⟨rfl, rfl, by omega, fun _ => rfl, hlive _ _, fun c h1 h2 => ?_, fun hw => ?_⟩
      · exact ⟨h1, Nat.lt_trans h2 hn⟩
      · exact Nat.le_trans (Nat.le_of_lt hn) hw

/-! ## Writing is steady -/

theorem steady_stage (v : View) (offset size : Nat) : (stage v offset size).Steady := by
  refine Act.Steady.bind (Act.steady_make fun m a m' h => ?_) fun staged =>
    (Act.steady_ofOutcome _).bind fun field =>
      (Act.steady_write fun m m' h => Memory.same_copy h).bind fun _ => Act.steady_pure _
  obtain ⟨-, -, hn, -, hl, -, -⟩ := Memory.allocateBuffer_eq_ok (Checked.outcome_eq_ok.mp h)
  exact ⟨hn, hl⟩

theorem steady_putStaged (v : View) (offset size : Nat) {fill : View → Act Unit}
    (hf : ∀ staged, (fill staged).Steady) : (putStaged v offset size fill).Steady :=
  (steady_stage v offset size).bind fun staged =>
    (hf staged).bind fun _ => Act.steady_write fun _ _ h => Memory.same_copy h

theorem steady_putItems (length : Nat) {putItem : Nat → Value → Act Unit}
    (hp : ∀ i x, (putItem i x).Steady) (value : Value) :
    (putItems length putItem value).Steady := by
  unfold putItems
  split
  · split
    · exact (Act.steady_refuse _).bind fun _ => Act.steady_forM fun a => hp _ _
    · exact Act.steady_forM fun a => hp _ _
  · exact Act.steady_refuse _

theorem steady_putChars (staged : View) (length id : Nat) : (putChars staged length id).Steady := by
  refine (Act.steady_view _).bind fun bytes => ?_
  have hw : (Act.write fun m => m.clear staged).Steady :=
    Act.steady_write fun _ _ h => Memory.same_clear h
  have hb : (Act.write fun m => m.writeBytes staged 0 bytes).Steady :=
    Act.steady_write fun _ _ h => Memory.same_writeBytes h
  dsimp only
  split
  · exact (Act.steady_refuse _).bind fun _ => hw.bind fun _ => hb
  · exact hw.bind fun _ => hb

/-- A value of a builtin kind is checked, and then its bytes are written. -/
theorem View.steady_put (v : View) (b : Builtin) (offset : Nat) (value : Value) :
    (v.put (.builtin b) offset value).Steady := by
  have hbits : ∀ {α : Type} (c : Checked α) (width : Nat) (bits : α → Nat), Act.Steady (do
      let r ← Act.ofChecked c
      Act.write fun m => m.writeBits v offset width (bits r)) := fun c width bits =>
    (Act.steady_ofChecked c).bind fun _ => Act.steady_write fun _ _ h => Memory.same_writeBytes h
  cases b with
  | int k => exact hbits _ _ _
  | float k => exact hbits _ _ _
  | bool => exact hbits _ _ _
  | pointer r => exact hbits _ _ id
  | string =>
    cases value with
    | str i => exact Act.steady_refuse _
    | _ => exact hbits _ _ id
  | void => exact Act.steady_refuse _
  | varargs => exact Act.steady_refuse _

theorem steady_makeCallback (signature : Signature) (closure : Nat) (prepared : Checked Unit) :
    (makeCallback signature closure prepared).Steady := by
  intro w
  obtain ⟨pool, callbacks, closures, h⟩ := makeCallback_snd signature closure prepared w
  rw [h]
  exact ⟨Nat.le_refl _, rfl, fun _ => rfl⟩

/-- The map of a struct is no memory. -/
theorem steady_retain (retention address : Nat) (callback : Option Nat) :
    (retain retention address callback).Steady :=
  fun _ => ⟨Nat.le_refl _, rfl, fun _ => rfl⟩

theorem steady_putFunction (v : View) (retention offset : Nat) (signature : Signature)
    (value : Value) : (putFunction v retention offset signature value).Steady := by
  have hstore : ∀ address callback, Act.Steady (do
      Act.write fun m => m.writeAddress v offset address
      retain retention (wrap (v.address + offset)) callback) := fun address callback =>
    (Act.steady_write fun _ _ h => Memory.same_writeBytes h).bind fun _ =>
      steady_retain retention _ callback
  cases value with
  | proc closure =>
    exact (steady_makeCallback signature closure _).bind fun _ =>
      (Act.steady_view _).bind fun _ => hstore _ _
  | function f => exact hstore _ _
  | _ => exact (Act.steady_ofChecked _).bind fun _ => hstore _ _

theorem steady_putStruct (v : View) (offset : Nat) (layout : Layout) (value : Value) :
    (putStruct v offset layout value).Steady := by
  unfold putStruct
  split
  · split
    · exact Act.steady_write fun _ _ h => Memory.same_copy h
    · exact Act.steady_refuse _
  · exact Act.steady_refuse _

/-- Putting a value in a field leaves the strings and the owners as they are. -/
theorem Ty.steady_putField (retention : Nat) : ∀ (t : Ty) (v : View) (offset : Nat) (value : Value),
    (t.putField v retention offset value).Steady
  | .builtin b, v, offset, value => by
    cases b with
    | string =>
      cases value with
      | str i => exact Act.steady_refuse _
      | _ =>
        exact (Act.steady_ofChecked _).bind fun _ =>
          Act.steady_write fun _ _ h => Memory.same_writeBytes h
    | _ => exact v.steady_put _ offset value
  | .array c n, v, offset, value =>
    steady_putStaged v offset _ fun staged => steady_putItems n (fun _ x =>
      (Act.steady_ofChecked _).bind fun o => c.steady_putField retention staged o x) value
  | .charArray n, v, offset, value => by
    refine steady_putStaged v offset n fun staged => ?_
    split
    · exact steady_putChars staged n _
    · exact steady_putItems n (fun i x => staged.steady_put (.int _) i x) value
  | .struct l, v, offset, value => steady_putStruct v offset l value
  | .enumeration _, v, offset, value =>
    (Act.steady_ofChecked _).bind fun _ => Act.steady_write fun _ _ h => Memory.same_writeBytes h
  | .callback signature, v, offset, value => steady_putFunction v retention offset signature value

end ForeignCall
