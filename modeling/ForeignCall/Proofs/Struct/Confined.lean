import ForeignCall.Proofs.Struct.Writing
import ForeignCall.Struct.Instance

/-!
# Writes that stay in their place

A put changes old bytes only inside its field, and none of them when it fails
(`Ty.spares_putField`, `Ty.careful_putField`). A single write has been checked as a whole before its
first byte. An array is filled in a scratch buffer, which is fresh, so an item that is refused
halfway leaves nothing behind but bytes that nobody had before.
-/

namespace ForeignCall

/-! ## Old bytes -/

namespace World

/-- The bytes at some places are as they were, apart from blocks that have been handed out since. -/
def Keeps (w w' : World) (places : Nat → Prop) : Prop :=
  ∀ c, c < w.memory.heap.next ∨ w'.memory.heap.next ≤ c → places c →
    w'.memory.heap.get c = w.memory.heap.get c

variable {w w' w'' : World} {places : Nat → Prop}

theorem Keeps.of_memory_eq (h : w'.memory = w.memory) : w.Keeps w' places :=
  fun _ _ _ => by rw [h]

theorem Keeps.refl (w : World) : w.Keeps w places := .of_memory_eq rfl

theorem Keeps.trans (h : w.Keeps w' places) (h' : w'.Keeps w'' places)
    (hn : w.memory.heap.next ≤ w'.memory.heap.next)
    (hn' : w'.memory.heap.next ≤ w''.memory.heap.next) : w.Keeps w'' places := by
  intro c hc hp
  rw [h' c (by omega) hp, h c (by omega) hp]

theorem Keeps.mono {fewer : Nat → Prop} (h : w.Keeps w' places) (hle : ∀ c, fewer c → places c) :
    w.Keeps w' fewer :=
  fun c hc hp => h c hc (hle c hp)

end World

/-! ## Operations that leave old bytes alone -/

namespace Act

variable {α β : Type} {a n : Nat}

/-- Bytes outside a place. -/
def Outside (a n c : Nat) : Prop := c < a ∨ a + n ≤ c

/-- An operation that leaves alone every old byte outside a place, however it ends. -/
structure Spares (x : Act α) (a n : Nat) : Prop where
  rises : x.Rises
  keeps : a + n ≤ wordLimit → ∀ w : World, (x w).2.memory.heap.next ≤ wordLimit →
    w.Keeps (x w).2 (Outside a n)

/-- An operation that leaves every old byte alone. -/
abbrev Quiet (x : Act α) : Prop := x.Spares 0 0

/-- An operation that leaves every old byte alone when it is refused. -/
def Careful (x : Act α) : Prop :=
  ∀ (w w' : World) (f : Fault), x w = (.error (.fault f), w') → w'.memory.heap.next ≤ wordLimit →
    w.Keeps w' fun _ => True

/-- An operation that does not fail. -/
def Total (x : Act α) : Prop := ∀ w, ∃ r w', x w = (.ok r, w')

theorem Spares.of_eq {x : Act α} (hx : x.Spares a n) (ha : a + n ≤ wordLimit) {w w' : World}
    {o : Outcome α} (h : x w = (o, w')) (hn : w'.memory.heap.next ≤ wordLimit) :
    w.Keeps w' (Outside a n) := by
  have hk := hx.keeps ha w
  rw [h] at hk
  exact hk hn

theorem Quiet.of_eq {x : Act α} (hx : x.Quiet) {w w' : World} {o : Outcome α} (h : x w = (o, w'))
    (hn : w'.memory.heap.next ≤ wordLimit) : w.Keeps w' fun _ => True :=
  (Spares.of_eq hx (Nat.zero_le _) h hn).mono fun _ _ => Or.inr (Nat.zero_le _)

theorem Quiet.spares {x : Act α} (hx : x.Quiet) : x.Spares a n :=
  ⟨hx.rises, fun _ _ hn => (hx.of_eq rfl hn).mono fun _ _ => trivial⟩

theorem Quiet.careful {x : Act α} (hx : x.Quiet) : x.Careful :=
  fun _ _ _ h hn => hx.of_eq h hn

/-- A place inside another one. -/
theorem Spares.mono {x : Act α} (hx : x.Spares a n) {b k : Nat} (hb : b ≤ a)
    (hk : a + n ≤ b + k) : x.Spares b k := by
  refine ⟨hx.rises, fun hw w hn => (hx.keeps (by omega) w hn).mono fun c hc => ?_⟩
  rcases hc with hc | hc
  · exact Or.inl (by omega)
  · exact Or.inr (by omega)

theorem Spares.bind {x : Act α} {f : α → Act β} (hx : x.Spares a n) (hf : ∀ r, (f r).Spares a n) :
    (x >>= f).Spares a n := by
  refine ⟨hx.rises.bind fun r => (hf r).rises, fun ha w hn => ?_⟩
  rcases h : x w with ⟨e | r, w'⟩
  · rw [bind_error h] at hn ⊢
    exact hx.of_eq ha h hn
  · rw [bind_ok h] at hn ⊢
    have hrise := (hf r).rises w'
    exact (hx.of_eq ha h (Nat.le_trans hrise hn)).trans ((hf r).keeps ha w' hn) (hx.rises.of_eq h)
      hrise

/-- What is refused after quiet steps is refused before anything has changed. -/
theorem Careful.after {x : Act α} {f : α → Act β} (hx : x.Quiet) (hf : ∀ r, (f r).Careful)
    (hr : ∀ r, (f r).Rises) : (x >>= f).Careful := by
  intro w w' f' h hn
  rcases hw : x w with ⟨e | r, w₁⟩
  · rw [bind_error hw, Prod.mk.injEq] at h
    obtain ⟨-, rfl⟩ := h
    exact hx.of_eq hw hn
  · rw [bind_ok hw] at h
    have hrise := (hr r).of_eq h
    exact (hx.of_eq hw (Nat.le_trans hrise hn)).trans (hf r w₁ w' _ h hn) (hx.rises.of_eq hw) hrise

/-- What cannot fail may follow. -/
theorem Careful.before {x : Act α} {f : α → Act β} (hx : x.Careful) (hf : ∀ r, (f r).Total) :
    (x >>= f).Careful := by
  intro w w' f' h hn
  rcases hw : x w with ⟨e | r, w₁⟩
  · rw [bind_error hw, Prod.mk.injEq] at h
    obtain ⟨he, rfl⟩ := h
    obtain rfl := Except.error.inj he
    exact hx w w₁ f' hw hn
  · obtain ⟨b, w₂, hb⟩ := hf r w₁
    rw [bind_ok hw, hb, Prod.mk.injEq] at h
    cases h.1

theorem quiet_of_memory_eq {x : Act α} (h : ∀ w, (x w).2.memory = w.memory) : x.Quiet :=
  ⟨fun w => Nat.le_of_eq (by rw [h w]), fun _ w _ => .of_memory_eq (h w)⟩

theorem quiet_pure (r : α) : (pure r : Act α).Quiet := quiet_of_memory_eq fun _ => rfl

theorem quiet_refuse (f : Fault) : (refuse f : Act α).Quiet := quiet_of_memory_eq fun _ => rfl

theorem refuse_bind (f : Fault) (g : α → Act β) : (refuse f >>= g) = refuse f := rfl

theorem quiet_ofOutcome (o : Outcome α) : (ofOutcome o).Quiet := quiet_of_memory_eq fun _ => rfl

theorem quiet_ofChecked (c : Checked α) : (ofChecked c).Quiet := quiet_ofOutcome _

theorem quiet_view (f : World → α) : (view f).Quiet := quiet_of_memory_eq fun _ => rfl

/-- A write that fails changes nothing at all. -/
theorem write_eq_error {f : Memory → Checked Memory} {w w' : World} {e : Failure}
    (h : write f w = (.error e, w')) : w' = w :=
  (fault_of_write h).1

theorem careful_write (f : Memory → Checked Memory) : (write f).Careful := by
  intro w w' _ h _
  rw [write_eq_error h]
  exact .refl w

/-- A write of bytes in a place. -/
theorem spares_write {f : Memory → Checked Memory}
    (hf : ∀ m m', f m = .ok m' → m'.heap.next = m.heap.next ∧
      (a + n ≤ wordLimit → ∃ bytes, bytes.length = n ∧ m'.heap = m.heap.store a bytes)) :
    (write f).Spares a n := by
  refine ⟨rises_write fun m m' h => Nat.le_of_eq (hf m m' h).1.symm, fun ha w hn => ?_⟩
  rcases hw : write f w with ⟨e | u, w'⟩
  · rw [write_eq_error hw]
    exact .refl w
  · obtain ⟨m, hm, rfl⟩ := write_eq_ok.mp hw
    obtain ⟨bytes, hlen, hb⟩ := (hf _ _ hm).2 ha
    intro c _ hc
    show m.heap.get c = _
    rw [hb]
    exact Heap.get_store_of_outside (by rw [hlen]; exact hc)

/-- A list of operations, each of which spares what is outside one place. -/
theorem spares_forM {l : List α} {f : α → Act PUnit} (hf : ∀ r ∈ l, (f r).Spares a n) :
    (l.forM f).Spares a n := by
  induction l with
  | nil => exact (quiet_pure _).spares
  | cons r rest ih =>
    exact (hf r List.mem_cons_self).bind fun _ => ih fun r' hr => hf r' (List.mem_cons_of_mem _ hr)

end Act

/-! ## Single writes -/

namespace View

variable (v : View) (offset : Nat)

theorem spares_writeBytes (bytes : List UInt8) :
    (Act.write fun m => m.writeBytes v offset bytes).Spares (v.address + offset) bytes.length :=
  Act.spares_write fun m m' h =>
    ⟨(Memory.same_writeBytes h).1, fun hw => ⟨bytes, rfl, by rw [Memory.writeBytes_store h hw]⟩⟩

theorem spares_writeBits (width bits : Nat) :
    (Act.write fun m => m.writeBits v offset width bits).Spares (v.address + offset) width := by
  have h := v.spares_writeBytes offset (v.encode width bits)
  rw [v.length_encode] at h
  exact h

theorem spares_copy (src : View) (length : Nat) :
    (Act.write fun m => m.copy v offset src length).Spares (v.address + offset) length := by
  refine Act.spares_write fun m m' h => ⟨(Memory.same_copy h).1, fun hw => ?_⟩
  refine ⟨m.heap.load (wrap src.address) length, Heap.length_load .., ?_⟩
  rw [(Memory.copy_eq_ok.mp h).2.2]
  cases length with
  | zero => rfl
  | succ n =>
    rw [show wrap (v.address + offset) = v.address + offset from Nat.mod_eq_of_lt (by omega)]

theorem spares_clear : (Act.write fun m => m.clear v).Spares v.address v.size :=
  Act.spares_write fun m m' h => ⟨(Memory.same_clear h).1, fun hw =>
    ⟨List.replicate v.size 0, List.length_replicate, by rw [Memory.clear_eq_ok h hw]⟩⟩

end View

/-! ## Callbacks -/

theorem quiet_makeCallback (signature : Signature) (closure : Nat) (prepared : Checked Unit) :
    (makeCallback signature closure prepared).Quiet :=
  Act.quiet_of_memory_eq (memory_makeCallback signature closure prepared)

theorem total_retain (retention address : Nat) (callback : Option Nat) :
    (retain retention address callback).Total :=
  fun _ => ⟨(), _, rfl⟩

theorem quiet_retain (retention address : Nat) (callback : Option Nat) :
    (retain retention address callback).Quiet :=
  Act.quiet_of_memory_eq fun _ => rfl

/-! ## Single fields -/

namespace View

variable (v : View) (offset : Nat)

/-- A value of a builtin kind is checked, and then written at once. -/
theorem spares_put (b : Builtin) (value : Value) :
    (v.put (.builtin b) offset value).Spares (v.address + offset) b.size := by
  cases b with
  | int k => exact (Act.quiet_ofChecked _).spares.bind fun _ => v.spares_writeBits offset _ _
  | float k => exact (Act.quiet_ofChecked _).spares.bind fun _ => v.spares_writeBits offset _ _
  | bool => exact (Act.quiet_ofChecked _).spares.bind fun _ => v.spares_writeBits offset _ _
  | pointer r => exact (Act.quiet_ofChecked _).spares.bind fun _ => v.spares_writeBits offset _ _
  | string =>
    cases value with
    | str id => exact (Act.quiet_refuse _).spares
    | _ => exact (Act.quiet_ofChecked _).spares.bind fun _ => v.spares_writeBits offset _ _
  | void => exact (Act.quiet_refuse _).spares
  | varargs => exact (Act.quiet_refuse _).spares

theorem careful_checked_writeBits {α : Type} (c : Checked α) (width : Nat) (bits : α → Nat) :
    (do
      let r ← Act.ofChecked c
      Act.write fun m => m.writeBits v offset width (bits r)).Careful :=
  .after (Act.quiet_ofChecked c) (fun _ => Act.careful_write _)
    fun _ => (v.spares_writeBits offset _ _).rises

theorem careful_put (kind : Kind) (value : Value) : (v.put kind offset value).Careful := by
  rcases kind with b | _ | _ | _ | _ | _
  · cases b with
    | int k => exact v.careful_checked_writeBits offset _ _ _
    | float k => exact v.careful_checked_writeBits offset _ _ _
    | bool => exact v.careful_checked_writeBits offset _ _ _
    | pointer r => exact v.careful_checked_writeBits offset _ _ id
    | string =>
      cases value with
      | str i => exact (Act.quiet_refuse _).careful
      | _ => exact v.careful_checked_writeBits offset _ _ id
    | void => exact (Act.quiet_refuse _).careful
    | varargs => exact (Act.quiet_refuse _).careful
  all_goals exact (Act.quiet_refuse _).careful

end View

variable (v : View) (retention offset : Nat)

/-- A function pointer is written, and then what has to be kept for it is kept. -/
theorem spares_storeFunction (address : Nat) (callback : Option Nat) :
    Act.Spares (do
      Act.write fun m => m.writeAddress v offset address
      retain retention (wrap (v.address + offset)) callback) (v.address + offset) addressSize :=
  (v.spares_writeBits offset _ _).bind fun _ => (quiet_retain ..).spares

theorem careful_storeFunction (address : Nat) (callback : Option Nat) :
    Act.Careful (do
      Act.write fun m => m.writeAddress v offset address
      retain retention (wrap (v.address + offset)) callback) :=
  .before (Act.careful_write _) fun _ => total_retain retention _ callback

theorem spares_putFunction (signature : Signature) (value : Value) :
    (putFunction v retention offset signature value).Spares (v.address + offset) addressSize := by
  cases value with
  | proc closure =>
    exact (quiet_makeCallback signature closure _).spares.bind fun _ =>
      (Act.quiet_view _).spares.bind fun _ => spares_storeFunction v retention offset _ _
  | function f => exact spares_storeFunction v retention offset _ _
  | _ =>
    exact (Act.quiet_ofChecked _).spares.bind fun _ => spares_storeFunction v retention offset _ _

theorem careful_putFunction (signature : Signature) (value : Value) :
    (putFunction v retention offset signature value).Careful := by
  have hrises : ∀ address callback, Act.Rises _ := fun address callback =>
    (spares_storeFunction v retention offset address callback).rises
  cases value with
  | proc closure =>
    exact .after (quiet_makeCallback signature closure _)
      (fun _ => .after (Act.quiet_view _) (fun _ => careful_storeFunction v retention offset _ _)
        fun _ => hrises _ _)
      fun _ => (Act.quiet_view _).rises.bind fun _ => hrises _ _
  | function f => exact careful_storeFunction v retention offset _ _
  | _ =>
    exact .after (Act.quiet_ofChecked _) (fun _ => careful_storeFunction v retention offset _ _)
      fun _ => hrises _ _

theorem spares_putStruct (layout : Layout) (value : Value) :
    (putStruct v offset layout value).Spares (v.address + offset) layout.size := by
  unfold putStruct
  split
  · split
    · exact v.spares_copy offset _ _
    · exact (Act.quiet_refuse _).spares
  · exact (Act.quiet_refuse _).spares

theorem careful_putStruct (layout : Layout) (value : Value) :
    (putStruct v offset layout value).Careful := by
  unfold putStruct
  split
  · split
    · exact Act.careful_write _
    · exact (Act.quiet_refuse _).careful
  · exact (Act.quiet_refuse _).careful

/-! ## Arrays -/

/-- A world with a fresh buffer. -/
structure World.Lends (w w₁ : World) (staged : View) (size : Nat) : Prop where
  length : staged.size = size
  next : w.memory.heap.next ≤ w₁.memory.heap.next
  word : w₁.memory.heap.next ≤ wordLimit → staged.address + size ≤ wordLimit
  fresh : ∀ c, staged.address ≤ c → c < staged.address + size →
    w.memory.heap.next ≤ c ∧ c < w₁.memory.heap.next
  bytes : ∀ c, w₁.memory.heap.get c = w.memory.heap.get c

theorem makeBuffer_cases (size : Nat) (w : World) :
    (∃ e, (Act.make fun m => (m.allocateBuffer 1 size).outcome) w = (.error e, w)) ∨
      ∃ staged w₁, (Act.make fun m => (m.allocateBuffer 1 size).outcome) w = (.ok staged, w₁) ∧
        w.Lends w₁ staged size := by
  rcases hm : Act.make (fun m => (m.allocateBuffer 1 size).outcome) w with ⟨e | staged, w₁⟩
  · refine Or.inl ⟨e, ?_⟩
    unfold Act.make at hm
    split at hm
    · cases hm
    · rw [Prod.mk.injEq] at hm ⊢
      exact ⟨rfl, hm.2.symm⟩
  · refine Or.inr ⟨staged, w₁, rfl, ?_⟩
    obtain ⟨m, hbuffer, rfl⟩ := Act.make_eq_ok.mp hm
    obtain ⟨hsize, -, hnext, hget, -, hfresh, hword⟩ :=
      Memory.allocateBuffer_eq_ok (Checked.outcome_eq_ok.mp hbuffer)
    exact ⟨hsize, hnext, hword, hfresh, hget⟩

/-- No old address is one of a fresh buffer. -/
theorem World.Lends.outside {w w₁ : World} {staged : View} {size c : Nat}
    (h : w.Lends w₁ staged size) (hc : c < w.memory.heap.next ∨ w₁.memory.heap.next ≤ c) :
    Act.Outside staged.address size c := by
  by_cases hin : staged.address ≤ c ∧ c < staged.address + size
  · have hnew := h.fresh c hin.1 hin.2
    omega
  · unfold Act.Outside
    omega

theorem rises_buffer {α : Type} {size : Nat} {f : View → Act α}
    (hf : ∀ staged : View, staged.size = size → (f staged).Rises) :
    ((Act.make fun m => (m.allocateBuffer 1 size).outcome) >>= f).Rises := by
  intro w
  rcases makeBuffer_cases size w with ⟨e, he⟩ | ⟨staged, w₁, he, hl⟩
  · exact Nat.le_of_eq (by rw [Act.bind_error he])
  · rw [Act.bind_ok he]
    exact Nat.le_trans hl.next (hf staged hl.length w₁)

/-- What happens inside a fresh buffer leaves every old byte alone. -/
theorem quiet_buffer {α : Type} {size : Nat} {f : View → Act α}
    (hf : ∀ staged : View, staged.size = size → (f staged).Spares staged.address size) :
    ((Act.make fun m => (m.allocateBuffer 1 size).outcome) >>= f).Quiet := by
  refine ⟨rises_buffer fun staged hs => (hf staged hs).rises, fun _ w hn => ?_⟩
  rcases makeBuffer_cases size w with ⟨e, he⟩ | ⟨staged, w₁, he, hl⟩
  · rw [Act.bind_error he]
    exact .refl w
  · rw [Act.bind_ok he] at hn ⊢
    have hspares := hf staged hl.length
    have hrise := hspares.rises w₁
    intro c hc _
    have hold := hc.imp_left fun hlt => Nat.lt_of_lt_of_le hlt hl.next
    have hout := hl.outside (hc.imp_right fun hle => Nat.le_trans hrise hle)
    rw [hspares.keeps (hl.word (Nat.le_trans hrise hn)) _ hn c hold hout]
    exact hl.bytes c

/-- A staged copy is a fresh buffer that the field is copied into. -/
theorem stage_bind_eq {α : Type} (size : Nat) (f : View → Act α) : (stage v offset size >>= f) =
    ((Act.make fun m => (m.allocateBuffer 1 size).outcome) >>= fun staged =>
      Act.ofOutcome (v.slice offset size) >>= fun field =>
        (Act.write fun m => m.copy staged 0 field size) >>= fun _ => f staged) := by
  simp only [stage, bind_assoc, pure_bind]

/-- What is done to a staged copy leaves every old byte alone. -/
theorem quiet_stage_bind {α : Type} {size : Nat} {f : View → Act α}
    (hf : ∀ staged : View, staged.size = size → (f staged).Spares staged.address size) :
    (stage v offset size >>= f).Quiet := by
  rw [stage_bind_eq]
  exact quiet_buffer fun staged hs => (Act.quiet_ofOutcome _).spares.bind fun field =>
    (staged.spares_copy 0 field size).bind fun _ => hf staged hs

theorem putStaged_eq (size : Nat) (fill : View → Act Unit) : putStaged v offset size fill = (do
    let staged ← stage v offset size >>= fun staged => fill staged >>= fun _ => pure staged
    Act.write fun m => m.copy v offset staged size) := by
  simp only [putStaged, bind_assoc, pure_bind]

section

variable {size : Nat} {fill : View → Act Unit}
  (hf : ∀ staged : View, staged.size = size → (fill staged).Spares staged.address size)

include hf

theorem quiet_filled :
    (stage v offset size >>= fun staged => fill staged >>= fun _ => pure staged).Quiet :=
  quiet_stage_bind v offset fun staged hs =>
    (hf staged hs).bind fun _ => (Act.quiet_pure staged).spares

theorem spares_putStaged : (putStaged v offset size fill).Spares (v.address + offset) size := by
  rw [putStaged_eq]
  exact (quiet_filled v offset hf).spares.bind fun staged => v.spares_copy offset staged size

/-- Nothing of an array is copied back that could not be filled as a whole. -/
theorem careful_putStaged : (putStaged v offset size fill).Careful := by
  rw [putStaged_eq]
  exact .after (quiet_filled v offset hf) (fun _ => Act.careful_write _)
    fun staged => (v.spares_copy offset staged size).rises

end

/-- Items that are each written in their own part of a block. -/
theorem spares_putItems {length b size : Nat} {putItem : Nat → Value → Act Unit}
    (hp : ∀ i < length, ∀ x, (putItem i x).Spares (b + i * size) size) (value : Value) :
    (putItems length putItem value).Spares b (size * length) := by
  unfold putItems
  split
  next items =>
    split
    · rw [Act.refuse_bind]
      exact (Act.quiet_refuse _).spares
    next hlen =>
      refine Act.spares_forM fun r hr => ?_
      have hi : r.2 < length := by
        have := List.mem_zipIdx hr
        omega
      refine (hp r.2 hi r.1).mono (Nat.le_add_right ..) ?_
      have hle : r.2 * size + size ≤ size * length := element_le hi
      omega
  · exact (Act.quiet_refuse _).spares

theorem spares_putChars (staged : View) (length id : Nat) (hs : staged.size = length) :
    (putChars staged length id).Spares staged.address length := by
  refine (Act.quiet_view _).spares.bind fun bytes => ?_
  dsimp only
  split
  · rw [Act.refuse_bind]
    exact (Act.quiet_refuse _).spares
  next hlen =>
    refine Act.Spares.bind (hs ▸ staged.spares_clear) fun _ => ?_
    exact (staged.spares_writeBytes 0 bytes).mono (Nat.le_refl _) (by omega)

/-- An item that is written where the element of its index stands. -/
theorem spares_putElement (staged : View) (c : Ty) (i : Nat) (x : Value)
    (hc : ∀ o, (c.putField staged retention o x).Spares (staged.address + o) c.size) :
    Act.Spares (do
      let o ← Act.ofChecked (elementOffset staged 0 c i)
      c.putField staged retention o x) (staged.address + i * c.size) c.size := by
  cases ho : elementOffset staged 0 c i with
  | error f => exact (Act.quiet_refuse _).spares
  | ok o =>
    obtain rfl := elementOffset_eq_ok ho
    exact hc (i * c.size + 0)

/-- What goes into a character array: a string, or characters. -/
theorem spares_fillChars (staged : View) (n : Nat) (hs : staged.size = n) (value : Value) :
    Act.Spares (match value with
      | .str id => putChars staged n id
      | value => putItems n (fun i item => staged.put Ty.char.kind i item) value)
      staged.address n := by
  have hitems : (putItems n (fun i item => staged.put Ty.char.kind i item) value).Spares
      staged.address (1 * n) :=
    spares_putItems (fun i _ x => by
      rw [Nat.mul_one]
      exact staged.spares_put i (.int ⟨true, .w8⟩) x) value
  rw [Nat.one_mul] at hitems
  split
  · exact spares_putChars staged n _ hs
  · exact hitems

/-! ## Fields of any type -/

section

variable (retention : Nat)

/-- The items of an array, each put where the element of its index stands. -/
theorem spares_fillItems {c : Ty} (n : Nat)
    (hc : ∀ (v : View) (o : Nat) (x : Value),
      (c.putField v retention o x).Spares (v.address + o) c.size) (staged : View) (value : Value) :
    (putItems n (fun i item => do
        let o ← Act.ofChecked (elementOffset staged 0 c i)
        c.putField staged retention o item) value).Spares staged.address (c.size * n) :=
  spares_putItems (fun i _ x => spares_putElement retention staged c i x fun o => hc staged o x)
    value

/-- A put changes old bytes nowhere but in its field. -/
theorem Ty.spares_putField : ∀ (t : Ty) (v : View) (offset : Nat) (value : Value),
    (t.putField v retention offset value).Spares (v.address + offset) t.size
  | .builtin b, v, offset, value => by
    cases b with
    | string =>
      cases value with
      | str id => exact (Act.quiet_refuse _).spares
      | _ => exact (Act.quiet_ofChecked _).spares.bind fun _ => v.spares_writeBits offset _ _
    | _ => exact v.spares_put offset _ value
  | .array c n, v, offset, value =>
    spares_putStaged v offset fun staged _ =>
      spares_fillItems retention n c.spares_putField staged value
  | .charArray n, v, offset, value =>
    spares_putStaged v offset fun staged hs => spares_fillChars staged n hs value
  | .struct layout, v, offset, value => spares_putStruct v offset layout value
  | .enumeration _, v, offset, _ =>
    (Act.quiet_ofChecked _).spares.bind fun _ => v.spares_writeBits offset _ _
  | .callback signature, v, offset, value => spares_putFunction v retention offset signature value

/-- A put that fails changes no old byte, whichever item or check refuses it. -/
theorem Ty.careful_putField (v : View) (offset : Nat) (value : Value) (t : Ty) :
    (t.putField v retention offset value).Careful := by
  rcases t with b | layout | ⟨c, n⟩ | n | table | signature
  · cases b with
    | string =>
      cases value with
      | str id => exact (Act.quiet_refuse _).careful
      | _ => exact v.careful_checked_writeBits offset _ _ id
    | _ => exact v.careful_put offset _ value
  · exact careful_putStruct v offset layout value
  · exact careful_putStaged v offset fun staged _ =>
      spares_fillItems retention n (c.spares_putField retention) staged value
  · exact careful_putStaged v offset fun staged hs => spares_fillChars staged n hs value
  · exact v.careful_checked_writeBits offset _ _ _
  · exact careful_putFunction v retention offset signature value

end

end ForeignCall
