import ForeignCall.Proofs.Struct.Retention

/-!
# What puts leave in place

A put leaves in place what other function pointers rely on (`Ty.upholds_putField`): worlds stay
sound, callbacks stay in their table, and a map gives up nothing but what it keeps for the function
pointer that is put. It leaves alone the bytes that it is given nothing for, also those in the
middle of an array (`Ty.keepsRest`).
-/

namespace ForeignCall

/-! ## Entries of maps -/

namespace World

/-- A map keeps a callback for an address. -/
def Retains (w : World) (map key id : Nat) : Prop :=
  ∃ r, w.retentions[map]? = some r ∧ (key, id) ∈ r

variable {w w' : World} {map key id : Nat} {roots : List Ref}

theorem Retains.congr (h : w.Retains map key id) (hr : w'.retentions = w.retentions) :
    w'.Retains map key id := by
  unfold Retains
  rw [hr]
  exact h

/-- What is kept for one address gives way to nothing but what is kept for the same. -/
theorem Retains.retain (h : w.Retains map key id) {retention address : Nat} {callback : Option Nat}
    (hne : map = retention → key ≠ address) :
    ((ForeignCall.retain retention address callback w).2).Retains map key id := by
  obtain ⟨r, hr, hmem⟩ := h
  rw [retain_eq]
  by_cases hm : map = retention
  · refine ⟨r.set address callback, ?_, ?_⟩
    · simp only [Array.getElem?_modify, hm, if_true]
      rw [← hm, hr]
      rfl
    · rw [Retention.set_eq]
      refine List.mem_append_left _ (List.mem_filter.mpr ⟨hmem, ?_⟩)
      simpa using hne hm
  · refine ⟨r, ?_, hmem⟩
    simp only [Array.getElem?_modify]
    rw [if_neg (Ne.symm hm)]
    exact hr

/-- A world is sound for fewer references, too. -/
theorem Sound.mono (hw : w.Sound roots) {fewer : List Ref} (h : fewer ⊆ roots) : w.Sound fewer where
  root := fun r hr => hw.root r (h hr)
  child := hw.child
  retired := hw.retired
  dropped := hw.dropped
  pool := hw.pool
  compiled := hw.compiled
  coded := hw.coded
  directed := hw.directed

theorem isHeld_of_mem {r : Ref} (h : r ∈ roots) : w.isHeld roots r = true :=
  isHeld_eq_true.mpr (Or.inl h)

end World

/-! ## Operations that leave in place what others rely on -/

namespace Act

variable {α β : Type} {map : Nat} {refs : List Ref} {a n : Nat}

/--
An operation on the struct of a map that is handed some references. As long as the map and the
references are held it keeps the world sound, it keeps every callback, and of the old addresses
outside a place it keeps what is kept for them.
-/
structure Upholds (x : Act α) (map : Nat) (refs : List Ref) (a n : Nat) : Prop where
  rises : x.Rises
  sound : ∀ (w : World) (held : List Ref), Ref.retention map ∈ held → refs ⊆ held →
    w.Sound held → (x w).2.Sound held
  callbacks : ∀ (w : World) (id : Nat) (c : Callback), w.callbacks[id]? = some c →
    (x w).2.callbacks[id]? = some c
  retains : ∀ (w : World) (m key id : Nat), (x w).2.memory.heap.next ≤ wordLimit →
    key < w.memory.heap.next → (m = map → a + n ≤ wordLimit ∧ Outside a n key) →
    w.Retains m key id → (x w).2.Retains m key id

theorem Upholds.sound_of_eq {x : Act α} (hx : x.Upholds map refs a n) {w w' : World}
    {o : Outcome α} (h : x w = (o, w')) {held : List Ref} (hmap : Ref.retention map ∈ held)
    (hrefs : refs ⊆ held) (hw : w.Sound held) : w'.Sound held := by
  have hs := hx.sound w held hmap hrefs hw
  rw [h] at hs
  exact hs

theorem Upholds.callbacks_of_eq {x : Act α} (hx : x.Upholds map refs a n) {w w' : World}
    {o : Outcome α} (h : x w = (o, w')) {id : Nat} {c : Callback} (hc : w.callbacks[id]? = some c) :
    w'.callbacks[id]? = some c := by
  have hs := hx.callbacks w id c hc
  rw [h] at hs
  exact hs

theorem Inert.upholds {x : Act α} (hx : x.Inert) (hr : x.Rises) : x.Upholds map refs a n where
  rises := hr
  sound := fun w _ _ _ hw => hw.congr (hx w)
  callbacks := fun w id c hc => by
    rw [(hx w).callbacks]
    exact hc
  retains := fun w _ _ _ _ _ _ h => h.congr (hx w).retentions

theorem Upholds.bind {x : Act α} {f : α → Act β} (hx : x.Upholds map refs a n)
    (hf : ∀ r, (f r).Upholds map refs a n) : (x >>= f).Upholds map refs a n := by
  refine ⟨hx.rises.bind fun r => (hf r).rises, fun w held hmap hrefs hw => ?_,
    fun w id c hc => ?_, fun w m key id hn hkey hout h => ?_⟩
  · rcases he : x w with ⟨e | r, w₁⟩
    · rw [bind_error he]
      exact hx.sound_of_eq he hmap hrefs hw
    · rw [bind_ok he]
      exact (hf r).sound w₁ held hmap hrefs (hx.sound_of_eq he hmap hrefs hw)
  · rcases he : x w with ⟨e | r, w₁⟩
    · rw [bind_error he]
      exact hx.callbacks_of_eq he hc
    · rw [bind_ok he]
      exact (hf r).callbacks w₁ id c (hx.callbacks_of_eq he hc)
  · have hs := hx.retains w m key id
    rcases he : x w with ⟨e | r, w₁⟩ <;> rw [he] at hs
    · rw [bind_error he] at hn ⊢
      exact hs hn hkey hout h
    · rw [bind_ok he] at hn ⊢
      have hrise := (hf r).rises w₁
      exact (hf r).retains w₁ m key id hn (Nat.lt_of_lt_of_le hkey (hx.rises.of_eq he)) hout
        (hs (Nat.le_trans hrise hn) hkey hout h)

/-- A smaller place, and fewer references. -/
theorem Upholds.mono {x : Act α} (hx : x.Upholds map refs a n) {more : List Ref} {b k : Nat}
    (hrefs : refs ⊆ more) (hb : b ≤ a) (hk : a + n ≤ b + k) : x.Upholds map more b k where
  rises := hx.rises
  sound := fun w held hmap hmore => hx.sound w held hmap fun _ h => hmore (hrefs h)
  callbacks := hx.callbacks
  retains := fun w m key id hn hkey hout => hx.retains w m key id hn hkey fun hm => by
    obtain ⟨hword, hkey'⟩ := hout hm
    unfold Outside at hkey' ⊢
    omega

/-- What keeps everything keeps what is outside of any place. -/
theorem Upholds.anywhere {x : Act α} (hx : x.Upholds map refs 0 0) : x.Upholds map refs a n where
  rises := hx.rises
  sound := hx.sound
  callbacks := hx.callbacks
  retains := fun w m key id hn hkey _ =>
    hx.retains w m key id hn hkey fun _ => ⟨Nat.zero_le _, Or.inr (Nat.zero_le _)⟩

theorem upholds_forM {l : List α} {f : α → Act PUnit} (hf : ∀ r ∈ l, (f r).Upholds map refs a n) :
    (l.forM f).Upholds map refs a n := by
  induction l with
  | nil => exact (inert_pure _).upholds (rises_pure _)
  | cons r rest ih =>
    exact (hf r List.mem_cons_self).bind fun _ => ih fun r' hr => hf r' (List.mem_cons_of_mem _ hr)

theorem upholds_refuse (f : Fault) : (refuse f : Act α).Upholds map refs a n :=
  (inert_refuse f).upholds fun _ => Nat.le_refl _

theorem upholds_ofOutcome (o : Outcome α) : (ofOutcome o).Upholds map refs a n :=
  (inert_ofOutcome o).upholds fun _ => Nat.le_refl _

end Act

/-! ## Function pointers -/

section

variable {w w' : World} {held : List Ref} {signature : Signature} {value : Value}

theorem callbacks_pointee {o : Outcome (Nat × Option Nat)}
    (h : pointee signature value w = (o, w')) {id : Nat} {c : Callback}
    (hc : w.callbacks[id]? = some c) : w'.callbacks[id]? = some c := by
  cases value with
  | proc closure =>
    rcases hm : makeCallback signature closure (.ok ()) w with ⟨e | i, w₁⟩
    · obtain ⟨-, rfl⟩ := Prod.mk.inj ((Act.bind_error hm).symm.trans h)
      exact World.getElem?_callbacks_makeCallback hm hc
    · have hsame := ((Act.inert_view _).bind fun _ => Act.inert_pure _).of_eq
        ((Act.bind_ok hm).symm.trans h)
      rw [hsame.callbacks]
      exact World.getElem?_callbacks_makeCallback hm hc
  | function f =>
    obtain ⟨-, rfl⟩ := Prod.mk.inj h
    exact hc
  | _ =>
    rw [(((Act.inert_ofChecked _).bind fun _ => Act.inert_pure _).of_eq h).callbacks]
    exact hc

/-- What is to be kept is alive. -/
theorem sound_pointee (hw : w.Sound held) (hrefs : value.refs ⊆ held)
    {o : Outcome (Nat × Option Nat)}
    (h : pointee signature value w = (o, w')) :
    w'.Sound held ∧ ∀ p, o = .ok p → w'.Sound (p.2.toList.map Ref.callback ++ held) := by
  cases value with
  | proc closure =>
    have hheld : w.isHeld held (.proc closure) = true :=
      World.isHeld_of_mem (hrefs (by simp [Value.refs]))
    rcases hm : makeCallback signature closure (.ok ()) w with ⟨e | i, w₁⟩
    · obtain ⟨rfl, rfl⟩ := Prod.mk.inj ((Act.bind_error hm).symm.trans h)
      exact ⟨hw.makeCallback_refused hm, fun p hp => by cases hp⟩
    · obtain ⟨rfl, rfl⟩ := Prod.mk.inj ((Act.bind_ok hm).symm.trans h)
      have hs := (hw.makeCallback hheld hm).1
      refine ⟨hs.mono (List.subset_cons_self ..), fun p hp => ?_⟩
      obtain rfl := Except.ok.inj hp
      exact hs
  | function f =>
    obtain ⟨rfl, rfl⟩ := Prod.mk.inj h
    refine ⟨hw, fun p hp => hw.mono fun r hr => ?_⟩
    obtain rfl := Except.ok.inj hp
    rcases List.mem_append.mp hr with hr | hr
    · refine hrefs ?_
      rw [Value.refs, Function.refs]
      exact List.mem_append_left _ hr
    · exact hr
  | _ =>
    have hsame := ((Act.inert_ofChecked _).bind fun _ => Act.inert_pure _).of_eq h
    refine ⟨hw.congr hsame, fun p hp => ?_⟩
    subst hp
    obtain ⟨address, w₁, -, hp⟩ := Act.bind_eq_ok.mp h
    obtain ⟨rfl, -⟩ := Act.pure_eq_ok.mp hp
    exact hw.congr hsame

theorem upholds_putFunction (v : View) (retention offset : Nat) (signature : Signature)
    (value : Value) : (putFunction v retention offset signature value).Upholds retention value.refs
      (v.address + offset) addressSize := by
  refine ⟨(spares_putFunction v retention offset signature value).rises,
    fun w held hmap hrefs hw => ?_, fun w id c hc => ?_, fun w m key id hn hkey hout h => ?_⟩
  · rcases hrun : putFunction v retention offset signature value w with ⟨o, w'⟩
    rcases putFunction_cases hrun with ⟨e, r, -, hp⟩ | ⟨p, w₁, w₂, hp, hwrite, -, rfl⟩
    · exact (sound_pointee hw hrefs hp).1
    · have hs := ((sound_pointee hw hrefs hp).2 p rfl).congr ((Act.inert_write _).of_eq hwrite)
      refine (hs.retain ?_ ?_ rfl).mono (List.subset_append_right ..)
      · exact World.isHeld_of_mem (List.mem_append_right _ hmap)
      · exact fun c hc => World.isHeld_of_mem
          (List.mem_append_left _ (List.mem_map_of_mem (Option.mem_toList.mpr hc)))
  · rcases hrun : putFunction v retention offset signature value w with ⟨o, w'⟩
    rcases putFunction_cases hrun with ⟨e, r, -, hp⟩ | ⟨p, w₁, w₂, hp, hwrite, -, rfl⟩
    · exact callbacks_pointee hp hc
    · rw [World.retain_eq, ((Act.inert_write _).of_eq hwrite).callbacks]
      exact callbacks_pointee hp hc
  · rcases hrun : putFunction v retention offset signature value w with ⟨o, w'⟩
    rcases putFunction_cases hrun with ⟨e, r, -, hp⟩ | ⟨p, w₁, w₂, hp, hwrite, -, rfl⟩
    · exact h.congr (maps_pointee hp).1
    · refine ((h.congr (maps_pointee hp).1).congr ((Act.inert_write _).maps hwrite).1).retain ?_
      -- the address of the slot is a word, and the key stands outside of the slot
      intro hm
      obtain ⟨hend, ho⟩ := hout hm
      have hsize : addressSize = 8 := rfl
      have hword : wrap (v.address + offset) = v.address + offset := Nat.mod_eq_of_lt (by omega)
      rw [hword]
      unfold Act.Outside at ho
      omega

end

/-! ## Arrays -/

/-- What happens inside a fresh buffer is kept for no old address. -/
theorem upholds_buffer {α : Type} {map size : Nat} {refs : List Ref} {f : View → Act α}
    (hf : ∀ staged : View, staged.size = size →
      (f staged).Upholds map refs staged.address size) :
    ((Act.make fun m => (m.allocateBuffer 1 size).outcome) >>= f).Upholds map refs 0 0 := by
  have hsame : ∀ {w w₁ : World} {staged : View},
      (Act.make fun m => (m.allocateBuffer 1 size).outcome) w = (.ok staged, w₁) →
        w.SameHoldings w₁ := fun he => (Act.inert_make _).of_eq he
  refine ⟨rises_buffer fun staged hs => (hf staged hs).rises,
    fun w held hmap hrefs hw => ?_, fun w id c hc => ?_,
    fun w m key id hn hkey _ h => ?_⟩
  · rcases makeBuffer_cases size w with ⟨e, he⟩ | ⟨staged, w₁, he, hl⟩
    · rw [Act.bind_error he]
      exact hw
    · rw [Act.bind_ok he]
      exact (hf staged hl.length).sound w₁ held hmap hrefs (hw.congr (hsame he))
  · rcases makeBuffer_cases size w with ⟨e, he⟩ | ⟨staged, w₁, he, hl⟩
    · rw [Act.bind_error he]
      exact hc
    · rw [Act.bind_ok he]
      exact (hf staged hl.length).callbacks w₁ id c (by rw [(hsame he).callbacks]; exact hc)
  · rcases makeBuffer_cases size w with ⟨e, he⟩ | ⟨staged, w₁, he, hl⟩
    · rw [Act.bind_error he]
      exact h
    · rw [Act.bind_ok he] at hn ⊢
      have hup := hf staged hl.length
      have hword := hl.word (Nat.le_trans (hup.rises w₁) hn)
      exact hup.retains w₁ m key id hn (Nat.lt_of_lt_of_le hkey hl.next)
        (fun _ => ⟨hword, hl.outside (Or.inl hkey)⟩) (h.congr (hsame he).retentions)

theorem upholds_putStaged {map : Nat} {refs : List Ref} (v : View) (offset size : Nat)
    {fill : View → Act Unit} (hf : ∀ staged : View, staged.size = size →
      (fill staged).Upholds map refs staged.address size) :
    (putStaged v offset size fill).Upholds map refs 0 0 := by
  unfold putStaged
  rw [stage_bind_eq]
  refine upholds_buffer fun staged hs => (Act.upholds_ofOutcome _).bind fun field => ?_
  have hcopy : ∀ (dst src : View) (o : Nat),
      (Act.write fun m => m.copy dst o src size).Upholds map refs staged.address size :=
    fun dst src o => (Act.inert_write _).upholds (dst.spares_copy o src size).rises
  exact (hcopy staged field 0).bind fun _ => (hf staged hs).bind fun _ => hcopy v staged offset

/-- Items that are each put in their own part of a block. -/
theorem upholds_putItems {map length b size : Nat} {putItem : Nat → Value → Act Unit}
    (hp : ∀ i < length, ∀ x, (putItem i x).Upholds map x.refs (b + i * size) size)
    (value : Value) : (putItems length putItem value).Upholds map value.refs b (size * length) := by
  unfold putItems
  split
  next items =>
    split
    · rw [Act.refuse_bind]
      exact Act.upholds_refuse _
    next hlen =>
      refine Act.upholds_forM fun r hr => ?_
      have hi : r.2 < length := by
        have := List.mem_zipIdx hr
        omega
      have hrefs : r.1.refs ⊆ (Value.array items).refs := by
        intro ref href
        rw [Value.refs]
        exact List.mem_flatMap.mpr ⟨r.1, List.fst_mem_of_mem_zipIdx hr, href⟩
      refine (hp r.2 hi r.1).mono hrefs (Nat.le_add_right ..) ?_
      have hle : r.2 * size + size ≤ size * length := element_le hi
      omega
  · exact Act.upholds_refuse _

/-- The bytes of the function pointer that a type is, if it is one. -/
def Ty.pointerBytes : Ty → Nat
  | .callback _ => addressSize
  | _ => 0

theorem Ty.pointerBytes_le (t : Ty) : t.pointerBytes ≤ t.size := by
  cases t <;> simp [pointerBytes, size]

/-- An item that is put where the element of its index stands. -/
theorem upholds_putElement {retention : Nat} (staged : View) (c : Ty) (i : Nat) (x : Value)
    (hc : ∀ o, (c.putField staged retention o x).Upholds retention x.refs (staged.address + o)
      c.pointerBytes) :
    Act.Upholds (do
      let o ← Act.ofChecked (elementOffset staged 0 c i)
      c.putField staged retention o x) retention x.refs (staged.address + i * c.size) c.size := by
  cases ho : elementOffset staged 0 c i with
  | error f => exact Act.upholds_refuse _
  | ok o =>
    obtain rfl := elementOffset_eq_ok ho
    have hle := c.pointerBytes_le
    exact (hc (i * c.size + 0)).mono (List.Subset.refl _) (Nat.le_refl _) (by omega)

/-- A put leaves in place what everything but the function pointer that is put relies on. -/
theorem Ty.upholds_putField (retention : Nat) :
    ∀ (t : Ty) (v : View) (offset : Nat) (value : Value),
      (t.putField v retention offset value).Upholds retention value.refs (v.address + offset)
        t.pointerBytes
  | .callback signature, v, offset, value =>
    upholds_putFunction v retention offset signature value
  | .array c n, v, offset, value => by
    refine Act.Upholds.anywhere (upholds_putStaged v offset _ fun staged _ => ?_)
    exact upholds_putItems (fun i _ x => upholds_putElement staged c i x fun o =>
      c.upholds_putField retention staged o x) value
  | .struct layout, v, offset, value =>
    ((Ty.struct layout).inert_putField retention v offset value (by cases value <;> rfl)).upholds
      ((Ty.struct layout).spares_putField retention v offset value).rises
  | .builtin b, v, offset, value =>
    ((Ty.builtin b).inert_putField retention v offset value (by cases value <;> rfl)).upholds
      ((Ty.builtin b).spares_putField retention v offset value).rises
  | .charArray n, v, offset, value =>
    ((Ty.charArray n).inert_putField retention v offset value (by cases value <;> rfl)).upholds
      ((Ty.charArray n).spares_putField retention v offset value).rises
  | .enumeration table, v, offset, value =>
    ((Ty.enumeration table).inert_putField retention v offset value
      (by cases value <;> rfl)).upholds
      ((Ty.enumeration table).spares_putField retention v offset value).rises

/-! ## Bytes that a put is given nothing for -/

/-- A byte of a type, counted from its first one, for which a value is given. Of an array these are
bytes of the items that are given. -/
def Ty.Overwrites : Ty → Value → Nat → Prop
  | .array c _, .array items, j =>
    ∃ i x, items[i]? = some x ∧ i * c.size ≤ j ∧ c.Overwrites x (j - i * c.size)
  | t, _, j => j < t.size

theorem Ty.overwrites_pointer (t : Ty) (value : Value) {j : Nat} (h : j < t.pointerBytes) :
    t.Overwrites value j := by
  cases t with
  | callback signature => cases value <;> exact h
  | _ => exact absurd h (Nat.not_lt_zero j)

/-- A place of old bytes is given nothing by items that are put one after another. -/
theorem get_forM {c : Ty} {put : Nat → Value → Act Unit} (hrises : ∀ i x, (put i x).Rises)
    {a b n : Nat} (items : List Value)
    (hput : ∀ i < n, ∀ (x : Value) (w w' : World), put i x w = (.ok (), w') →
      w'.memory.heap.next ≤ wordLimit → b < w.memory.heap.next →
      (a + i * c.size ≤ b → ¬ c.Overwrites x (b - (a + i * c.size))) →
      w'.memory.heap.get b = w.memory.heap.get b) {k : Nat} (hk : k + items.length ≤ n)
    {w w' : World} (h : ((items.zipIdx k).forM fun (x, i) => put i x) w = (.ok (), w'))
    (hn : w'.memory.heap.next ≤ wordLimit) (hb : b < w.memory.heap.next)
    (hkeep : ∀ i x, items[i]? = some x → a + (k + i) * c.size ≤ b →
      ¬ c.Overwrites x (b - (a + (k + i) * c.size))) :
    w'.memory.heap.get b = w.memory.heap.get b := by
  induction items generalizing k w with
  | nil =>
    obtain ⟨-, rfl⟩ := Act.pure_eq_ok.mp h
    rfl
  | cons item rest ih =>
    rw [List.length_cons] at hk
    obtain ⟨⟨⟩, w₁, h₁, h₂⟩ := Act.bind_eq_ok.mp h
    have hrise₁ := (hrises k item).of_eq h₁
    have hrise₂ := (Act.rises_forM (l := rest.zipIdx (k + 1)) fun a => hrises a.2 a.1).of_eq h₂
    have hfirst := hput k (by omega) item w w₁ h₁ (Nat.le_trans hrise₂ hn) hb
      (hkeep 0 item List.getElem?_cons_zero)
    rw [← hfirst]
    refine ih (by omega) h₂ (Nat.lt_of_lt_of_le hb hrise₁) fun i x hx => ?_
    have hk' : k + 1 + i = k + (i + 1) := by omega
    rw [hk']
    exact hkeep (i + 1) x (by rw [List.getElem?_cons_succ]; exact hx)

/-- A put that succeeds leaves alone every old byte that it is given nothing for. -/
def Ty.KeepsRest (t : Ty) (retention : Nat) : Prop :=
  ∀ (v : View) (offset : Nat) (value : Value) {w w' : World} {b : Nat},
    t.putField v retention offset value w = (.ok (), w') →
    v.address + offset + t.size ≤ wordLimit → w'.memory.heap.next ≤ wordLimit →
    b < w.memory.heap.next →
    (v.address + offset ≤ b → ¬ t.Overwrites value (b - (v.address + offset))) →
    w'.memory.heap.get b = w.memory.heap.get b

section

variable {retention n : Nat} {c t : Ty}

/-- There is no byte of a field for which its value gives nothing, unless it is an array. -/
theorem Ty.keepsRest_whole (hall : ∀ (value : Value) (j : Nat), j < t.size → t.Overwrites value j) :
    t.KeepsRest retention := by
  intro v offset value w w' b h hword hn hb hkeep
  refine (t.spares_putField retention v offset value).of_eq hword h hn b (Or.inl hb) ?_
  by_cases hlow : v.address + offset ≤ b
  · have hhigh : ¬ b - (v.address + offset) < t.size := fun hj => hkeep hlow (hall value _ hj)
    exact Or.inr (by omega)
  · exact Or.inl (by omega)

/-- Putting an element of an array. -/
theorem Ty.KeepsRest.get_element (hc : c.KeepsRest retention) {staged : View}
    (hplace : staged.address + c.size * n ≤ wordLimit) {i : Nat} (hi : i < n) {x : Value}
    {w w' : World} {b : Nat}
    (h : (do
      let o ← Act.ofChecked (elementOffset staged 0 c i)
      c.putField staged retention o x) w = (.ok (), w'))
    (hn : w'.memory.heap.next ≤ wordLimit) (hb : b < w.memory.heap.next)
    (hkeep : staged.address + i * c.size ≤ b →
      ¬ c.Overwrites x (b - (staged.address + i * c.size))) :
    w'.memory.heap.get b = w.memory.heap.get b := by
  obtain ⟨o, w₁, hoff, hfield⟩ := Act.bind_eq_ok.mp h
  obtain ⟨ho, rfl⟩ := Act.ofChecked_eq_ok.mp hoff
  obtain rfl := elementOffset_eq_ok ho
  have hmul : i * c.size + c.size ≤ c.size * n := element_le hi
  exact hc staged (i * c.size + 0) x hfield (by omega) hn hb hkeep

/-- A byte of an array that none of the items is given for is read into the scratch buffer and
copied back. -/
theorem Ty.KeepsRest.array (hc : c.KeepsRest retention) : (Ty.array c n).KeepsRest retention := by
  intro v offset value w w' b h hword hn hb hkeep
  by_cases hin : v.address + offset ≤ b ∧ b < v.address + offset + (Ty.array c n).size
  · obtain ⟨staged, w₁, w₂, -, hst, hfill, -, hn₂, hback, -⟩ := putStaged_eq_ok
      (fun staged => (spares_fillItems retention n (c.spares_putField retention) staged
        value).rises) h hword hn
    obtain ⟨items, rfl, hlen, hforM⟩ := putItems_eq_ok hfill
    obtain ⟨j, rfl⟩ := Nat.exists_eq_add_of_le hin.1
    have hj : j < c.size * n := by
      have hlt := hin.2
      rw [size] at hlt
      omega
    have hkeep' := hkeep hin.1
    rw [Nat.add_sub_cancel_left, Overwrites] at hkeep'
    rw [hback j hj, ← hst.bytes j hj]
    -- in the scratch buffer, too, no item is given for the byte
    refine get_forM (fun i x => ?_) items (fun i hi x wa wb => hc.get_element hst.word hi)
      (Nat.zero_add _ ▸ hlen) hforM hn₂ (hst.fresh _ (by omega) (by omega)).2 ?_
    · exact (spares_putElement retention staged c i x fun o =>
        c.spares_putField retention staged o x).rises
    · intro i x hx hle hover
      rw [Nat.zero_add] at hle hover
      refine hkeep' ⟨i, x, hx, by omega, ?_⟩
      have hsub : staged.address + j - (staged.address + i * c.size) = j - i * c.size := by omega
      rw [← hsub]
      exact hover
  · refine ((Ty.array c n).spares_putField retention v offset value).of_eq hword h hn b
      (Or.inl hb) ?_
    unfold Act.Outside
    omega

end

theorem Ty.keepsRest (retention : Nat) : ∀ t : Ty, t.KeepsRest retention
  | .array c _ => (c.keepsRest retention).array
  | .builtin _ => keepsRest_whole fun value _ hj => by cases value <;> exact hj
  | .struct _ => keepsRest_whole fun value _ hj => by cases value <;> exact hj
  | .charArray _ => keepsRest_whole fun value _ hj => by cases value <;> exact hj
  | .enumeration _ => keepsRest_whole fun value _ hj => by cases value <;> exact hj
  | .callback _ => keepsRest_whole fun value _ hj => by cases value <;> exact hj

/-! ## Writes through a struct -/

/-- Clearing a struct changes no bytes but its own. -/
theorem Instance.spares_clear (n : Instance) : n.clear.Spares n.address n.size := by
  unfold clear
  cases hs : n.view.slice 0 n.size with
  | error e => exact (Act.quiet_ofOutcome (.error e : Outcome Unit)).spares
  | ok whole =>
    obtain ⟨rfl, -⟩ := View.slice_eq_ok hs
    change Act.Spares (pure (n.view.derive n.view.address n.size) >>= _) n.address n.size
    rw [pure_bind]
    refine Act.Spares.bind (n.view.derive n.view.address n.size).spares_clear fun _ => ?_
    refine (Act.quiet_ofOutcome _).spares.bind fun stop =>
      (Act.quiet_view _).spares.bind fun _ => ?_
    exact (Act.quiet_of_memory_eq fun _ => rfl).spares

/-- Clearing a struct gives up what is kept for its own bytes. -/
theorem Instance.upholds_clear (n : Instance) :
    n.clear.Upholds n.retention [] n.address n.size := by
  refine ⟨n.spares_clear.rises, fun w held hmap _ hw => ?_, fun w id c hc => ?_,
    fun w m key id _ _ hout h => ?_⟩
  · rcases hrun : n.clear w with ⟨o, w'⟩
    exact hw.clear (World.isHeld_of_mem hmap) hrun
  · rcases World.clear_cases n w with ⟨o, memory, he⟩ | ⟨o, memory, inside, he⟩ <;> rw [he] <;>
      exact hc
  · rcases hrun : n.clear w with ⟨o, w'⟩
    obtain ⟨r, hr, hmem⟩ := h
    rcases Instance.clear_outcome hrun with ⟨e, -, hmaps, -⟩ | ⟨-, hex⟩
    · exact ⟨r, by rw [hmaps]; exact hr, hmem⟩
    by_cases hm : m = n.retention
    · have hkey := (hout hm).2
      unfold Act.Outside at hkey
      rw [hm] at hr ⊢
      refine ⟨_, by rw [hex.map, hr]; rfl, List.mem_append_left _ (List.mem_filter.mpr ⟨hmem, ?_⟩)⟩
      simp only [Bool.not_eq_true', Bool.and_eq_false_iff, decide_eq_false_iff_not]
      omega
    · exact ⟨r, (hex.others m hm).trans hr, hmem⟩

namespace StructWrite

/-- A byte for which a write is given something, or which it makes zero. -/
inductive Overwrites : StructWrite → Nat → Prop where
  | put {op : StructWrite} {t : Ty} {v : View} {retention offset b : Nat} {value : Value}
      (h : op.Puts t v retention offset value) (hle : v.address + offset ≤ b)
      (hb : t.Overwrites value (b - (v.address + offset))) : Overwrites op b
  | clear {n : Instance} {b : Nat} (hle : n.address ≤ b) (hlt : b < n.address + n.size) :
      Overwrites (.clear n) b

variable {op : StructWrite} {s : Instance}

/-- A write leaves in place what everything relies on but a function pointer that it overwrites. -/
theorem upholds_run (op : StructWrite) : ∃ a n, op.run.Upholds op.map op.refs a n ∧
    (∀ b, ¬ op.Overwrites b → Act.Outside a n b) ∧
    ∀ s : Instance, Ty.Built (.struct s.layout) → op.Through s → a + n ≤ s.address + s.size := by
  rcases op.run_cases with ⟨n, rfl⟩ | ⟨f, hrun⟩ | ⟨t, v, retention, offset, value, hputs, hrun⟩
  · refine ⟨n.address, n.size, n.upholds_clear, fun b hb => ?_, fun s hbuilt hop => ?_⟩
    · by_cases hle : n.address ≤ b
      · exact Or.inr (Nat.le_of_not_lt fun hlt => hb (.clear hle hlt))
      · exact Or.inl (Nat.lt_of_not_le hle)
    · exact (Instance.Nested.inside hbuilt hop).2
  · rw [hrun]
    exact ⟨0, 0, Act.upholds_refuse f, fun b _ => Or.inr (Nat.zero_le b),
      fun _ _ _ => Nat.zero_le _⟩
  · obtain ⟨hmap, hrefs⟩ := hputs.map_eq
    rw [hrun, hmap, hrefs]
    refine ⟨_, _, t.upholds_putField retention v offset value, fun b hb => ?_,
      fun s hbuilt hop => ?_⟩
    · by_cases hle : v.address + offset ≤ b
      · exact Or.inr (Nat.le_of_not_lt fun hlt =>
          hb (.put hputs hle (t.overwrites_pointer value (by omega))))
      · exact Or.inl (Nat.lt_of_not_le hle)
    · exact Nat.le_trans (Nat.add_le_add_left t.pointerBytes_le _) (hputs.inside hbuilt hop).2

theorem rises_run (op : StructWrite) : op.run.Rises := by
  obtain ⟨a, n, hup, -⟩ := op.upholds_run
  exact hup.rises

/-- A write that succeeds leaves alone every old byte that it does not overwrite. -/
theorem get_run (hbuilt : Ty.Built (.struct s.layout)) (hop : op.Through s)
    (hend : s.address + s.size ≤ wordLimit) {w w' : World} (h : op.run w = (.ok (), w'))
    (hn : w'.memory.heap.next ≤ wordLimit) {b : Nat} (hb : b < w.memory.heap.next)
    (hkeep : ¬ op.Overwrites b) : w'.memory.heap.get b = w.memory.heap.get b := by
  rcases op.run_cases with ⟨n, rfl⟩ | ⟨f, hrun⟩ | ⟨t, v, retention, offset, value, hputs, hrun⟩
  · have hin := Instance.Nested.inside hbuilt hop
    refine n.spares_clear.of_eq (Nat.le_trans hin.2 hend) h hn b (Or.inl hb) ?_
    by_cases hle : n.address ≤ b
    · exact Or.inr (Nat.le_of_not_lt fun hlt => hkeep (.clear hle hlt))
    · exact Or.inl (Nat.lt_of_not_le hle)
  · rw [hrun] at h
    exact absurd h Act.refuse_ne_ok
  · rw [hrun] at h
    have hin := (hputs.inside hbuilt hop).2
    exact t.keepsRest retention v offset value h (Nat.le_trans hin hend) hn hb
      fun hle hover => hkeep (.put hputs hle hover)

end StructWrite

end ForeignCall
