import ForeignCall.Proofs.Callback.Run
import ForeignCall.Proofs.Struct.Slots

/-!
# What a struct keeps

A struct keeps a callback for each of its function pointers that was last given a closure, or a
function that a callback keeps alive, and for no other (`Instance.retained_eq_countP`), as long as
every function pointer is put by itself. An array that is put as a whole is filled in a scratch
buffer, and what is kept for its items is kept under the addresses they had there:
`Instance.retained_filled` is a struct that keeps such a callback when it has been cleared.
-/

namespace ForeignCall

/-! ## Values for function pointers -/

/-- Whether a value has to be kept as long as its address is stored. -/
def Value.isKept : Value → Bool
  | .proc _ => true
  | .function f => f.callback.isSome
  | _ => false

/-- The function pointer that a type is at an address, if it is one. -/
def Ty.slotAt (a : Nat) : Ty → Option Nat
  | .callback _ => some a
  | _ => none

/-- Whether a value that is put into a type is put into function pointers, by itself or as items of
an array. -/
def Ty.carries : Ty → Value → Bool
  | .callback _, _ => true
  | .array c _, .array items => items.any fun x => c.carries x
  | _, _ => false

/-- A value brings no function pointers with it, or is put into one by itself. -/
def Ty.Singly (t : Ty) (value : Value) : Prop :=
  (∃ signature, t = .callback signature) ∨ t.carries value = false

/-! ## Operations that keep nothing -/

namespace Act

variable {α β : Type}

/-- An operation that compiles nothing, keeps nothing and gives nothing up. -/
def Inert (x : Act α) : Prop := ∀ w : World, w.SameHoldings (x w).2

theorem Inert.of_eq {x : Act α} (hx : x.Inert) {w w' : World} {o : Outcome α} (h : x w = (o, w')) :
    w.SameHoldings w' := by
  have hi := hx w
  rw [h] at hi
  exact hi

theorem Inert.maps {x : Act α} (hx : x.Inert) {w w' : World} {o : Outcome α} (h : x w = (o, w')) :
    w'.retentions = w.retentions ∧ w'.dropped = w.dropped :=
  ⟨(hx.of_eq h).retentions, (hx.of_eq h).dropped⟩

theorem Inert.bind {x : Act α} {f : α → Act β} (hx : x.Inert) (hf : ∀ a, (f a).Inert) :
    (x >>= f).Inert := by
  intro w
  rcases h : x w with ⟨e | a, w'⟩
  · rw [bind_error h]
    exact hx.of_eq h
  · rw [bind_ok h]
    exact (hx.of_eq h).trans (hf a w')

theorem inert_pure (a : α) : (pure a : Act α).Inert := World.SameHoldings.refl

theorem inert_refuse (f : Fault) : (refuse f : Act α).Inert := World.SameHoldings.refl

theorem inert_ofOutcome (o : Outcome α) : (ofOutcome o).Inert := World.SameHoldings.refl

theorem inert_ofChecked (c : Checked α) : (ofChecked c).Inert := World.SameHoldings.refl

theorem inert_view (f : World → α) : (view f).Inert := World.SameHoldings.refl

theorem inert_write (f : Memory → Checked Memory) : (write f).Inert := by
  intro w
  unfold write
  split <;> exact ⟨⟨rfl, rfl, rfl⟩, rfl, rfl, rfl⟩

theorem inert_make (f : Memory → Outcome (α × Memory)) : (make f).Inert := by
  intro w
  unfold make
  split <;> exact ⟨⟨rfl, rfl, rfl⟩, rfl, rfl, rfl⟩

theorem inert_forM {l : List α} {f : α → Act PUnit} (hf : ∀ a ∈ l, (f a).Inert) :
    (l.forM f).Inert := by
  induction l with
  | nil => exact inert_pure _
  | cons a rest ih =>
    exact (hf a List.mem_cons_self).bind fun _ => ih fun b hb => hf b (List.mem_cons_of_mem _ hb)

end Act

theorem inert_viewPut (v : View) (b : Builtin) (offset : Nat) (value : Value) :
    (v.put (.builtin b) offset value).Inert := by
  cases b with
  | int k => exact (Act.inert_ofChecked _).bind fun _ => Act.inert_write _
  | float k => exact (Act.inert_ofChecked _).bind fun _ => Act.inert_write _
  | bool => exact (Act.inert_ofChecked _).bind fun _ => Act.inert_write _
  | pointer r => exact (Act.inert_ofChecked _).bind fun _ => Act.inert_write _
  | string =>
    cases value with
    | str id => exact Act.inert_refuse _
    | _ => exact (Act.inert_ofChecked _).bind fun _ => Act.inert_write _
  | void => exact Act.inert_refuse _
  | varargs => exact Act.inert_refuse _

theorem inert_stage (v : View) (offset size : Nat) : (stage v offset size).Inert :=
  (Act.inert_make _).bind fun _ => (Act.inert_ofOutcome _).bind fun _ =>
    (Act.inert_write _).bind fun _ => Act.inert_pure _

theorem inert_putStaged (v : View) (offset size : Nat) {fill : View → Act Unit}
    (hf : ∀ staged, (fill staged).Inert) : (putStaged v offset size fill).Inert :=
  (inert_stage v offset size).bind fun staged => (hf staged).bind fun _ => Act.inert_write _

theorem inert_putItems (length : Nat) {putItem : Nat → Value → Act Unit} {value : Value}
    (hp : ∀ items, value = .array items → ∀ x ∈ items, ∀ i, (putItem i x).Inert) :
    (putItems length putItem value).Inert := by
  unfold putItems
  split
  next items =>
    split
    · rw [Act.refuse_bind]
      exact Act.inert_refuse _
    · exact Act.inert_forM fun a ha => hp items rfl a.1 (List.fst_mem_of_mem_zipIdx ha) a.2
  · exact Act.inert_refuse _

/-- Nothing is kept for a value that brings no function pointers with it, however putting it
ends. -/
theorem Ty.inert_putField (retention : Nat) : ∀ (t : Ty) (v : View) (offset : Nat) (value : Value),
    t.carries value = false → (t.putField v retention offset value).Inert
  | .builtin b, v, offset, value, _ => by
    cases b with
    | string =>
      cases value with
      | str id => exact Act.inert_refuse _
      | _ => exact (Act.inert_ofChecked _).bind fun _ => Act.inert_write _
    | _ => exact inert_viewPut v _ offset value
  | .array c n, v, offset, value, h =>
    inert_putStaged v offset _ fun staged => inert_putItems n fun items hv x hx i => by
      subst hv
      have hcarries : c.carries x = false := by
        rw [carries, List.any_eq_false] at h
        simpa using h x hx
      exact (Act.inert_ofChecked _).bind fun o => c.inert_putField retention staged o x hcarries
  | .charArray n, v, offset, value, _ =>
    inert_putStaged v offset n fun staged => by
      split
      · refine (Act.inert_view _).bind fun bytes => ?_
        dsimp only
        split
        · rw [Act.refuse_bind]
          exact Act.inert_refuse _
        · exact (Act.inert_write _).bind fun _ => Act.inert_write _
      · exact inert_putItems n fun _ _ x _ i => inert_viewPut staged _ i x
  | .struct layout, v, offset, value, _ => by
    show (putStruct v offset layout value).Inert
    unfold putStruct
    split
    · split
      · exact Act.inert_write _
      · exact Act.inert_refuse _
    · exact Act.inert_refuse _
  | .enumeration _, v, offset, value, _ => (Act.inert_ofChecked _).bind fun _ => Act.inert_write _
  | .callback signature, v, offset, value, h => by cases h

/-! ## Maps -/

namespace Retention

/-- A map has an entry for each of some slots and for no others, and one only. -/
structure Covers (r : Retention) (slots : List Nat) (last : Nat → Bool) : Prop where
  nodup : (r.map Prod.fst).Nodup
  mem : ∀ p, p ∈ r.map Prod.fst ↔ p ∈ slots ∧ last p = true

variable {r : Retention} {slots : List Nat} {last : Nat → Bool}

theorem covers_nil : Covers [] slots fun _ => false := ⟨List.nodup_nil, by simp⟩

/-- The slots of a map are as many as its entries. -/
theorem Covers.length_eq (h : r.Covers slots last) (hs : slots.Nodup) :
    r.length = slots.countP last := by
  have hp : (r.map Prod.fst).Perm (slots.filter last) := by
    refine (List.perm_ext_iff_of_nodup h.nodup (hs.filter _)).mpr fun p => ?_
    rw [h.mem p, List.mem_filter]
  rw [List.countP_eq_length_filter, ← hp.length_eq, List.length_map]

theorem keys_filter (q : Nat → Bool) :
    (r.filter fun e => q e.1).map Prod.fst = (r.map Prod.fst).filter q := by
  rw [List.filter_map]
  rfl

/-- Some entries are given up, and one may be made anew. -/
theorem Covers.release (h : r.Covers slots last) (q : Nat → Bool) {new : Retention}
    {p? : Option Nat}
    (hnew : new.map Prod.fst = p?.toList) (hp : ∀ p ∈ p?, p ∈ slots ∧ q p = true) :
    Covers (r.filter (fun e => !q e.1) ++ new) slots
      fun p => p? == some p || (last p && !q p) := by
  have hkeys : (r.filter (fun e => !q e.1) ++ new).map Prod.fst =
      (r.map Prod.fst).filter (fun p => !q p) ++ p?.toList := by
    rw [List.map_append, keys_filter (q := fun p => !q p), hnew]
  constructor
  · rw [hkeys, List.nodup_append]
    refine ⟨h.nodup.filter _, by cases p? <;> simp, fun a ha b hb hab => ?_⟩
    -- the slot of the new entry is among those that are given up
    have hq := (hp b (Option.mem_toList.mp hb)).2
    rw [← hab] at hq
    simp [hq] at ha
  · intro p
    rw [hkeys, List.mem_append, List.mem_filter, h.mem, Option.mem_toList]
    cases p? with
    | none => simp [and_assoc]
    | some p' =>
      have hslot := (hp p' rfl).1
      simp only [Option.some.injEq, Option.some_beq_some, Bool.or_eq_true,
        beq_iff_eq, Bool.and_eq_true]
      constructor
      · rintro (⟨⟨hm, hl⟩, hq⟩ | rfl)
        · exact ⟨hm, Or.inr ⟨hl, hq⟩⟩
        · exact ⟨hslot, Or.inl rfl⟩
      · rintro ⟨hm, rfl | ⟨hl, hq⟩⟩
        · exact Or.inr rfl
        · exact Or.inl ⟨⟨hm, hl⟩, hq⟩

theorem set_eq (address : Nat) (callback : Option Nat) :
    r.set address callback =
      r.filter (fun e => !(e.1 == address)) ++ (callback.map fun id => (address, id)).toList := by
  cases callback with
  | none => exact (List.append_nil _).symm
  | some id => rfl

/-- With one entry for each address, what is kept for an address is all that is found for it. -/
theorem find?_toList (h : (r.map Prod.fst).Nodup) (address : Nat) :
    (r.find? address).toList.map Ref.callback =
      (r.filter fun e => e.1 == address).map fun e => Ref.callback e.2 := by
  induction r with
  | nil => rfl
  | cons e rest ih =>
    obtain ⟨key, id⟩ := e
    rw [List.map_cons, List.nodup_cons] at h
    unfold find? at ih ⊢
    by_cases hk : key = address
    · subst hk
      have hnone : rest.filter (fun e => e.1 == key) = [] := by
        refine List.filter_eq_nil_iff.mpr fun e he hek => h.1 ?_
        have hmem : e.1 ∈ rest.map Prod.fst := List.mem_map_of_mem he
        rwa [beq_iff_eq.mp hek] at hmem
      simp [hnone]
    · have hk' : (address == key) = false := beq_eq_false_iff_ne.mpr fun he => hk he.symm
      simp [List.lookup_cons, hk', hk, ih h.2]

end Retention

/-! ## Single writes -/

/-- Compiling leaves the maps alone, and gives nothing up. -/
theorem maps_makeCallback {signature : Signature} {closure : Nat} {prepared : Checked Unit}
    {w w' : World} {o : Outcome Nat} (h : makeCallback signature closure prepared w = (o, w')) :
    w'.retentions = w.retentions ∧ w'.dropped = w.dropped := by
  obtain ⟨pool, callbacks, closures, hs⟩ := makeCallback_snd signature closure prepared w
  rw [h] at hs
  subst hs
  exact ⟨rfl, rfl⟩

theorem maps_pointee {signature : Signature} {value : Value} {w w' : World}
    {o : Outcome (Nat × Option Nat)} (h : pointee signature value w = (o, w')) :
    w'.retentions = w.retentions ∧ w'.dropped = w.dropped := by
  cases value with
  | proc closure =>
    have hrest : ∀ id, Act.Inert (do
        let address ← Act.view fun w => w.callbackAddress id
        pure (address, some id)) := fun _ => (Act.inert_view _).bind fun _ => Act.inert_pure _
    rcases hm : makeCallback signature closure (.ok ()) w with ⟨e | id, w₁⟩
    · obtain ⟨-, rfl⟩ := Prod.mk.inj ((Act.bind_error hm).symm.trans h)
      exact maps_makeCallback hm
    · have hsame := (hrest id).of_eq ((Act.bind_ok hm).symm.trans h)
      rw [hsame.retentions, hsame.dropped]
      exact maps_makeCallback hm
  | function f =>
    obtain ⟨-, rfl⟩ := Prod.mk.inj h
    exact ⟨rfl, rfl⟩
  | _ =>
    exact ((Act.inert_ofChecked _).bind fun _ => Act.inert_pure _).maps h

theorem pointee_eq_ok {signature : Signature} {value : Value} {w w' : World} {p : Nat × Option Nat}
    (h : pointee signature value w = (.ok p, w')) : p.2.isSome = value.isKept := by
  cases value with
  | proc closure =>
    obtain ⟨id, w₁, -, h⟩ := Act.bind_eq_ok.mp h
    obtain ⟨address, w₂, -, h⟩ := Act.bind_eq_ok.mp h
    obtain ⟨rfl, -⟩ := Act.pure_eq_ok.mp h
    rfl
  | function f =>
    obtain ⟨rfl, -⟩ := Act.pure_eq_ok.mp h
    rfl
  | _ =>
    obtain ⟨address, w₁, -, h⟩ := Act.bind_eq_ok.mp h
    obtain ⟨rfl, -⟩ := Act.pure_eq_ok.mp h
    rfl

/-- One map with some entries given up and new ones made, apart from which the maps and what has
been given up are as they were. -/
structure World.Exchanges (w w' : World) (id : Nat) (released : Nat → Bool) (new : Retention) :
    Prop where
  map : w'.retentions[id]? =
    w.retentions[id]?.map fun r => r.filter (fun e => !released e.1) ++ new
  others : ∀ other, other ≠ id → w'.retentions[other]? = w.retentions[other]?
  dropped : w'.dropped = w.dropped ++
    ((w.retentions[id]?.getD []).filter fun e => released e.1).map fun e => Ref.callback e.2

/-- A function pointer that is put gives up what was kept for it, and may be kept anew. A put that
fails keeps nothing and gives nothing up. -/
theorem putFunction_outcome {v : View} {retention offset : Nat} {signature : Signature}
    {value : Value} {w w' : World} {o : Outcome Unit}
    (hn : ∀ r ∈ w.retentions[retention]?, (r.map Prod.fst).Nodup)
    (h : putFunction v retention offset signature value w = (o, w')) :
    (∃ e, o = .error e ∧ w'.retentions = w.retentions ∧ w'.dropped = w.dropped) ∨
      ∃ new : Retention, o = .ok () ∧
        new.map Prod.fst = (if value.isKept then [wrap (v.address + offset)] else []) ∧
        w.Exchanges w' retention (fun p => p == wrap (v.address + offset)) new := by
  rcases putFunction_cases h with ⟨e, r, rfl, hp⟩ | ⟨⟨address, callback⟩, w₁, w₂, hp, hw, rfl, rfl⟩
  · exact Or.inl ⟨e, rfl, maps_pointee hp⟩
  · obtain ⟨hr₁, hd₁⟩ := maps_pointee hp
    obtain ⟨hr₂, hd₂⟩ := (Act.inert_write _).maps hw
    rw [World.retain_eq, hr₂, hr₁, hd₂, hd₁]
    refine Or.inr
      ⟨(callback.map fun id => (wrap (v.address + offset), id)).toList, rfl, ?_, ?_, ?_, ?_⟩
    · have hkept : callback.isSome = value.isKept := pointee_eq_ok hp
      rw [← hkept]
      cases callback <;> rfl
    · simp only [Array.getElem?_modify, if_true, Retention.set_eq]
    · intro other hne
      rw [Array.getElem?_modify, if_neg (Ne.symm hne)]
    · cases hm : w.retentions[retention]? with
      | none => simp
      | some r => exact congrArg (w.dropped ++ ·) (Retention.find?_toList (hn r hm) _)

/-- A struct that is cleared gives up what is kept for its own bytes. -/
theorem Instance.clear_outcome {n : Instance} {w w' : World} {o : Outcome Unit}
    (h : n.clear w = (o, w')) :
    (∃ e, o = .error e ∧ w'.retentions = w.retentions ∧ w'.dropped = w.dropped) ∨
      o = .ok () ∧ w.Exchanges w' n.retention
        (fun p => decide (n.address ≤ p) && decide (p < n.address + n.size)) [] := by
  unfold clear at h
  rcases hs : Act.ofOutcome (n.view.slice 0 n.size) w with ⟨e | whole, w₁⟩
  · rw [Act.bind_error hs, Prod.mk.injEq] at h
    obtain ⟨rfl, rfl⟩ := h
    exact Or.inl ⟨e, rfl, (Act.inert_ofOutcome _).maps hs⟩
  obtain rfl : w = w₁ := congrArg Prod.snd hs
  rw [Act.bind_ok hs] at h
  rcases hw : Act.write (fun m => m.clear whole) w with ⟨e | ⟨⟩, w₂⟩
  · rw [Act.bind_error hw, Prod.mk.injEq] at h
    obtain ⟨rfl, rfl⟩ := h
    exact Or.inl ⟨e, rfl, (Act.inert_write _).maps hw⟩
  obtain ⟨hr, hd⟩ := (Act.inert_write _).maps hw
  rw [Act.bind_ok hw] at h
  cases hstop : addWords n.address n.size with
  | none =>
    rw [hstop] at h
    obtain ⟨rfl, rfl⟩ := Prod.mk.inj h
    exact Or.inl ⟨_, rfl, hr, hd⟩
  | some stop =>
    rw [hstop] at h
    obtain ⟨rfl, -⟩ := addWords_eq_some.mp hstop
    obtain ⟨rfl, rfl⟩ := Prod.mk.inj h
    refine Or.inr ⟨rfl, ?_, fun other hne => ?_, ?_⟩
    · simp only [Array.getElem?_modify, if_true, hr, List.append_nil]
    · exact (Array.getElem?_modify ..).trans (by rw [if_neg (Ne.symm hne), hr])
    · show w₂.dropped ++ _ = w.dropped ++ _
      dsimp only
      rw [hd, hr]

/-! ## Writes through a struct -/

namespace StructWrite

/-- The function pointer that a write puts. -/
def slot? : StructWrite → Option Nat
  | put n name _ => (n.layout.field? name).bind fun f => f.ty.slotAt (n.address + f.offset)
  | element a index _ =>
    a.component.slotAt (a.view.address + (index * a.component.size + a.offset))
  | clear _ => none

/-- The function pointer for which a write has something to be kept. -/
def keeps : StructWrite → Option Nat
  | put n name value => if value.isKept then (put n name value).slot? else none
  | element a index value => if value.isKept then (element a index value).slot? else none
  | clear _ => none

/-- The addresses for which a write gives up what was kept: the function pointer that it puts, or
the bytes of the struct that it clears. -/
def releases : StructWrite → Nat → Bool
  | clear n => fun p => decide (n.address ≤ p) && decide (p < n.address + n.size)
  | op => fun p => op.slot? == some p

/-- Every value goes into a function pointer by itself, or brings none with it. -/
def Singly (op : StructWrite) : Prop :=
  ∀ t v retention offset value, op.Puts t v retention offset value → t.Singly value

/-- The function pointers that were last given something to be kept, after a write. A struct that is
copied as a whole gives them nothing. -/
def after (op : StructWrite) (last : Nat → Bool) : Nat → Bool :=
  fun p => op.keeps == some p || (last p && !op.releases p)

variable {op : StructWrite} {s : Instance} {w w' : World}

theorem Puts.slot?_eq {t : Ty} {v : View} {retention offset : Nat} {value : Value}
    (h : op.Puts t v retention offset value) : op.slot? = t.slotAt (v.address + offset) ∧
      op.keeps = (if value.isKept then t.slotAt (v.address + offset) else none) ∧
      op.releases = fun p => t.slotAt (v.address + offset) == some p := by
  cases h with
  | @field n name f hf value =>
    have hslot : (put n name value).slot? = f.ty.slotAt (n.view.address + f.offset) := by
      rw [slot?, hf]
      rfl
    exact ⟨hslot, by rw [keeps, hslot], by rw [← hslot]; rfl⟩
  | element a index value => exact ⟨rfl, rfl, rfl⟩

/-- The function pointer that a write puts is one of the struct's. -/
theorem Through.mem_slots (hop : op.Through s) {p : Nat} (hp : op.slot? = some p) :
    p ∈ s.slots := by
  have hslot : ∀ {t : Ty} {v : View} {retention offset : Nat} {value : Value},
      op.Puts t v retention offset value → p ∈ s.slots := by
    intro t v retention offset value hputs
    rw [hputs.slot?_eq.1] at hp
    cases t with
    | callback signature =>
      obtain rfl := Option.some.inj hp
      rcases (hputs.place hop).2 with ⟨o, ho, ha⟩ | hchar
      · rw [ha]
        exact ho.mem_slots
      · cases hchar
    | _ => cases hp
  cases op with
  | put n name value =>
    obtain ⟨f, hf, -⟩ := Option.bind_eq_some_iff.mp hp
    exact hslot (.field hf value)
  | element a index value => exact hslot (.element a index value)
  | clear n => cases hp

theorem keeps_eq_some {p : Nat} (h : op.keeps = some p) : op.slot? = some p ∧
    op.releases p = true := by
  cases op with
  | clear n => cases h
  | put n name value =>
    rw [keeps] at h
    split at h
    · exact ⟨h, beq_iff_eq.mpr h⟩
    · cases h
  | element a index value =>
    rw [keeps] at h
    split at h
    · exact ⟨h, beq_iff_eq.mpr h⟩
    · cases h

/--
A write that succeeds gives up exactly what was kept for the function pointer that it puts, or for
the bytes that it clears, and keeps at most what it was given for that function pointer. A write
that fails keeps nothing new and gives nothing up.
-/
theorem run_outcome (hop : op.Through s) (hsingly : op.Singly)
    (hn : ∀ r ∈ w.retentions[s.retention]?, (r.map Prod.fst).Nodup)
    (hword : ∀ p ∈ s.slots, p < wordLimit) {o : Outcome Unit} (h : op.run w = (o, w')) :
    (∃ e, o = .error e ∧ w'.retentions = w.retentions ∧ w'.dropped = w.dropped) ∨
      ∃ new : Retention, o = .ok () ∧ new.map Prod.fst = op.keeps.toList ∧
        w.Exchanges w' s.retention op.releases new := by
  rcases op.run_cases with ⟨n, rfl⟩ | ⟨f, hrun⟩ | ⟨t, v, retention, offset, value, hputs, hrun⟩
  · refine (Instance.clear_outcome h).imp_right fun ⟨ho, hex⟩ => ⟨[], ho, rfl, ?_⟩
    rw [← Instance.Nested.retention hop]
    exact hex
  · rw [hrun] at h
    obtain ⟨rfl, rfl⟩ := Prod.mk.inj h
    exact Or.inl ⟨_, rfl, rfl, rfl⟩
  · obtain ⟨hslot, hkeeps, hreleases⟩ := hputs.slot?_eq
    obtain ⟨rfl, -⟩ := hputs.place hop
    rw [hrun] at h
    rcases hsingly _ _ _ _ _ hputs with ⟨signature, rfl⟩ | hcarries
    · -- the address of a slot is a word
      have hp : wrap (v.address + offset) = v.address + offset :=
        Nat.mod_eq_of_lt (hword _ (hop.mem_slots hslot))
      have hout := putFunction_outcome hn h
      rw [hp] at hout
      refine hout.imp_right fun ⟨new, ho, hnew, hex⟩ => ⟨new, ho, ?_, ?_⟩
      · rw [hnew, hkeeps]
        split <;> rfl
      · have hrel : op.releases = fun p => p == v.address + offset := by
          rw [hreleases]
          funext p
          rw [Ty.slotAt, Option.some_beq_some, BEq.comm]
        rw [hrel]
        exact hex
    · have hmaps := (t.inert_putField s.retention v offset value hcarries).maps h
      rcases o with e | ⟨⟩
      · exact Or.inl ⟨e, rfl, hmaps⟩
      · have hnone : t.slotAt (v.address + offset) = none := by
          cases t with
          | callback signature => cases hcarries
          | _ => rfl
        rw [hnone] at hkeeps hreleases
        refine Or.inr ⟨[], rfl, ?_, ?_, fun other _ => by rw [hmaps.1], ?_⟩
        · rw [hkeeps]
          split <;> rfl
        · rw [hreleases, hmaps.1]
          cases w.retentions[s.retention]? <;> simp
        · rw [hreleases, hmaps.2]
          simp

end StructWrite

/-! ## Runs -/

/-- A world, and the function pointers of a struct that were last given something to be kept. -/
structure Tracked where
  world : World
  last : Nat → Bool

namespace Instance

/-- What happens to a struct, and to anything else. -/
inductive Step (s : Instance) : Tracked → Tracked → Prop where
  | written {op : StructWrite} {w w' : World} {last : Nat → Bool} (hop : op.Through s)
      (hsingly : op.Singly) (h : op.run w = (.ok (), w')) : Step s ⟨w, last⟩ ⟨w', op.after last⟩
  | failed {op : StructWrite} {w w' : World} {last : Nat → Bool} {e : Failure}
      (hop : op.Through s) (hsingly : op.Singly) (h : op.run w = (.error e, w')) :
      Step s ⟨w, last⟩ ⟨w', last⟩
  /-- Anything that leaves the map of the struct alone. -/
  | other {w w' : World} {last : Nat → Bool}
      (h : w'.retentions[s.retention]? = w.retentions[s.retention]?) : Step s ⟨w, last⟩ ⟨w', last⟩

/-- Any number of steps. -/
def Run (s : Instance) : Tracked → Tracked → Prop := Relation.ReflTransGen s.Step

/-- A struct has a map, with an entry for each of its function pointers that was last given
something to be kept and for no other address. -/
def Exact (s : Instance) (t : Tracked) : Prop :=
  ∃ r, t.world.retentions[s.retention]? = some r ∧ r.Covers s.slots t.last

variable {s : Instance} {t u : Tracked}

theorem Step.exact (hword : ∀ p ∈ s.slots, p < wordLimit) (h : s.Step t u) (ht : s.Exact t) :
    s.Exact u := by
  obtain ⟨r, hr, hc⟩ := ht
  have hn : ∀ r ∈ t.world.retentions[s.retention]?, (r.map Prod.fst).Nodup := by
    rintro r' hr'
    rw [Option.mem_def, hr, Option.some.injEq] at hr'
    exact hr' ▸ hc.nodup
  cases h with
  | @written op w w' last hop hsingly h =>
    rcases op.run_outcome hop hsingly hn hword h with ⟨e, he, -⟩ | ⟨new, -, hnew, hex⟩
    · cases he
    · refine ⟨_, by rw [hex.map, hr]; rfl, hc.release op.releases hnew fun p hp => ?_⟩
      obtain ⟨hslot, hreleases⟩ := StructWrite.keeps_eq_some hp
      exact ⟨hop.mem_slots hslot, hreleases⟩
  | failed hop hsingly h =>
    rcases StructWrite.run_outcome hop hsingly hn hword h with ⟨-, -, hr', -⟩ | ⟨-, ho, -⟩
    · exact ⟨r, by rw [hr']; exact hr, hc⟩
    · cases ho
  | other h => exact ⟨r, h.trans hr, hc⟩

theorem Run.exact (hword : ∀ p ∈ s.slots, p < wordLimit) (h : s.Run t u) (ht : s.Exact t) :
    s.Exact u := by
  induction h with
  | refl => exact ht
  | tail _ hstep ih => exact hstep.exact hword ih

/--
After any writes through a fresh struct and through the structs and arrays inside it, successful or
not, of which no value brings function pointers with it but by itself: the callbacks that it keeps
are as many as its function pointers that were last given a closure or a function with a callback,
and are kept for just these. The next write gives up what was kept for the function pointer that it
puts, or for the bytes that it clears, and nothing else; one that fails changes nothing of this.
-/
theorem retained_eq_countP {w w' : World} {last : Nat → Bool} (hslots : s.slots.Nodup)
    (hword : ∀ p ∈ s.slots, p < wordLimit) (hmap : w.retentions[s.retention]? = some [])
    (hrun : s.Run ⟨w, fun _ => false⟩ ⟨w', last⟩) :
    (∀ n, s.Nested n → n.retained w' = s.slots.countP last) ∧ s.Exact ⟨w', last⟩ ∧
      ∀ (op : StructWrite) (o : Outcome Unit) (w'' : World), op.Through s → op.Singly →
        op.run w' = (o, w'') →
        (∃ e, o = .error e ∧ w''.retentions = w'.retentions ∧ w''.dropped = w'.dropped) ∨
          ∃ new : Retention, o = .ok () ∧ new.map Prod.fst = op.keeps.toList ∧
            w'.Exchanges w'' s.retention op.releases new := by
  have hexact := hrun.exact hword ⟨[], hmap, Retention.covers_nil⟩
  obtain ⟨r, hr, hc⟩ := id hexact
  refine ⟨fun n hnested => ?_, hexact, fun op o w'' hop hsingly h => ?_⟩
  · unfold retained
    rw [hnested.retention, hr]
    exact hc.length_eq hslots
  · refine op.run_outcome hop hsingly (fun r' hr' => ?_) hword h
    rw [Option.mem_def, hr, Option.some.injEq] at hr'
    exact hr' ▸ hc.nodup

/-! ## A function pointer and a row of two -/

/-- A signature without parameters. -/
def thunk : Signature := ⟨0, .int32, [], none, .default, none, false, true⟩

/-- A function pointer and a row of two, at a fixed place. -/
def pointers : Instance :=
  ⟨⟨[⟨"f", 0, .callback thunk⟩, ⟨"row", 8, .array (.callback thunk) 2⟩], 24, 8, false, true⟩,
    ⟨4096, 24, 1, .readWrite, false, none⟩, 0⟩

/-- The row of the two. -/
def pointers.row : InlineArray := ⟨pointers.view, 8, .callback thunk, 2, false, 0⟩

/-- A world with one closure and one struct. -/
def withPointers : World :=
  { World.start with
    pool := .start .consecutive (some 1) 0
    closures := #[⟨"p", [], []⟩]
    retentions := #[[]] }

theorem Step.written_snd (op : StructWrite) {w : World} {last : Nat → Bool} (hop : op.Through s)
    (hsingly : op.Singly) (h : (op.run w).1 = .ok ()) :
    s.Step ⟨w, last⟩ ⟨(op.run w).2, op.after last⟩ :=
  .written hop hsingly (Prod.ext h rfl)

theorem singly_put (value : Value) : (StructWrite.put pointers "f" value).Singly := by
  intro t v retention offset x h
  cases h with
  | @field n name f hf value =>
    have hf' : some (Field.mk "f" 0 (.callback thunk)) = some f := hf
    obtain rfl := Option.some.inj hf'
    exact Or.inl ⟨thunk, rfl⟩

theorem singly_element (index : Nat) (value : Value) :
    (StructWrite.element pointers.row index value).Singly := by
  intro t v retention offset x h
  cases h with
  | element a index value => exact Or.inl ⟨thunk, rfl⟩

theorem nestedArray_row : pointers.NestedArray pointers.row :=
  ⟨rfl, 8, .array (.callback thunk) 2, .field (f := ⟨"row", 8, .array (.callback thunk) 2⟩)
    (List.mem_cons_of_mem _ (List.mem_singleton_self _)) (.self _), rfl, rfl⟩

/-- Of the closures that are put into the function pointer and into the last of the row, one is
given up for nil. -/
theorem retained_eq_countP_row : ∃ w last,
    pointers.Run ⟨withPointers, fun _ => false⟩ ⟨w, last⟩ ∧ pointers.slots.countP last = 1 ∧
      pointers.retained w = 1 := by
  have h₁ : pointers.Run ⟨withPointers, fun _ => false⟩ _ :=
    .single (.written_snd (.put pointers "f" (.proc 0)) (.self _) (singly_put _)
      (by decide +kernel))
  have h₂ : pointers.Run ⟨withPointers, fun _ => false⟩ _ :=
    h₁.tail (.written_snd (.element pointers.row 1 (.proc 0))
      ⟨nestedArray_row, by decide⟩ (singly_element _ _) (by decide +kernel))
  have h₃ : pointers.Run ⟨withPointers, fun _ => false⟩ _ :=
    h₂.tail (.written_snd (.put pointers "f" .nil) (.self _) (singly_put _)
      (by decide +kernel))
  obtain ⟨hretained, -⟩ := retained_eq_countP (by decide +kernel) (by decide +kernel) rfl h₃
  have hself := hretained pointers (.self _)
  refine ⟨_, _, h₃, ?_, hself.trans ?_⟩ <;> decide +kernel

/-- When the row is put as a whole, what is kept for its first item is not given up when the struct
is cleared, although all its function pointers are null. -/
theorem retained_filled : ∃ w₁ w₂,
    pointers.put "row" (.array [.proc 0]) withPointers = (.ok (), w₁) ∧
      pointers.clear w₁ = (.ok (), w₂) ∧ pointers.slots = [4096, 4104, 4112] ∧
      pointers.retained w₂ = 1 := by
  let w₁ := (pointers.put "row" (.array [.proc 0]) withPointers).2
  refine ⟨w₁, (pointers.clear w₁).2, Prod.ext ?_ rfl, Prod.ext ?_ rfl, ?_, ?_⟩ <;> decide +kernel

end Instance

end ForeignCall
