import ForeignCall.Callback.Pool
import Mathlib.Data.List.Nodup

/-!
# Slots of the pool

The slots of a pool are shared out between the free list and the trampolines in use. `Pool.Serves`
says how: a slot is free once and unbound, or it belongs to one trampoline in use and has the
binding of that trampoline. Growing, also when the system has no memory for a whole batch, binding,
a refused binding and a release keep the sharing (`Serves.grow`, `Serves.bind_ok`,
`Serves.bind_error`, `Serves.release`), whatever slots they take.

The code addresses are answers of the system, so they differ as its answers do (`Pool.Coded`), and a
slot keeps its own (`codes_bind`). A slot in use is found by its code address, with the binding of
its trampoline (`Serves.slotAt?`).
-/

namespace ForeignCall

namespace Pool

/-- What a slot is bound to. -/
def bindingAt (p : Pool) (slot : Nat) : Option Binding := p.slots[slot]?.bind Slot.binding

/-- The code addresses of the slots. -/
def codes (p : Pool) : List Nat := p.slots.toList.map Slot.code

/-- The code addresses have been answered by the system, each to a request of its own. -/
structure Coded (p : Pool) : Prop where
  answered : ∀ code ∈ p.codes, ∃ i < p.asked, p.memory.code? i = some code
  nodup_codes : p.codes.Nodup

/-- The slots are shared out: `used` lists those in use, each with the binding it has, and all
others are free and unbound. -/
structure Serves (p : Pool) (used : List (Nat × Binding)) : Prop extends Coded p where
  share : (p.free ++ used.map Prod.fst).Perm (List.range p.slots.size)
  unbound : ∀ i ∈ p.free, p.bindingAt i = none
  bound : ∀ e ∈ used, p.bindingAt e.1 = some e.2

variable {p q : Pool} {used : List (Nat × Binding)} {slot : Nat}

/-! ## Code addresses -/

theorem getElem?_codes (p : Pool) (i : Nat) : p.codes[i]? = p.slots[i]?.map Slot.code := by
  simp [codes]

theorem codeAt_eq {code : Nat} (h : p.codes[slot]? = some code) : p.codeAt slot = code := by
  rw [getElem?_codes] at h
  simp [codeAt, h]

theorem getElem?_codes_codeAt (h : slot < p.slots.size) :
    p.codes[slot]? = some (p.codeAt slot) := by
  simp [getElem?_codes, codeAt, h]

@[simp] theorem codes_rebind (p : Pool) (slot : Nat) (b : Option Binding) :
    (p.rebind slot b).codes = p.codes := by
  refine List.ext_getElem? fun i => ?_
  simp only [getElem?_codes, rebind, Array.getElem?_modify]
  split
  · cases p.slots[i]? <;> rfl
  · rfl

@[simp] theorem codes_prepare (p : Pool) (slot signature : Nat) :
    (p.prepare slot signature).codes = p.codes := by
  refine List.ext_getElem? fun i => ?_
  simp only [getElem?_codes, prepare, Array.getElem?_modify]
  split
  · cases p.slots[i]? <;> rfl
  · rfl

@[simp] theorem codes_release (p : Pool) (slot : Nat) : (p.release slot).codes = p.codes :=
  codes_rebind p slot none

/-- Growing leaves the code addresses of the slots that are there alone. -/
theorem codes_extend (p : Pool) (n : Nat) : p.codes <+: (p.extend n).codes := by
  induction n generalizing p with
  | zero => exact List.prefix_refl _
  | succ n ih =>
    rw [extend]
    split
    · exact List.prefix_refl _
    · refine List.IsPrefix.trans ?_ (ih _)
      simp only [codes, push, Array.toList_push, List.map_append]
      exact List.prefix_append _ _

theorem snd_grow (p : Pool) : p.grow.2 = p.extend p.batch := by
  unfold grow
  dsimp only
  split <;> rfl

@[simp] theorem codes_take (p : Pool) : p.take.2.codes = p.codes := by
  unfold take
  split <;> rfl

/-- A slot is taken from the pool as it is or as it has grown, or the pool cannot grow. -/
theorem acquire_cases (p : Pool) : p.acquire = p.take ∨
    p.acquire = (p.extend p.batch).take ∨ ∃ f, p.acquire = (.error f, p.extend p.batch) := by
  unfold acquire
  split
  · right
    have hsnd := p.snd_grow
    rcases hg : p.grow with ⟨f | u, q⟩
    all_goals
      rw [hg] at hsnd
      subst hsnd
    · exact .inr ⟨f, rfl⟩
    · exact .inl rfl
  · exact .inl rfl

/-- Taking a slot leaves the code addresses of the slots that are there alone. -/
theorem codes_acquire (p : Pool) : p.codes <+: p.acquire.2.codes := by
  have he := p.codes_extend p.batch
  rcases p.acquire_cases with ha | ha | ⟨f, ha⟩
  all_goals rw [ha]
  · simpa only [codes_take] using List.prefix_refl p.codes
  · rw [codes_take]
    exact he
  · exact he

theorem codes_bind {p q : Pool} {signature : Signature} {closure : Nat} {prepared : Checked Unit}
    {o : Checked Nat} (h : p.bind signature closure prepared = (o, q)) : p.codes <+: q.codes := by
  have ha := p.codes_acquire
  obtain rfl : (p.bind signature closure prepared).2 = q := congrArg Prod.snd h
  unfold bind
  rcases h : p.acquire with ⟨f | slot, q⟩
  all_goals rw [h] at ha
  · exact ha
  · cases prepared with
    | ok u => simpa using ha
    | error f => simpa using ha

/-! ## What stays as it is -/

theorem directory_extend (p : Pool) (n : Nat) : (p.extend n).directory = p.directory := by
  induction n generalizing p with
  | zero => rfl
  | succ n ih =>
    rw [extend]
    split
    · rfl
    · exact ih _

theorem directory_take (p : Pool) : p.take.2.directory = p.directory := by
  unfold take
  split <;> rfl

/-- Binding enters nothing in the directory. -/
theorem directory_bind {p q : Pool} {signature : Signature} {closure : Nat}
    {prepared : Checked Unit} {o : Checked Nat} (h : p.bind signature closure prepared = (o, q)) :
    q.directory = p.directory := by
  have ha : p.acquire.2.directory = p.directory := by
    rcases p.acquire_cases with h | h | ⟨f, h⟩
    all_goals rw [h]
    · exact p.directory_take
    · exact (directory_take _).trans (p.directory_extend _)
    · exact p.directory_extend _
  obtain rfl : (p.bind signature closure prepared).2 = q := congrArg Prod.snd h
  unfold bind
  rcases h : p.acquire with ⟨f | slot, q⟩
  all_goals rw [h] at ha
  · exact ha
  · cases prepared <;> exact ha

theorem directory_start (memory : CodeMemory) (slotsPerBatch : Option Nat) (preallocated : Nat) :
    (start memory slotsPerBatch preallocated).directory = [] := by
  have hpre : ∀ (n : Nat) (p : Pool), (p.preallocate n).directory = p.directory := by
    intro n
    induction n with
    | zero => exact fun p => rfl
    | succ n ih =>
      intro p
      have hg := p.directory_extend p.batch
      rw [← snd_grow] at hg
      rw [preallocate]
      rcases hp : p.grow with ⟨f | u, q⟩
      all_goals rw [hp] at hg
      · exact hg
      · exact (ih q).trans hg
  exact hpre _ _

/-! ## Running out of slots -/

/-- There is no slot to be taken when the system has no memory for one, or none has come of it. -/
theorem acquire_eq_error {f : Fault} (h : p.acquire = (.error f, q)) :
    f = .outOfMemory slotRecordSize ∨ f = .runtime "trampoline pool exhausted" := by
  have htake : ∀ {p : Pool}, p.take = (.error f, q) → f = .runtime "trampoline pool exhausted" := by
    intro p ht
    unfold take at ht
    split at ht
    · exact (Except.error.inj (Prod.mk.inj ht).1).symm
    · cases (Prod.mk.inj ht).1
  unfold acquire at h
  split at h
  · split at h
    next g r hg =>
      unfold grow at hg
      dsimp only at hg
      split at hg
      · exact Or.inl ((Except.error.inj (Prod.mk.inj h).1).symm.trans
          (Except.error.inj (Prod.mk.inj hg).1).symm)
      · cases (Prod.mk.inj hg).1
    next => exact Or.inr (htake h)
  · exact Or.inr (htake h)

/-- A slot that may be made executable is bound unless there is none to be taken. -/
theorem bind_eq_error {signature : Signature} {closure : Nat} {f : Fault}
    (h : p.bind signature closure (.ok ()) = (.error f, q)) : p.acquire = (.error f, q) := by
  unfold bind at h
  rcases ha : p.acquire with ⟨g | slot, r⟩
  all_goals
    rw [ha] at h
    cases h
  rfl

/-! ## Rebinding -/

@[simp] theorem size_rebind (p : Pool) (slot : Nat) (b : Option Binding) :
    (p.rebind slot b).slots.size = p.slots.size := by
  simp [rebind]

@[simp] theorem free_rebind (p : Pool) (slot : Nat) (b : Option Binding) :
    (p.rebind slot b).free = p.free := rfl

theorem bindingAt_rebind_ne (b : Option Binding) {i : Nat} (h : i ≠ slot) :
    (p.rebind slot b).bindingAt i = p.bindingAt i := by
  unfold bindingAt rebind
  rw [Array.getElem?_modify, if_neg fun he => h he.symm]

theorem bindingAt_rebind_self (b : Option Binding) (h : slot < p.slots.size) :
    (p.rebind slot b).bindingAt slot = b := by
  unfold bindingAt rebind
  rw [Array.getElem?_modify, if_pos rfl, Array.getElem?_eq_getElem h]
  rfl

@[simp] theorem bindingAt_prepare (p : Pool) (slot signature i : Nat) :
    (p.prepare slot signature).bindingAt i = p.bindingAt i := by
  unfold bindingAt prepare
  rw [Array.getElem?_modify]
  split
  · cases p.slots[i]? <;> rfl
  · rfl

/-- The code addresses and the answers of the system are all that counts. -/
theorem Coded.congr (h : p.Coded) (hcodes : q.codes = p.codes) (hmemory : q.memory = p.memory)
    (hasked : q.asked = p.asked) : q.Coded where
  answered := by
    rw [hcodes, hmemory, hasked]
    exact h.answered
  nodup_codes := by
    rw [hcodes]
    exact h.nodup_codes

namespace Serves

theorem nodup (h : p.Serves used) : (p.free ++ used.map Prod.fst).Nodup :=
  h.share.nodup_iff.mpr List.nodup_range

theorem free_lt (h : p.Serves used) {i : Nat} (hi : i ∈ p.free) : i < p.slots.size :=
  List.mem_range.mp (h.share.mem_iff.mp (List.mem_append_left _ hi))

theorem used_lt (h : p.Serves used) {e : Nat × Binding} (he : e ∈ used) : e.1 < p.slots.size :=
  List.mem_range.mp (h.share.mem_iff.mp (List.mem_append_right _ (List.mem_map_of_mem he)))

theorem not_mem_free (h : p.Serves used) {e : Nat × Binding} (he : e ∈ used) : e.1 ∉ p.free := by
  intro hf
  exact (List.nodup_append.mp h.nodup).2.2 _ hf _ (List.mem_map_of_mem he) rfl

/-- Every slot is free or in use. -/
theorem free_or_used (h : p.Serves used) {i : Nat} (hi : i < p.slots.size) :
    i ∈ p.free ∨ ∃ e ∈ used, e.1 = i := by
  have hm := h.share.mem_iff.mpr (List.mem_range.mpr hi)
  rcases List.mem_append.mp hm with hf | hu
  · exact Or.inl hf
  · exact Or.inr (List.mem_map.mp hu)

/-- The slots add up. -/
theorem size_eq (h : p.Serves used) : p.slots.size = p.free.length + used.length := by
  have hl := h.share.length_eq
  rw [List.length_append, List.length_map, List.length_range] at hl
  exact hl.symm

theorem perm {used' : List (Nat × Binding)} (h : p.Serves used) (hp : used.Perm used') :
    p.Serves used' where
  toCoded := h.toCoded
  share := ((hp.map Prod.fst).symm.append_left _).trans h.share
  unbound := h.unbound
  bound := fun e he => h.bound e (hp.mem_iff.mpr he)

/-! ## Growing -/

/-- The slot that the system answers with is new and free. -/
theorem push (h : p.Serves used) {code : Nat} (hc : p.memory.code? p.asked = some code) :
    (p.push code).Serves used where
  answered := by
    intro c hm
    rw [codes, Pool.push, Array.toList_push, List.map_append, List.mem_append] at hm
    rcases hm with hm | hm
    · obtain ⟨i, hi, hcode⟩ := h.answered c hm
      exact ⟨i, Nat.lt_succ_of_lt hi, hcode⟩
    · rw [List.mem_singleton.mp hm]
      exact ⟨p.asked, Nat.lt_succ_self _, hc⟩
  nodup_codes := by
    rw [codes, Pool.push, Array.toList_push, List.map_append, List.nodup_append]
    refine ⟨h.nodup_codes, by simp, ?_⟩
    rintro a ha b hb rfl
    -- an older slot has been answered to an earlier request
    obtain ⟨i, hi, hcode⟩ := h.answered a ha
    rw [List.mem_singleton.mp hb] at hcode
    exact Nat.ne_of_lt hi (p.memory.distinct _ _ _ hcode hc)
  share := by
    simp only [Pool.push, Array.size_push, List.range_succ, List.cons_append]
    exact (h.share.cons _).trans (List.perm_append_singleton _ _).symm
  unbound := by
    intro i hi
    unfold bindingAt Pool.push
    rw [Array.getElem?_push]
    split
    · rfl
    · next hne =>
      exact h.unbound i ((List.mem_cons.mp hi).resolve_left hne)
  bound := by
    intro e he
    unfold bindingAt Pool.push
    rw [Array.getElem?_push, if_neg (Nat.ne_of_lt (h.used_lt he))]
    exact h.bound e he

/-- A request that the system has no memory for changes nothing. -/
theorem ask (h : p.Serves used) : Serves { p with asked := p.asked + 1 } used where
  answered := fun c hc => by
    obtain ⟨i, hi, hcode⟩ := h.answered c hc
    exact ⟨i, Nat.lt_succ_of_lt hi, hcode⟩
  nodup_codes := h.nodup_codes
  share := h.share
  unbound := h.unbound
  bound := h.bound

theorem extend (h : p.Serves used) (n : Nat) : (p.extend n).Serves used := by
  induction n generalizing p with
  | zero => exact h
  | succ n ih =>
    rw [Pool.extend]
    split
    · exact h.ask
    · next code hc => exact ih (h.push hc)

/-- Growing keeps the sharing, whether there is memory for the batch, for a part of it, or for
none. -/
theorem grow (h : p.Serves used) : p.grow.2.Serves used := by
  rw [snd_grow]
  exact h.extend _

theorem preallocate (h : p.Serves used) (n : Nat) : (p.preallocate n).Serves used := by
  induction n generalizing p with
  | zero => exact h
  | succ n ih =>
    have hg := h.grow
    rw [Pool.preallocate]
    rcases hp : p.grow with ⟨f | u, q⟩
    all_goals rw [hp] at hg
    · exact hg
    · exact ih hg

theorem start (memory : CodeMemory) (slotsPerBatch : Option Nat) (preallocated : Nat) :
    (Pool.start memory slotsPerBatch preallocated).Serves [] := by
  refine preallocate ⟨⟨?_, ?_⟩, ?_, ?_, ?_⟩ preallocated
  · simp [codes]
  · simp [codes]
  · simp
  · simp
  · simp

/-! ## Binding and releasing -/

theorem take (h : p.Serves used) (ha : p.take = (.ok slot, q)) :
    ∃ free, Serves { q with free := slot :: free } used ∧ q.free = free := by
  unfold Pool.take at ha
  cases hf : p.free with
  | nil => simp [hf] at ha
  | cons s free =>
    simp only [hf, Prod.mk.injEq, Except.ok.injEq] at ha
    obtain ⟨rfl, rfl⟩ := ha
    refine ⟨free, ?_, rfl⟩
    rw [← hf]
    exact h

/-- The slot that is taken stands first in the free list of a pool with the same sharing. -/
theorem acquire (h : p.Serves used) (ha : p.acquire = (.ok slot, q)) :
    ∃ free, Serves { q with free := slot :: free } used ∧ q.free = free := by
  rcases p.acquire_cases with he | he | ⟨f, he⟩
  all_goals rw [he] at ha
  · exact h.take ha
  · exact (h.extend _).take ha
  · cases ha

/-- When there is no slot to be taken, none has changed hands. -/
theorem acquire_error (h : p.Serves used) {f : Fault} (ha : p.acquire = (.error f, q)) :
    q.Serves used := by
  have htake : ∀ {r : Pool}, r.Serves used → r.take = (.error f, q) → q.Serves used := by
    intro r hr ht
    unfold Pool.take at ht
    split at ht
    · cases ht
      exact hr
    · cases ht
  rcases p.acquire_cases with he | he | ⟨f', he⟩
  all_goals rw [he] at ha
  · exact htake h ha
  · exact htake (h.extend _) ha
  · cases ha
    exact h.extend _

/-- Binding the first free slot puts it in use. -/
theorem rebind_head {free : List Nat} {b : Binding}
    (h : Serves { q with free := slot :: free } used) (hq : q.free = free) :
    (q.rebind slot (some b)).Serves ((slot, b) :: used) := by
  have hn := h.nodup
  simp only [List.cons_append, List.nodup_cons] at hn
  have hlt : slot < q.slots.size := h.free_lt (List.mem_cons_self ..)
  refine ⟨h.toCoded.congr (codes_rebind q slot (some b)) rfl rfl, ?_, ?_, ?_⟩
  · rw [free_rebind, hq, size_rebind, List.map_cons]
    exact List.perm_middle.trans h.share
  · intro i hi
    rw [free_rebind, hq] at hi
    have hne : i ≠ slot := fun he => hn.1 (he ▸ List.mem_append_left _ hi)
    rw [bindingAt_rebind_ne _ hne]
    exact h.unbound i (List.mem_cons_of_mem _ hi)
  · intro e he
    rcases List.mem_cons.mp he with rfl | hu
    · exact bindingAt_rebind_self _ hlt
    · have hne : e.1 ≠ slot := fun he =>
        hn.1 (he ▸ List.mem_append_right _ (List.mem_map_of_mem hu))
      rw [bindingAt_rebind_ne _ hne]
      exact h.bound e hu

theorem prepare (h : p.Serves used) (slot signature : Nat) :
    (p.prepare slot signature).Serves used where
  toCoded := h.toCoded.congr (codes_prepare p slot signature) rfl rfl
  share := by
    rw [Pool.prepare, Array.size_modify]
    exact h.share
  unbound := fun i hi => by
    rw [bindingAt_prepare]
    exact h.unbound i hi
  bound := fun e he => by
    rw [bindingAt_prepare]
    exact h.bound e he

/-- A released slot is free again. -/
theorem release {b : Binding} (h : p.Serves ((slot, b) :: used)) :
    (p.release slot).Serves used := by
  have hp : (p.free ++ slot :: used.map Prod.fst).Perm (slot :: (p.free ++ used.map Prod.fst)) :=
    List.perm_middle
  have hn := hp.nodup_iff.mp h.nodup
  simp only [List.nodup_cons] at hn
  have hlt : slot < p.slots.size := h.used_lt (List.mem_cons_self ..)
  refine ⟨h.toCoded.congr (codes_release p slot) rfl rfl, ?_, ?_, ?_⟩
  · rw [Pool.release, size_rebind, free_rebind]
    exact List.perm_middle.symm.trans h.share
  · intro i hi
    rcases List.mem_cons.mp hi with rfl | hf
    · exact bindingAt_rebind_self _ hlt
    · rw [free_rebind] at hf
      have hne : i ≠ slot := fun he => hn.1 (he ▸ List.mem_append_left _ hf)
      exact (bindingAt_rebind_ne _ hne).trans (h.unbound i hf)
  · intro e he
    have hne : e.1 ≠ slot := fun heq =>
      hn.1 (heq ▸ List.mem_append_right _ (List.mem_map_of_mem he))
    exact (bindingAt_rebind_ne _ hne).trans (h.bound e (List.mem_cons_of_mem _ he))

variable {signature : Signature} {closure : Nat}

theorem bind_ok (h : p.Serves used) {prepared : Checked Unit}
    (hb : p.bind signature closure prepared = (.ok slot, q)) :
    q.Serves ((slot, ⟨signature, closure⟩) :: used) := by
  unfold Pool.bind at hb
  rcases ha : p.acquire with ⟨f | s, r⟩
  · simp [ha] at hb
  · obtain ⟨free, hr, hfree⟩ := h.acquire ha
    cases prepared with
    | error f => simp [ha] at hb
    | ok u =>
      simp only [ha, Prod.mk.injEq, Except.ok.injEq] at hb
      obtain ⟨rfl, rfl⟩ := hb
      exact (hr.rebind_head hfree).prepare _ _

/-- A refused binding gives the slot back. -/
theorem bind_error (h : p.Serves used) {prepared : Checked Unit} {f : Fault}
    (hb : p.bind signature closure prepared = (.error f, q)) : q.Serves used := by
  unfold Pool.bind at hb
  rcases ha : p.acquire with ⟨f' | s, r⟩
  · simp only [ha, Prod.mk.injEq] at hb
    rw [← hb.2]
    exact h.acquire_error ha
  · obtain ⟨free, hr, hfree⟩ := h.acquire ha
    cases prepared with
    | ok u => simp [ha] at hb
    | error f =>
      simp only [ha, Prod.mk.injEq] at hb
      rw [← hb.2]
      exact (hr.rebind_head hfree).release

/-! ## The directory -/

theorem register (h : p.Serves used) (key : CallbackKey) (callback : Nat) :
    (p.register key callback).Serves used :=
  ⟨h.toCoded.congr rfl rfl rfl, h.share, h.unbound, h.bound⟩

theorem forget (h : p.Serves used) (key : CallbackKey) (isGone : Nat → Bool) :
    (p.forget key isGone).Serves used :=
  ⟨h.toCoded.congr rfl rfl rfl, h.share, h.unbound, h.bound⟩

/-! ## Entering -/

/-- The slot at the code address of a slot in use has the binding of its trampoline. -/
theorem slotAt? (h : p.Serves used) {e : Nat × Binding} (he : e ∈ used) :
    ∃ interface, p.slotAt? (p.codeAt e.1) = some ⟨p.codeAt e.1, some e.2, interface⟩ := by
  have hlt := h.used_lt he
  have hb := h.bound e he
  unfold bindingAt at hb
  rw [Array.getElem?_eq_getElem hlt, Option.bind_some] at hb
  have hcode : p.codeAt e.1 = p.slots[e.1].code := by
    simp [codeAt, Array.getElem?_eq_getElem hlt]
  refine ⟨p.slots[e.1].interface, ?_⟩
  unfold Pool.slotAt?
  rw [Array.find?_eq_some_iff_getElem]
  refine ⟨by simp, e.1, hlt, ?_, ?_⟩
  · rw [← hb, hcode]
  · intro j hj
    -- an earlier slot has another code address
    have hj' : j < p.slots.size := Nat.lt_trans hj hlt
    have hne := List.nodup_iff_getElem?_ne_getElem?.mp h.nodup_codes j e.1 hj (by simpa [codes])
    rw [getElem?_codes, getElem?_codes, Array.getElem?_eq_getElem hj',
      Array.getElem?_eq_getElem hlt] at hne
    simp only [Bool.not_eq_true', beq_eq_false_iff_ne, ne_eq]
    intro heq
    exact hne (congrArg some (heq.trans hcode))

end Serves

/-- Slots with one code address are one slot. -/
theorem Coded.eq_of_code (h : p.Coded) {i j code : Nat} (hi : p.codes[i]? = some code)
    (hj : p.codes[j]? = some code) : i = j := by
  obtain ⟨hlt, -⟩ := List.getElem?_eq_some_iff.mp hi
  exact (List.getElem?_inj hlt h.nodup_codes).mp (hi.trans hj.symm)

/-- A code address is a word other than null. -/
theorem Coded.word (h : p.Coded) {code : Nat} (hc : code ∈ p.codes) :
    0 < code ∧ code < wordLimit := by
  obtain ⟨i, -, hcode⟩ := h.answered code hc
  exact ⟨p.memory.positive _ _ hcode, p.memory.word _ _ hcode⟩

end Pool

end ForeignCall
