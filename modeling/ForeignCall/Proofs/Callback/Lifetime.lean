import ForeignCall.Call.Run
import ForeignCall.Lifetime
import ForeignCall.Proofs.Callback.Slots
import ForeignCall.Struct.Instance

/-!
# Trampolines of live callbacks

`World.trampoline? id` is the callback `id` as long as it has not been retired. `World.Sound` is the
invariant of a world that has something left to hold: nothing alive refers to something retired,
the pool serves exactly the live callbacks (`Pool.Serves`), and its directory has callbacks under
their own keys.

Retiring something that nothing holds keeps the invariant (`Sound.retire`), so following any list of
references that have been given up keeps it (`Sound.collect`), in whatever order they are given up.
-/

namespace ForeignCall

namespace World

variable {w w' : World} {roots : List Ref} {r : Ref} {id : Nat}

/-! ## Live callbacks -/

/-- A callback that has not been retired. -/
def trampoline? (w : World) (id : Nat) : Option Callback :=
  if Ref.callback id ∈ w.gone then none else w.callbacks[id]?

/-- The positions of the callbacks that have not been retired. -/
def live (w : World) : List Nat :=
  (List.range w.callbacks.size).filter fun id => Ref.callback id ∉ w.gone

/-- The slot of a callback, with the binding it was made for. -/
def bound? (w : World) (id : Nat) : Option (Nat × Binding) :=
  w.callbacks[id]?.map fun c => (c.slot, ⟨c.signature, c.closure⟩)

/-- The slots of the live callbacks, each with the binding it was made for. -/
def trampolines (w : World) : List (Nat × Binding) := w.live.filterMap w.bound?

/-- What the callback of a position was compiled for. -/
def key? (w : World) (id : Nat) : Option CallbackKey := w.callbacks[id]?.map Callback.key

theorem key?_eq_some {key : CallbackKey} :
    w.key? id = some key ↔ ∃ c, w.callbacks[id]? = some c ∧ c.key = key := by
  unfold key?
  rw [Option.map_eq_some_iff]

theorem key?_congr (h : w'.callbacks = w.callbacks) : w'.key? = w.key? := by
  funext id
  unfold key?
  rw [h]

theorem mem_live : id ∈ w.live ↔ id < w.callbacks.size ∧ Ref.callback id ∉ w.gone := by
  simp [live]

theorem trampoline?_eq_some {c : Callback} :
    w.trampoline? id = some c ↔ w.callbacks[id]? = some c ∧ Ref.callback id ∉ w.gone := by
  unfold trampoline?
  split <;> simp_all

theorem mem_live_of_trampoline? {c : Callback} (h : w.trampoline? id = some c) : id ∈ w.live := by
  obtain ⟨hc, hg⟩ := trampoline?_eq_some.mp h
  exact mem_live.mpr ⟨(Array.getElem?_eq_some_iff.mp hc).1, hg⟩

theorem exists_trampoline (h : id ∈ w.live) : ∃ c, w.trampoline? id = some c := by
  obtain ⟨hlt, hg⟩ := mem_live.mp h
  exact ⟨w.callbacks[id], trampoline?_eq_some.mpr ⟨Array.getElem?_eq_getElem hlt, hg⟩⟩

theorem nodup_live (w : World) : w.live.Nodup := List.nodup_range.filter _

theorem length_trampolines (w : World) : w.trampolines.length = w.live.length := by
  unfold trampolines
  rw [List.length_filterMap_eq_countP, List.countP_eq_length]
  intro id hid
  obtain ⟨hlt, -⟩ := mem_live.mp hid
  simp [bound?, hlt]

theorem mem_trampolines {e : Nat × Binding} :
    e ∈ w.trampolines ↔
      ∃ id c, w.trampoline? id = some c ∧ e = (c.slot, ⟨c.signature, c.closure⟩) := by
  unfold trampolines bound?
  simp only [List.mem_filterMap, Option.map_eq_some_iff, mem_live, trampoline?_eq_some]
  constructor
  · rintro ⟨id, ⟨-, hg⟩, c, hc, rfl⟩
    exact ⟨id, c, ⟨hc, hg⟩, rfl⟩
  · rintro ⟨id, c, ⟨hc, hg⟩, rfl⟩
    exact ⟨id, ⟨(Array.getElem?_eq_some_iff.mp hc).1, hg⟩, c, hc, rfl⟩

/-! ## What is held -/

/-- Whether something stands in the tables of the world. -/
def Known (w : World) : Ref → Prop
  | .callback id => id < w.callbacks.size
  | .proc id => id < w.closures.size
  | .body id => id < w.closures.size
  | .retention id => id < w.retentions.size
  | .owner _ => True
  | .library _ => True

/-- Something in the tables that has not been retired. -/
def Alive (w : World) (r : Ref) : Prop := w.Known r ∧ r ∉ w.gone

/-- Nothing alive refers to something retired; `roots` are held from outside. -/
structure Closed (w : World) (roots : List Ref) : Prop where
  root : ∀ r ∈ roots, w.Alive r
  child : ∀ h, w.Alive h → ∀ r ∈ w.children h, w.Alive r
  retired : ∀ r ∈ w.gone, w.Known r
  dropped : ∀ r ∈ w.dropped, w.Known r

/-- A closure is compiled to callbacks of its own. -/
def Compiled (w : World) : Prop :=
  ∀ closure (c : Closure), w.closures[closure]? = some c → ∀ id ∈ c.compiled,
    ∃ cb : Callback, w.callbacks[id]? = some cb ∧ cb.closure = closure

/-- The callbacks have the code addresses of their slots. -/
def Coded (w : World) : Prop :=
  ∀ (id : Nat) (c : Callback), w.callbacks[id]? = some c → w.pool.codes[c.slot]? = some c.code

/-- What the directory of the pool has for a key was compiled for it. -/
def Directed (w : World) : Prop := ∀ e ∈ w.pool.directory, w.key? e.2 = some e.1

/-- The invariant: references lead to what is alive, the pool serves the live callbacks, a closure
is compiled to callbacks of its own, and what is known of callbacks elsewhere agrees with what they
are. -/
structure Sound (w : World) (roots : List Ref) : Prop extends Closed w roots where
  pool : w.pool.Serves w.trampolines
  compiled : w.Compiled
  coded : w.Coded
  directed : w.Directed

theorem mem_holders : r ∈ w.holders ↔
    w.Alive r ∧ (∀ id, r ≠ .owner id) ∧ ∀ id, r ≠ .library id := by
  unfold holders Alive
  simp only [List.mem_filter, List.mem_append, List.mem_map, List.mem_range, List.mem_flatMap,
    List.mem_cons, List.not_mem_nil, or_false, Bool.not_eq_true', List.contains_eq_mem,
    decide_eq_false_iff_not]
  cases r <;> simp [Known]

theorem mem_holders_of_child {h : Ref} (ha : w.Alive h) (hr : r ∈ w.children h) :
    h ∈ w.holders := by
  refine mem_holders.mpr ⟨ha, ?_, ?_⟩
  · rintro id rfl
    simp [children] at hr
  · rintro id rfl
    simp [children] at hr

theorem isHeld_eq_true : w.isHeld roots r = true ↔
    r ∈ roots ∨ ∃ h, w.Alive h ∧ r ∈ w.children h := by
  unfold isHeld
  simp only [Bool.or_eq_true, List.contains_eq_mem, decide_eq_true_eq, List.any_eq_true]
  constructor
  · rintro (hr | ⟨h, hh, hr⟩)
    · exact Or.inl hr
    · exact Or.inr ⟨h, (mem_holders.mp hh).1, hr⟩
  · rintro (hr | ⟨h, hh, hr⟩)
    · exact Or.inl hr
    · exact Or.inr ⟨h, mem_holders_of_child hh hr, hr⟩

/-- What is held is alive. -/
theorem Closed.alive_of_isHeld (hw : w.Closed roots) (h : w.isHeld roots r = true) :
    w.Alive r := by
  rcases isHeld_eq_true.mp h with hr | ⟨h, hh, hr⟩
  · exact hw.root r hr
  · exact hw.child h hh r hr

/-! ## Retiring -/

/-- Two worlds whose tables of things that hold and are held are the same. -/
structure SameTables (w w' : World) : Prop where
  callbacks : w'.callbacks = w.callbacks
  closures : w'.closures = w.closures
  retentions : w'.retentions = w.retentions

theorem SameTables.known (h : SameTables w w') : w'.Known r ↔ w.Known r := by
  cases r <;> simp [Known, h.callbacks, h.closures, h.retentions]

theorem SameTables.children (h : SameTables w w') (r : Ref) : w'.children r = w.children r := by
  cases r <;> simp [World.children, bodyOf, h.callbacks, h.closures, h.retentions]

theorem SameTables.trans {v : World} (h : SameTables v w) (h' : SameTables w w') :
    SameTables v w' :=
  ⟨h'.callbacks.trans h.callbacks, h'.closures.trans h.closures, h'.retentions.trans h.retentions⟩

theorem sameTables_releaseOwner (w : World) (id : Nat) :
    SameTables w (w.releaseOwner id) ∧ (w.releaseOwner id).gone = w.gone ∧
      (w.releaseOwner id).dropped = w.dropped ∧ (w.releaseOwner id).pool = w.pool := by
  unfold releaseOwner
  split
  · split
    · exact ⟨⟨rfl, rfl, rfl⟩, rfl, rfl, rfl⟩
    · dsimp only
      split <;> exact ⟨⟨rfl, rfl, rfl⟩, rfl, rfl, rfl⟩
  · exact ⟨⟨rfl, rfl, rfl⟩, rfl, rfl, rfl⟩

theorem sameTables_retire (w : World) (r : Ref) : SameTables w (w.retire r) ∧
    (w.retire r).gone = r :: w.gone ∧ (w.retire r).dropped = w.dropped := by
  unfold retire
  cases r with
  | owner id =>
    dsimp only
    split
    · obtain ⟨⟨h1, h2, h3⟩, h4, h5, -⟩ :=
        sameTables_releaseOwner { w with gone := Ref.owner id :: w.gone } id
      exact ⟨⟨h1, h2, h3⟩, h4, h5⟩
    · exact ⟨⟨rfl, rfl, rfl⟩, rfl, rfl⟩
  | callback id =>
    dsimp only
    split <;> exact ⟨⟨rfl, rfl, rfl⟩, rfl, rfl⟩
  | library id => exact ⟨⟨rfl, rfl, rfl⟩, rfl, rfl⟩
  | proc id => exact ⟨⟨rfl, rfl, rfl⟩, rfl, rfl⟩
  | body id => exact ⟨⟨rfl, rfl, rfl⟩, rfl, rfl⟩
  | retention id => exact ⟨⟨rfl, rfl, rfl⟩, rfl, rfl⟩

theorem sameTables_collectWithin (roots : List Ref) (fuel : Nat) : ∀ (w : World) (refs : List Ref),
    SameTables w (w.collectWithin roots fuel refs) := by
  induction fuel with
  | zero =>
    intro w refs
    rw [World.collectWithin]
    exact ⟨rfl, rfl, rfl⟩
  | succ fuel ih =>
    intro w refs
    cases refs with
    | nil =>
      rw [World.collectWithin]
      · exact ⟨rfl, rfl, rfl⟩
      · exact fun h => Nat.succ_ne_zero _ h
    | cons r rest =>
      rw [World.collectWithin]
      split
      · exact ih w rest
      · exact (sameTables_retire w r).1.trans (ih _ _)

theorem sameTables_collect (w : World) (roots : List Ref) : SameTables w (w.collect roots) := by
  have h : SameTables w { w with dropped := [] } := ⟨rfl, rfl, rfl⟩
  unfold World.collect
  exact h.trans (sameTables_collectWithin roots _ _ _)

/-- Only a callback that is retired gives its slot back. -/
theorem pool_retire (h : ∀ id, r ≠ .callback id) : (w.retire r).pool = w.pool := by
  unfold retire
  cases r with
  | owner id =>
    dsimp only
    split
    · exact (sameTables_releaseOwner _ id).2.2.2
    · rfl
  | callback id => exact absurd rfl (h id)
  | library id => rfl
  | proc id => rfl
  | body id => rfl
  | retention id => rfl

theorem pool_retire_callback {c : Callback} (hc : w.callbacks[id]? = some c) :
    (w.retire (.callback id)).pool =
      (w.pool.forget c.key fun i => (Ref.callback id :: w.gone).contains (.callback i)).release
        c.slot := by
  simp only [retire, hc]

/-- Retiring leaves the code addresses of slots alone and adds nothing to the directory. -/
theorem codes_retire (w : World) (r : Ref) :
    (w.retire r).pool.codes = w.pool.codes ∧
      ∀ e ∈ (w.retire r).pool.directory, e ∈ w.pool.directory := by
  by_cases h : ∀ id, r ≠ .callback id
  · rw [pool_retire h]
    exact ⟨rfl, fun e he => he⟩
  · obtain ⟨id, hid⟩ := not_forall.mp h
    obtain rfl := not_not.mp hid
    cases hc : w.callbacks[id]? with
    | none =>
      have hpool : (w.retire (.callback id)).pool = w.pool := by simp only [retire, hc]
      rw [hpool]
      exact ⟨rfl, fun e he => he⟩
    | some c =>
      rw [pool_retire_callback hc]
      exact ⟨Pool.codes_release _ c.slot, fun e he => (List.mem_filter.mp he).1⟩

theorem Closed.retire (hw : w.Closed roots) (hk : w.Known r)
    (hn : w.isHeld roots r = false) : (w.retire r).Closed roots := by
  obtain ⟨ht, hg, hd⟩ := sameTables_retire w r
  have hnot : ¬(r ∈ roots ∨ ∃ h, w.Alive h ∧ r ∈ w.children h) := by
    rw [← isHeld_eq_true, hn]
    simp
  have halive : ∀ x, w.Alive x → x ≠ r → (w.retire r).Alive x := by
    intro x hx hne
    refine ⟨ht.known.mpr hx.1, ?_⟩
    rw [hg]
    exact List.not_mem_cons_of_ne_of_not_mem hne hx.2
  refine ⟨?_, ?_, ?_, ?_⟩
  · intro x hx
    exact halive x (hw.root x hx) fun he => hnot (Or.inl (he ▸ hx))
  · -- what is alive afterwards was alive before, and held nothing but the living
    intro h hh x hx
    rw [ht.children] at hx
    obtain ⟨hkh, hgh⟩ := hh
    rw [hg] at hgh
    have hha : w.Alive h := ⟨ht.known.mp hkh, fun hm => hgh (List.mem_cons_of_mem _ hm)⟩
    exact halive x (hw.child h hha x hx) fun he => hnot (Or.inr ⟨h, hha, he ▸ hx⟩)
  · intro x hx
    rw [hg] at hx
    rcases List.mem_cons.mp hx with rfl | hx
    · exact ht.known.mpr hk
    · exact ht.known.mpr (hw.retired x hx)
  · intro x hx
    rw [hd] at hx
    exact ht.known.mpr (hw.dropped x hx)

theorem bound?_congr (h : w'.callbacks = w.callbacks) : w'.bound? = w.bound? := by
  funext id
  simp [bound?, h]

theorem trampolines_retire (h : ∀ id, r ≠ .callback id) :
    (w.retire r).trampolines = w.trampolines := by
  obtain ⟨ht, hg, -⟩ := sameTables_retire w r
  have hl : (w.retire r).live = w.live := by
    unfold live
    rw [ht.callbacks, hg]
    refine List.filter_congr fun id _ => ?_
    simp [(h id).symm]
  unfold trampolines
  rw [hl, bound?_congr ht.callbacks]

theorem perm_trampolines_retire {c : Callback} (h : w.trampoline? id = some c) :
    w.trampolines.Perm
      ((c.slot, ⟨c.signature, c.closure⟩) :: (w.retire (.callback id)).trampolines) := by
  obtain ⟨ht, hg, -⟩ := sameTables_retire w (.callback id)
  have hl : (w.retire (.callback id)).live = w.live.erase id := by
    rw [(nodup_live w).erase_eq_filter]
    unfold live
    rw [ht.callbacks, hg, List.filter_filter]
    refine List.filter_congr fun x _ => ?_
    by_cases hx : x = id <;> simp [hx]
  have hb : w.bound? id = some (c.slot, ⟨c.signature, c.closure⟩) := by
    simp [bound?, (trampoline?_eq_some.mp h).1]
  have hp := (List.perm_cons_erase (mem_live_of_trampoline? h)).filterMap w.bound?
  rw [List.filterMap_cons_some hb] at hp
  unfold trampolines
  rw [hl, bound?_congr ht.callbacks]
  exact hp

/-- Retiring what nothing holds keeps the invariant. -/
theorem Sound.retire (hw : w.Sound roots) (hr : w.Alive r)
    (hn : w.isHeld roots r = false) : (w.retire r).Sound roots := by
  obtain ⟨hcodes, hdirectory⟩ := codes_retire w r
  have ht := (sameTables_retire w r).1
  refine ⟨hw.toClosed.retire hr.1 hn, ?_, ?_, ?_, ?_⟩
  · by_cases hc : ∃ id, r = .callback id
    · obtain ⟨id, rfl⟩ := hc
      have hid : id < w.callbacks.size := hr.1
      have htr : w.trampoline? id = some w.callbacks[id] :=
        trampoline?_eq_some.mpr ⟨Array.getElem?_eq_getElem hid, hr.2⟩
      rw [pool_retire_callback (Array.getElem?_eq_getElem hid)]
      exact ((hw.pool.perm (perm_trampolines_retire htr)).forget _ _).release
    · have hne : ∀ id, r ≠ .callback id := fun id he => hc ⟨id, he⟩
      rw [pool_retire hne, trampolines_retire hne]
      exact hw.pool
  · unfold Compiled
    rw [ht.callbacks, ht.closures]
    exact hw.compiled
  · unfold Coded
    rw [ht.callbacks, hcodes]
    exact hw.coded
  · unfold Directed
    rw [key?_congr ht.callbacks]
    exact fun e he => hw.directed e (hdirectory e he)

/-- Following references that have been given up keeps the invariant. -/
theorem Sound.collectWithin (fuel : Nat) : ∀ {w : World} (refs : List Ref), w.Sound roots →
    (∀ r ∈ refs, w.Known r) → (w.collectWithin roots fuel refs).Sound roots := by
  induction fuel with
  | zero =>
    intro w refs hw _
    rw [World.collectWithin]
    exact hw
  | succ fuel ih =>
    intro w refs hw hk
    cases refs with
    | nil =>
      rw [World.collectWithin]
      · exact hw
      · exact fun h => Nat.succ_ne_zero _ h
    | cons r rest =>
      rw [World.collectWithin]
      split
      · exact ih rest hw fun x hx => hk x (List.mem_cons_of_mem _ hx)
      · next hc =>
        simp only [Bool.or_eq_true, List.contains_eq_mem, decide_eq_true_eq, not_or,
          Bool.not_eq_true] at hc
        obtain ⟨⟨hg, -⟩, hn⟩ := hc
        have hr : w.Alive r := ⟨hk r (List.mem_cons_self ..), hg⟩
        have ht := (sameTables_retire w r).1
        -- the children of what is retired are looked at next
        refine ih _ (hw.retire hr hn) fun x hx => ht.known.mpr ?_
        rcases List.mem_append.mp hx with hx | hx
        · exact (hw.child r hr x hx).1
        · exact hk x (List.mem_cons_of_mem _ hx)

theorem Sound.collect (hw : w.Sound roots) : (w.collect roots).Sound roots := by
  unfold World.collect
  refine Sound.collectWithin _ _
    ⟨⟨hw.root, hw.child, hw.retired, ?_⟩, hw.pool, hw.compiled, hw.coded, hw.directed⟩ hw.dropped
  intro r hr
  simp at hr

end World

end ForeignCall
