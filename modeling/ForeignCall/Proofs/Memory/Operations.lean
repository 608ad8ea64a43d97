import ForeignCall.Proofs.Memory.Custody
import ForeignCall.Proofs.Memory.Derived
import ForeignCall.Session

/-!
# Operations on owned memory

Memory is allocated, lent or taken into care (`Holdings.Creates`), released early, told whether to
release itself, and held in more and fewer places (`Holdings.Change`). Each operation keeps the
invariant of owners (`Change.custody`), and does to an owner what its name says (`Change.owners`).
-/

namespace ForeignCall

/-! ## Taking a region into care -/

/-- An owner that has just taken a region into care, under the identity `id`, and the view of that
region. A block stands away from the null address, and its end is known. -/
structure Owner.Opens (o : Owner) (id : Nat) (v : View) : Prop where
  autorelease : o.autorelease = true
  released : o.released = false
  address : o.address = v.address
  origin : v.origin = some (.owner id)
  block : (∀ label, o.kind ≠ .foreign label) → v.address ≠ 0 ∧ v.size < unbounded

namespace Memory

variable {m m' : Memory} {v : View} {typeSize count : Nat}

/-- Memory with one more owner, and a view of the region that it has taken into care. -/
structure Takes (m : Memory) (v : View) (o : Owner) (m' : Memory) : Prop where
  owners : m'.owners = m.owners.push o
  next : m.heap.next ≤ m'.heap.next
  opens : o.Opens m.owners.size v

/-- A block of elements is a block of bytes that is seen in elements. -/
theorem allocate_typed (h : m.allocate typeSize count = .ok (v, m')) :
    ∃ size u, m.allocate 1 size = .ok (u, m') ∧ v = u.typed typeSize := by
  obtain ⟨size, address, hs, hc, hp, rfl, rfl⟩ := allocate_eq h
  have hbytes : totalSize 1 size = .ok size := by
    obtain ⟨rfl, hword⟩ := totalSize_eq_ok_iff.mp hs
    exact totalSize_eq_ok_iff.mpr ⟨(Nat.one_mul _).symm, (Nat.one_mul _).symm ▸ hword⟩
  refine ⟨size, View.ofParts address size 1 (some (.owner m.owners.size)), ?_, rfl⟩
  simp [allocate, hbytes, hc, hp, Checked.outcome, bind, Except.bind, Heap.obtain,
    orOverflow, pure, Except.pure]

theorem takes_allocate (hb : 0 < m.heap.next) (h : m.allocate typeSize count = .ok (v, m')) :
    ∃ o, m.Takes v o m' := by
  obtain ⟨size, u, hu, rfl⟩ := allocate_typed h
  obtain ⟨address, heap, rfl, rfl, hc, hnext, hheap, -⟩ := allocate_eq_ok hu
  have hlimit : signedLimit < unbounded := by decide
  refine ⟨_, rfl, ?_, rfl, rfl, rfl, rfl, fun _ => ⟨?_, ?_⟩⟩
  · show m.heap.next ≤ heap.next
    omega
  · show address ≠ 0
    omega
  · show size < unbounded
    omega

theorem takes_allocateBytes {bytes : List UInt8} (hb : 0 < m.heap.next)
    (h : m.allocateBytes bytes = .ok (v, m')) : ∃ o, m.Takes v o m' := by
  unfold allocateBytes at h
  cases ha : m.allocate 1 (bytes.length + 1) with
  | error e =>
    rw [ha] at h
    cases h
  | ok r =>
    obtain ⟨u, m₁⟩ := r
    obtain ⟨o, howners, hnext, hopens⟩ := takes_allocate hb ha
    rw [ha] at h
    cases hw : m₁.writeBytes u 0 (bytes ++ [0]) with
    | error e =>
      simp only [hw, bind, Except.bind, Checked.outcome] at h
      cases h
    | ok m₂ =>
      obtain ⟨-, rfl⟩ := writeBytes_eq_ok hw
      simp only [hw, bind, Except.bind, Checked.outcome, pure, Except.pure, Except.ok.injEq,
        Prod.mk.injEq] at h
      obtain ⟨rfl, rfl⟩ := h
      refine ⟨o, howners, ?_, hopens⟩
      rw [Heap.next_store]
      exact hnext

theorem takes_allocateBuffer (hb : 0 < m.heap.next)
    (h : m.allocateBuffer typeSize count = .ok (v, m')) : ∃ o, m.Takes v o m' := by
  unfold allocateBuffer at h
  cases hs : totalSize typeSize count with
  | error e =>
    rw [hs] at h
    cases h
  | ok size =>
    rw [hs] at h
    have hlimit : signedLimit < unbounded := by decide
    by_cases hc : size ≠ 0 ∧ m.heap.refuses (roundUp size 8) = true
    · simp [hc, bind, Except.bind, throw, throwThe, MonadExceptOf.throw] at h
    have hfit : size < signedLimit := by
      rw [not_and, Bool.not_eq_true] at hc
      rcases Nat.eq_zero_or_pos size with rfl | hpos
      · decide
      · exact Nat.lt_of_le_of_lt (le_roundUp size (by decide))
          (Heap.lt_signedLimit_of_refuses (hc (Nat.ne_of_gt hpos)))
    simp only [hc, bind, Except.bind, pure, Except.pure, if_false, Except.ok.injEq,
      Prod.mk.injEq] at h
    obtain ⟨rfl, rfl⟩ := h
    have hn := m.heap.next_obtain size
    refine ⟨_, rfl, ?_, rfl, rfl, rfl, rfl, fun _ => ⟨?_, ?_⟩⟩
    · dsimp only
      split
      · exact Nat.le_refl _
      · omega
    · -- a buffer without bytes has an address of its own
      dsimp only [View.ofParts]
      split
      · exact Nat.succ_ne_zero 7
      · exact Nat.pos_iff_ne_zero.mp hb
    · show size < unbounded
      omega

end Memory

theorem takes_adopt {label : String} {u v : View} {w w' : World}
    (h : adopt label u w = (.ok v, w')) :
    ∃ o memory, w.memory.Takes v o memory ∧ w' = { w with memory } := by
  unfold adopt at h
  split at h
  · cases h
  · obtain ⟨hv, rfl⟩ := Prod.mk.inj h
    obtain rfl := Except.ok.inj hv
    refine ⟨_, ⟨w.memory.heap, _⟩, ⟨rfl, Nat.le_refl _, rfl, rfl, rfl, rfl, ?_⟩, rfl⟩
    intro hk
    exact absurd rfl (hk label)

/-! ## The invariant -/

namespace World

variable {w w' : World} {roots refs rest : List Ref} {r : Ref} {id : Nat}

theorem SameHoldings.isHeld (h : SameHoldings w w') (roots : List Ref) (r : Ref) :
    w'.isHeld roots r = w.isHeld roots r := by
  have hc : w'.children = w.children := funext h.toSameTables.children
  unfold World.isHeld holders
  rw [hc, h.callbacks, h.closures, h.retentions, h.gone]

theorem isHeld_mono {roots' : List Ref} (hs : roots ⊆ roots') (h : w.isHeld roots r = true) :
    w.isHeld roots' r = true := by
  rw [isHeld_eq_true] at h ⊢
  exact h.imp_left fun hr => hs hr

/-- Only the body of a closure holds owners of its own. -/
theorem body_of_owner_mem_children {h : Ref} (hr : .owner id ∈ w.children h) :
    ∃ b < w.closures.size, h = .body b := by
  cases h with
  | body b =>
    refine ⟨b, ?_, rfl⟩
    by_contra hn
    simp [children, Array.getElem?_eq_none (Nat.le_of_not_lt hn)] at hr
  | proc b =>
    simp only [children] at hr
    split at hr <;> simp at hr
  | callback c => simp [children, bodyOf] at hr
  | retention k => simp [children] at hr
  | owner k => simp [children] at hr
  | library k => simp [children] at hr

namespace Custody

theorem lt_of_isHeld (hw : w.Custody roots) (h : w.isHeld roots (.owner id) = true) :
    id < w.memory.owners.size := by
  rcases isHeld_eq_true.mp h with hr | ⟨x, -, hx⟩
  · exact hw.known id (Or.inl hr)
  · exact hw.known id (Or.inr (Or.inr (Or.inr ⟨x, hx⟩)))

theorem not_mem_gone (hw : w.Custody roots) (hid : w.memory.owners.size ≤ id) :
    Ref.owner id ∉ w.gone := by
  intro hg
  have hlt := hw.known id (Or.inr (Or.inl hg))
  omega

/-- One more owner is held by its handle. -/
theorem create {v : View} {o : Owner} {memory : Memory} (hw : w.Custody roots)
    (ht : w.memory.Takes v o memory) :
    Custody { w with memory } (.owner w.memory.owners.size :: roots) := by
  have hsame : SameHoldings w { w with memory } := ⟨⟨rfl, rfl, rfl⟩, rfl, rfl, rfl⟩
  have hsound := hw.toSound.congr hsame
  have hsize : memory.owners.size = w.memory.owners.size + 1 := by
    rw [ht.owners, Array.size_push]
  have hnew : w.Alive (.owner w.memory.owners.size) :=
    ⟨trivial, hw.not_mem_gone (Nat.le_refl _)⟩
  refine ⟨⟨⟨?_, hsound.child, hsound.retired, hsound.dropped⟩, hsound.pool, hsound.compiled,
    hsound.coded, hsound.directed⟩, ?_, ?_, ?_, ?_⟩
  · intro r hr
    rcases List.mem_cons.mp hr with rfl | hr
    · exact hnew
    · exact hsound.root r hr
  · intro id h
    show id < memory.owners.size
    rw [List.mem_cons, or_assoc] at h
    rcases h with he | h
    · rw [hsize, Ref.owner.inj he]
      exact Nat.lt_succ_self _
    · have hlt := hw.known id (h.imp_right fun h => h.imp_right fun h =>
        h.imp_right fun ⟨x, hx⟩ => ⟨x, hsame.toSameTables.children x ▸ hx⟩)
      omega
  · intro id hid
    have hlt : id < w.memory.owners.size + 1 := hsize ▸ hid
    rcases Nat.lt_succ_iff_lt_or_eq.mp hlt with hlt | rfl
    · refine (hw.kept id hlt).imp_left fun hheld => ?_
      refine isHeld_mono (List.subset_cons_self _ _) ?_
      rw [hsame.isHeld]
      exact hheld
    · exact Or.inl (isHeld_eq_true.mpr (Or.inl List.mem_cons_self))
  · have hnone : o.release? = none := by
      unfold Owner.release?
      rw [ht.opens.released]
      split <;> rfl
    show w.releases.Perm (memory.owners.toList.filterMap Owner.release?)
    rw [ht.owners, Array.toList_push, List.filterMap_append, List.filterMap_cons_none hnone,
      List.filterMap_nil, List.append_nil]
    exact hw.ran
  · exact Nat.lt_of_lt_of_le hw.base ht.next

/-- What is given up is looked at. -/
theorem give (hw : w.Custody roots) (hp : roots.Perm (refs ++ rest)) :
    Custody { w with dropped := w.dropped ++ refs } rest := by
  refine ⟨hw.toSound.give hp, ?_, ?_, hw.ran, hw.base⟩
  · rintro id (h | h | h | h)
    · exact hw.known id (Or.inl (hp.mem_iff.mpr (List.mem_append_right _ h)))
    · exact hw.known id (Or.inr (Or.inl h))
    · rcases List.mem_append.mp h with h | h
      · exact hw.known id (Or.inr (Or.inr (Or.inl h)))
      · exact hw.known id (Or.inl (hp.mem_iff.mpr (List.mem_append_left _ h)))
    · exact hw.known id (Or.inr (Or.inr (Or.inr h)))
  · intro id hid
    rcases hw.kept id hid with h | h | h
    · rcases isHeld_eq_true.mp h with h | h
      · rcases List.mem_append.mp (hp.mem_iff.mp h) with h | h
        · exact Or.inr (Or.inr (List.mem_append_right _ h))
        · exact Or.inl (isHeld_eq_true.mpr (Or.inl h))
      · exact Or.inl (isHeld_eq_true.mpr (Or.inr h))
    · exact Or.inr (Or.inl h)
    · exact Or.inr (Or.inr (List.mem_append_left _ h))

end Custody

end World

namespace Holdings

/-- What holds owners is passed on: nothing that held one is lost, and what is new holds only owners
that were held before. -/
structure Passes (s t : Holdings) : Prop where
  gone : t.world.gone = s.world.gone
  dropped : ∀ id, .owner id ∈ t.world.dropped ↔ .owner id ∈ s.world.dropped
  held : s.held ⊆ t.held
  body : ∀ b < s.world.closures.size, b < t.world.closures.size ∧
    t.world.children (.body b) = s.world.children (.body b)
  fresh : ∀ id, (.owner id ∈ t.held ∨
      ∃ b, s.world.closures.size ≤ b ∧ .owner id ∈ t.world.children (.body b)) →
    s.world.isHeld s.held (.owner id) = true

variable {s t : Holdings} {w w' : World} {held held' : List Ref} {id : Nat}

/-- The bodies of closures hold what they held. -/
theorem Passes.of_bodies (hg : w'.gone = w.gone)
    (hd : ∀ id, .owner id ∈ w'.dropped ↔ .owner id ∈ w.dropped)
    (hc : w'.closures.size = w.closures.size)
    (hb : ∀ b, w'.children (.body b) = w.children (.body b)) : Passes ⟨w, held⟩ ⟨w', held⟩ := by
  refine ⟨hg, hd, List.Subset.refl _, fun b hlt => ⟨?_, hb b⟩, ?_⟩
  · show b < w'.closures.size
    rw [hc]
    exact hlt
  · rintro id (h | ⟨b, hle, h⟩)
    · exact World.isHeld_eq_true.mpr (Or.inl h)
    · have hchild : Ref.owner id ∈ w.children (.body b) := hb b ▸ h
      obtain ⟨b', hlt, he⟩ := World.body_of_owner_mem_children hchild
      obtain rfl := Ref.body.inj he
      exact absurd hlt (Nat.not_lt.mpr hle)

theorem Passes.of_closures (hc : w'.closures = w.closures) (hg : w'.gone = w.gone)
    (hd : ∀ id, .owner id ∈ w'.dropped ↔ .owner id ∈ w.dropped) :
    Passes ⟨w, held⟩ ⟨w', held⟩ := by
  refine .of_bodies hg hd (by rw [hc]) fun b => ?_
  unfold World.children
  rw [hc]

theorem Passes.refl (s : Holdings) : s.Passes s := .of_closures rfl rfl fun _ => Iff.rfl

/-- One reference more, to an owner only if that was held. -/
theorem Passes.cons {r : Ref} (h : Passes ⟨w, held⟩ ⟨w', held⟩)
    (hr : ∀ id, r = .owner id → w.isHeld held (.owner id) = true) :
    Passes ⟨w, held⟩ ⟨w', r :: held⟩ := by
  refine ⟨h.gone, h.dropped, List.subset_cons_self _ _, h.body, ?_⟩
  rintro id (hid | hid)
  · rcases List.mem_cons.mp hid with he | hid
    · exact hr id he.symm
    · exact h.fresh id (Or.inl hid)
  · exact h.fresh id (Or.inr hid)

theorem passes_withClosure (label : String) {captured : List Value}
    (hc : ∀ r ∈ captured.flatMap Value.refs, w.isHeld held r = true) :
    Passes ⟨w, held⟩ ⟨w.withClosure label captured, held⟩ := by
  refine ⟨rfl, fun id => Iff.rfl, List.Subset.refl _, ?_, ?_⟩
  · intro b hb
    refine ⟨Nat.lt_of_lt_of_le hb (by simp [World.withClosure]), ?_⟩
    exact World.children_withClosure_of_known label captured (r := .body b) hb
  · rintro id (h | ⟨b, hle, h⟩)
    · exact World.isHeld_eq_true.mpr (Or.inl h)
    · simp only [World.children, World.withClosure, Array.getElem?_push] at h
      split at h
      · -- the body of the new closure holds what it has captured
        exact hc _ h
      · rw [Array.getElem?_eq_none hle] at h
        cases h

/-- Bodies hold what they held when a closure has been given a callback. -/
theorem passes_keepCompiled (pool : Pool) (callbacks : Array Callback) (closure id : Nat) :
    Passes ⟨w, held⟩ ⟨World.keepCompiled { w with pool, callbacks } closure id, held⟩ := by
  refine .of_bodies rfl (fun _ => Iff.rfl) (by simp [World.keepCompiled]) fun b => ?_
  simp only [World.children, World.keepCompiled, Array.getElem?_modify]
  split
  · simp [Option.map_map, Function.comp_def]
  · rfl

/-- Everything but a drop passes on what holds owners. -/
theorem Step.passes (h : Step s t) : s.Passes t ∨
    ∃ refs rest, s.held.Perm (refs ++ rest) ∧
      t = ⟨{ s.world with dropped := s.world.dropped ++ refs }.collect rest, rest⟩ := by
  cases h with
  | closure label captured hc => exact Or.inl ((passes_withClosure label hc).cons nofun)
  | @compile w w' held signature closure id prepared hc h =>
    rcases World.makeCallback_cases signature closure prepared w with
      ⟨i, -, hm⟩ | ⟨i, -, -, hm⟩ | ⟨slot, pool, -, -, hm⟩ | ⟨f, pool, -, hm⟩
    · obtain ⟨-, rfl⟩ := Prod.mk.inj (hm.symm.trans h)
      exact Or.inl ((Passes.refl _).cons nofun)
    · obtain ⟨-, rfl⟩ := Prod.mk.inj (hm.symm.trans h)
      exact Or.inl ((passes_keepCompiled w.pool w.callbacks closure i).cons nofun)
    · obtain ⟨-, rfl⟩ := Prod.mk.inj (hm.symm.trans h)
      exact Or.inl ((passes_keepCompiled _ _ closure _).cons nofun)
    · obtain ⟨he, -⟩ := Prod.mk.inj (hm.symm.trans h)
      cases he
  | @refused w w' held signature closure prepared e h =>
    rcases World.makeCallback_cases signature closure prepared w with
      ⟨i, -, hm⟩ | ⟨i, -, -, hm⟩ | ⟨slot, pool, -, -, hm⟩ | ⟨f, pool, -, hm⟩
    · obtain ⟨he, -⟩ := Prod.mk.inj (hm.symm.trans h)
      cases he
    · obtain ⟨he, -⟩ := Prod.mk.inj (hm.symm.trans h)
      cases he
    · obtain ⟨he, -⟩ := Prod.mk.inj (hm.symm.trans h)
      cases he
    · obtain ⟨-, rfl⟩ := Prod.mk.inj (hm.symm.trans h)
      exact Or.inl (.of_closures rfl rfl fun _ => Iff.rfl)
  | grow => exact Or.inl (.of_closures rfl rfl fun _ => Iff.rfl)
  | clone hr => exact Or.inl ((Passes.refl _).cons fun _ he => he ▸ hr)
  | @struct w w' held id h =>
    obtain ⟨-, rfl⟩ := Prod.mk.inj h
    have hp : Passes ⟨w, held⟩ ⟨{ w with retentions := w.retentions.push [] }, held⟩ :=
      .of_closures rfl rfl fun _ => Iff.rfl
    exact Or.inl (hp.cons nofun)
  | keep _ _ h =>
    rw [World.retain_eq] at h
    obtain ⟨-, rfl⟩ := Prod.mk.inj h
    -- a map of a struct gives up callbacks only
    exact Or.inl (.of_closures rfl rfl fun id => by simp)
  | @clear w w' held i o _ h =>
    rcases World.clear_cases i w with ⟨o', memory, he⟩ | ⟨o', memory, inside, he⟩
    · obtain ⟨-, rfl⟩ := Prod.mk.inj (he.symm.trans h)
      exact Or.inl (.of_closures rfl rfl fun _ => Iff.rfl)
    · obtain ⟨-, rfl⟩ := Prod.mk.inj (he.symm.trans h)
      exact Or.inl (.of_closures rfl rfl fun id => by simp)
  | drop hp => exact Or.inr ⟨_, _, hp, rfl⟩
  | other h => exact Or.inl (.of_closures h.closures h.gone fun id => by rw [h.dropped])

/-- Passing on what holds owners keeps the invariant of owners. -/
theorem Passes.custody (h : s.Passes t) (hs : s.world.Custody s.held)
    (ht : t.world.Sound t.held) (hsize : t.world.memory.owners.size = s.world.memory.owners.size)
    (hran : t.world.releases.Perm t.world.releasedOwners)
    (hbase : 0 < t.world.memory.heap.next) : t.world.Custody t.held := by
  refine ⟨ht, ?_, ?_, hran, hbase⟩
  · rw [hsize]
    rintro id (hid | hid | hid | ⟨x, hid⟩)
    · exact hs.lt_of_isHeld (h.fresh id (Or.inl hid))
    · exact hs.known id (Or.inr (Or.inl (h.gone ▸ hid)))
    · exact hs.known id (Or.inr (Or.inr (Or.inl ((h.dropped id).mp hid))))
    · obtain ⟨b, -, rfl⟩ := World.body_of_owner_mem_children hid
      by_cases hb : b < s.world.closures.size
      · rw [(h.body b hb).2] at hid
        exact hs.known id (Or.inr (Or.inr (Or.inr ⟨_, hid⟩)))
      · exact hs.lt_of_isHeld (h.fresh id (Or.inr ⟨b, Nat.le_of_not_lt hb, hid⟩))
  · intro id hid
    rw [h.gone, h.dropped]
    refine (hs.kept id (hsize ▸ hid)).imp_left fun hheld => World.isHeld_eq_true.mpr ?_
    rcases World.isHeld_eq_true.mp hheld with hheld | ⟨x, ⟨-, hx⟩, hheld⟩
    · exact Or.inl (h.held hheld)
    · obtain ⟨b, hb, rfl⟩ := World.body_of_owner_mem_children hheld
      obtain ⟨hlt, hsame⟩ := h.body b hb
      exact Or.inr ⟨.body b, ⟨hlt, h.gone ▸ hx⟩, hsame ▸ hheld⟩

theorem Step.custody (h : Step s t) (hs : s.world.Custody s.held)
    (ho : t.world.memory.owners = s.world.memory.owners)
    (hr : t.world.releases = s.world.releases)
    (hn : s.world.memory.heap.next ≤ t.world.memory.heap.next) : t.world.Custody t.held := by
  rcases h.passes with hp | ⟨refs, rest, hp, rfl⟩
  · refine hp.custody hs (h.sound hs.toSound) (by rw [ho]) ?_ (Nat.lt_of_lt_of_le hs.base hn)
    unfold World.releasedOwners
    rw [hr, ho]
    exact hs.ran
  · exact (hs.give hp).collect

/-! ## Operations -/

/-- A region is taken into care under the identity `id`, and `v` is the handle on it: a block, empty
or with given bytes, a buffer to be lent, or foreign memory with a function that releases it. -/
inductive Creates : Holdings → Nat → View → Holdings → Prop where
  | allocate {w : World} {held : List Ref} {typeSize count : Nat} {v : View} {memory : Memory}
      (h : w.memory.allocate typeSize count = .ok (v, memory)) :
      Creates ⟨w, held⟩ w.memory.owners.size v
        ⟨{ w with memory }, .owner w.memory.owners.size :: held⟩
  | bytes {w : World} {held : List Ref} {bytes : List UInt8} {v : View} {memory : Memory}
      (h : w.memory.allocateBytes bytes = .ok (v, memory)) :
      Creates ⟨w, held⟩ w.memory.owners.size v
        ⟨{ w with memory }, .owner w.memory.owners.size :: held⟩
  | buffer {w : World} {held : List Ref} {typeSize count : Nat} {v : View} {memory : Memory}
      (h : w.memory.allocateBuffer typeSize count = .ok (v, memory)) :
      Creates ⟨w, held⟩ w.memory.owners.size v
        ⟨{ w with memory }, .owner w.memory.owners.size :: held⟩
  | adopt {w w' : World} {held : List Ref} {label : String} {u v : View}
      (h : ForeignCall.adopt label u w = (.ok v, w')) :
      Creates ⟨w, held⟩ w.memory.owners.size v ⟨w', .owner w.memory.owners.size :: held⟩

/-- What an operation asks of an owner. -/
inductive Operation where
  | free (id : Nat)
  | setAutorelease (id : Nat) (on : Bool)
  /-- Nothing: something is created, held or dropped. -/
  | other
  deriving DecidableEq

/-- What an operation makes of an owner by itself. -/
def Operation.on (id : Nat) : Operation → Owner → Owner
  | .free i, o => if i = id then { o with released := true } else o
  | .setAutorelease i on, o => if i = id then { o with autorelease := on } else o
  | .other, o => o

/-- An operation, before anything is looked at that it has given up. A lent buffer has neither a
function that frees it nor one that keeps it. -/
inductive Change : Holdings → Operation → Holdings → Prop where
  | create {s t : Holdings} {id : Nat} {v : View} (h : Creates s id v t) : Change s .other t
  | free {w : World} {held : List Ref} {id : Nat} (hr : w.isHeld held (.owner id) = true)
      (hk : w.memory.owners[id]?.map Owner.kind ≠ some .buffer) :
      Change ⟨w, held⟩ (.free id) ⟨w.releaseOwner id, held⟩
  | setAutorelease {w : World} {held : List Ref} {id : Nat} {on : Bool}
      (hr : w.isHeld held (.owner id) = true)
      (hk : w.memory.owners[id]?.map Owner.kind ≠ some .buffer) :
      Change ⟨w, held⟩ (.setAutorelease id on)
        ⟨{ w with memory := w.memory.modifyOwner id fun o => { o with autorelease := on } }, held⟩
  /-- Handles and views are dropped, in any order. -/
  | drop {w : World} {held refs rest : List Ref} (hp : held.Perm (refs ++ rest)) :
      Change ⟨w, held⟩ .other ⟨{ w with dropped := w.dropped ++ refs }, rest⟩
  /-- A handle is cloned, a view derived, a value captured by a closure, a struct laid over memory,
  memory read and written, and whatever else leaves the owners of regions alone. -/
  | hold {s t : Holdings} (h : Step s t) (hg : t.world.gone = s.world.gone)
      (ho : t.world.memory.owners = s.world.memory.owners)
      (hr : t.world.releases = s.world.releases)
      (hn : s.world.memory.heap.next ≤ t.world.memory.heap.next) : Change s .other t

theorem Creates.takes {v : View} (h : Creates s id v t) (hb : 0 < s.world.memory.heap.next) :
    id = s.world.memory.owners.size ∧ ∃ o memory, s.world.memory.Takes v o memory ∧
      t = ⟨{ s.world with memory }, .owner id :: s.held⟩ := by
  cases h with
  | allocate h =>
    obtain ⟨o, ho⟩ := Memory.takes_allocate hb h
    exact ⟨rfl, o, _, ho, rfl⟩
  | bytes h =>
    obtain ⟨o, ho⟩ := Memory.takes_allocateBytes hb h
    exact ⟨rfl, o, _, ho, rfl⟩
  | buffer h =>
    obtain ⟨o, ho⟩ := Memory.takes_allocateBuffer hb h
    exact ⟨rfl, o, _, ho, rfl⟩
  | adopt h =>
    obtain ⟨o, memory, ho, rfl⟩ := takes_adopt h
    exact ⟨rfl, o, memory, ho, rfl⟩

theorem Creates.custody {v : View} (h : Creates s id v t) (hs : s.world.Custody s.held) :
    t.world.Custody t.held := by
  obtain ⟨rfl, o, memory, ho, rfl⟩ := h.takes hs.base
  exact hs.create ho

variable {op : Operation}

theorem releasedOwners_modifyOwner (w : World) (id : Nat) {f : Owner → Owner}
    (hf : ∀ o : Owner, (f o).release? = o.release?) :
    World.releasedOwners { w with memory := w.memory.modifyOwner id f } = w.releasedOwners := by
  unfold World.releasedOwners Memory.modifyOwner
  dsimp only
  cases ho : w.memory.owners[id]? with
  | none => rw [World.modify_eq_self fun o' ho' => by cases ho.symm.trans ho']
  | some o =>
    obtain ⟨before, after, hold, hnew⟩ := World.exists_filterMap_modify f ho
    rw [hnew, hf, ← hold]

/-- Each operation keeps the invariant of owners. -/
theorem Change.custody (h : Change s op t) (hs : s.world.Custody s.held) :
    t.world.Custody t.held := by
  cases h with
  | create h => exact h.custody hs
  | @free w held id hr hk =>
    obtain ⟨ht, hg, hd, hp⟩ := World.sameTables_releaseOwner w id
    have hsame : World.SameHoldings w (w.releaseOwner id) := ⟨ht, hp, hg, hd⟩
    have hpass : Passes ⟨w, held⟩ ⟨w.releaseOwner id, held⟩ :=
      .of_closures ht.closures hg fun _ => by rw [hd]
    refine hpass.custody hs (hs.toSound.congr hsame) ?_ (World.perm_releaseOwner hs.ran) ?_
    · simp only [World.owners_releaseOwner, Array.size_modify]
    · dsimp only
      rw [World.heap_releaseOwner]
      exact hs.base
  | @setAutorelease w held id on hr hk =>
    have hpass : Passes ⟨w, held⟩ ⟨{ w with
        memory := w.memory.modifyOwner id fun o => { o with autorelease := on } }, held⟩ :=
      .of_closures rfl rfl fun _ => Iff.rfl
    refine hpass.custody hs (hs.toSound.congr ⟨⟨rfl, rfl, rfl⟩, rfl, rfl, rfl⟩) ?_ ?_ hs.base
    · exact Array.size_modify
    · dsimp only
      rw [releasedOwners_modifyOwner w id (f := fun o => { o with autorelease := on })
        fun o => rfl]
      exact hs.ran
  | drop hp => exact hs.give hp
  | hold h _ ho hr hn => exact h.custody hs ho hr hn

theorem Change.gone (h : Change s op t) (hs : s.world.Custody s.held) :
    t.world.gone = s.world.gone := by
  cases h with
  | create h =>
    obtain ⟨-, o, memory, -, rfl⟩ := h.takes hs.base
    rfl
  | free hr hk => exact (World.sameTables_releaseOwner _ _).2.1
  | setAutorelease hr hk => rfl
  | drop hp => rfl
  | hold _ hg _ _ _ => exact hg

/-- An operation on an owner gives up nothing. -/
theorem Change.dropped (h : Change s op t) (hop : op ≠ .other) :
    t.world.dropped = s.world.dropped := by
  cases h with
  | create _ => exact absurd rfl hop
  | free hr hk => exact (World.sameTables_releaseOwner _ _).2.2.1
  | setAutorelease hr hk => rfl
  | drop _ => exact absurd rfl hop
  | hold _ _ _ _ _ => exact absurd rfl hop

theorem Change.size_owners (h : Change s op t) (hs : s.world.Custody s.held) :
    s.world.memory.owners.size ≤ t.world.memory.owners.size := by
  cases h with
  | create h =>
    obtain ⟨-, o, memory, ho, rfl⟩ := h.takes hs.base
    simp [ho.owners]
  | free hr hk => simp [World.owners_releaseOwner]
  | setAutorelease hr hk => simp [Memory.modifyOwner]
  | drop hp => exact Nat.le_refl _
  | hold _ _ ho _ _ => exact Nat.le_of_eq (congrArg Array.size ho.symm)

theorem getElem?_modify_eq_map (owners : Array Owner) (i id : Nat) (f : Owner → Owner) :
    (owners.modify i f)[id]? = owners[id]?.map fun o => if i = id then f o else o := by
  rw [Array.getElem?_modify]
  by_cases he : i = id
  · simp only [he, if_true]
  · simp only [he, if_false, Option.map_id']

/-- An owner that there was is as the operation makes it. -/
theorem Change.owners (h : Change s op t) (hs : s.world.Custody s.held)
    (hid : id < s.world.memory.owners.size) :
    t.world.memory.owners[id]? = s.world.memory.owners[id]?.map (op.on id) := by
  have hsame : ∀ owners : Array Owner, owners[id]?.map (Operation.other.on id) = owners[id]? :=
    fun owners => Option.map_id'
  cases h with
  | create h =>
    obtain ⟨-, o, memory, ho, rfl⟩ := h.takes hs.base
    rw [hsame, ho.owners, World.getElem?_push_of_lt hid]
  | @free w held i hr hk =>
    rw [World.owners_releaseOwner, getElem?_modify_eq_map]
    rfl
  | setAutorelease hr hk => exact getElem?_modify_eq_map _ _ _ _
  | drop hp => exact (hsame _).symm
  | hold _ _ ho _ _ => rw [hsame, ho]

theorem Change.isHeld_of_free (h : Change s (.free id) t) :
    s.world.isHeld s.held (.owner id) = true := by
  cases h with
  | free hr _ => exact hr

end Holdings

end ForeignCall
