import ForeignCall.Proofs.Memory.Operations

/-!
# Releasing a region

A history is a list of moments: the state before an operation, the operation, and the state after
it, when everything that it has given up has been looked at. A region is released at one moment of a
history at most: when it is freed first, or when its last holder goes while the owner releases by
itself.

Main statement: `Holdings.released_once`.
-/

namespace ForeignCall

namespace Holdings

variable {s t : Holdings} {id : Nat} {op : Operation}

/-! ## One operation -/

/-- Whether anything holds an owner. -/
def holds (s : Holdings) (id : Nat) : Bool := s.world.isHeld s.held (.owner id)

/-- Whether an owner has released its region. -/
def released (s : Holdings) (id : Nat) : Bool := s.world.memory.owners[id]?.any Owner.released

/-- The state when everything has been looked at that has been given up. -/
def settle (s : Holdings) : Holdings := ⟨s.world.collect s.held, s.held⟩

/-- An operation, and a look at everything that it has given up. -/
def Transition (s : Holdings) (op : Operation) (t : Holdings) : Prop :=
  ∃ u, Change s op u ∧ t = u.settle

/-- Nothing is left to be looked at. -/
structure Settled (s : Holdings) : Prop where
  custody : s.world.Custody s.held
  dropped : s.world.dropped = []

theorem Settled.holds_eq_true (hs : s.Settled) (hid : id < s.world.memory.owners.size) :
    s.holds id = true ↔ Ref.owner id ∉ s.world.gone := by
  constructor
  · intro h
    exact (hs.custody.toClosed.alive_of_isHeld h).2
  · intro h
    rcases hs.custody.kept id hid with hk | hk | hk
    · exact hk
    · exact absurd hk h
    · rw [hs.dropped] at hk
      cases hk

theorem settled_start (setup : Setup) : (start setup).Settled := by
  refine ⟨⟨sound_start setup, ?_, ?_, ?_, ?_⟩, rfl⟩
  · rintro id (h | h | h | ⟨x, h⟩)
    · cases h
    · cases h
    · cases h
    · obtain ⟨b, hb, -⟩ := World.body_of_owner_mem_children h
      exact absurd hb (Nat.not_lt_zero b)
  · exact fun id hid => absurd hid (Nat.not_lt_zero id)
  · exact List.Perm.refl _
  · show 0 < World.heapBase
    decide

theorem Transition.settled (h : Transition s op t) (hs : s.Settled) : t.Settled := by
  obtain ⟨u, hu, rfl⟩ := h
  exact ⟨(hu.custody hs.custody).collect, World.dropped_collect _ _⟩

theorem Transition.size_owners (h : Transition s op t) (hs : s.Settled) :
    s.world.memory.owners.size ≤ t.world.memory.owners.size := by
  obtain ⟨u, hu, rfl⟩ := h
  unfold settle
  rw [World.size_owners_collect]
  exact hu.size_owners hs.custody

theorem Transition.gone (h : Transition s op t) (hs : s.Settled) :
    s.world.gone ⊆ t.world.gone := by
  obtain ⟨u, hu, rfl⟩ := h
  rw [← hu.gone hs.custody]
  exact (World.letsGo_collect _ _).gone

/-- What nothing holds is never held again. -/
theorem Transition.holds_eq_false (h : Transition s op t) (hs : s.Settled)
    (hid : id < s.world.memory.owners.size) (hn : s.holds id = false) : t.holds id = false := by
  have hgone : Ref.owner id ∈ s.world.gone := by
    by_contra hg
    rw [(hs.holds_eq_true hid).mpr hg] at hn
    cases hn
  have hlt : id < t.world.memory.owners.size := Nat.lt_of_lt_of_le hid (h.size_owners hs)
  refine Bool.eq_false_iff.mpr fun ht => ?_
  exact ((h.settled hs).holds_eq_true hlt).mp ht (h.gone hs hgone)

/-- An operation on an owner takes no holder away. -/
theorem Transition.holds_of_ne_other (h : Transition s op t) (hs : s.Settled)
    (hop : op ≠ .other) (hid : id < s.world.memory.owners.size) : t.holds id = s.holds id := by
  have hlt : id < t.world.memory.owners.size := Nat.lt_of_lt_of_le hid (h.size_owners hs)
  have ht := h.settled hs
  obtain ⟨u, hu, rfl⟩ := h
  rw [Bool.eq_iff_iff, ht.holds_eq_true hlt, hs.holds_eq_true hid]
  unfold settle
  rw [World.collect_of_settled ((hu.dropped hop).trans hs.dropped), hu.gone hs.custody]

/-- An owner that there was is as the operation makes it, and let go if its last holder went. -/
theorem Transition.owners (h : Transition s op t) (hs : s.Settled)
    (hid : id < s.world.memory.owners.size) :
    t.world.memory.owners[id]? = s.world.memory.owners[id]?.map fun o =>
      (op.on id o).letGo (s.holds id && !t.holds id) := by
  have hlt : id < t.world.memory.owners.size := Nat.lt_of_lt_of_le hid (h.size_owners hs)
  have ht := h.settled hs
  have hgone : (s.holds id && !t.holds id) =
      decide (Ref.owner id ∉ s.world.gone ∧ Ref.owner id ∈ t.world.gone) := by
    have hheld := hs.holds_eq_true hid
    have hheld' := ht.holds_eq_true hlt
    rw [Bool.eq_iff_iff, Bool.and_eq_true, hheld, Bool.not_eq_true', ← Bool.not_eq_true, hheld',
      not_not, decide_eq_true_iff]
  obtain ⟨u, hu, rfl⟩ := h
  rw [hgone]
  unfold settle
  rw [(World.letsGo_collect u.world u.held).owners, hu.owners hs.custody hid, Option.map_map,
    hu.gone hs.custody]
  rfl

/-! ## Moments -/

/-- An operation with the states before and after it. -/
structure Moment where
  before : Holdings
  op : Operation
  after : Holdings

/-- Whether the region of an owner is released at a moment. -/
def Moment.releases (m : Moment) (id : Nat) : Bool := !m.before.released id && m.after.released id

/-- Whether the last holder of an owner goes at a moment. -/
def Moment.loses (m : Moment) (id : Nat) : Bool := m.before.holds id && !m.after.holds id

/-- Whether an owner releases by itself after an operation. -/
def Operation.flag (id : Nat) : Operation → Bool → Bool
  | .setAutorelease i on, old => if i = id then on else old
  | _, old => old

/-- Whether an owner releases by itself after some moments; a new one does. -/
def autoreleased (id : Nat) (ms : List Moment) : Bool :=
  ms.foldl (fun on m => m.op.flag id on) true

/-- Moments that lead from one state to another. -/
inductive History : Holdings → List Moment → Holdings → Prop where
  | nil {s : Holdings} : History s [] s
  | snoc {s t u : Holdings} {ms : List Moment} {op : Operation} (h : History s ms t)
      (hstep : Transition t op u) : History s (ms ++ [⟨t, op, u⟩]) u

theorem History.next {u : Holdings} {ms : List Moment} (h : History s ms t) (hu : Change t op u) :
    History s (ms ++ [⟨t, op, u.settle⟩]) u.settle := h.snoc ⟨u, hu, rfl⟩

/-- What a history can lead to from nothing. -/
def Attained (s : Holdings) : Prop := ∃ setup ms, History (start setup) ms s

variable {ms before after : List Moment} {m : Moment}

theorem History.settled (h : History s ms t) (hs : s.Settled) : t.Settled := by
  induction h with
  | nil => exact hs
  | snoc _ hstep ih => exact hstep.settled ih

theorem Attained.settled (h : s.Attained) : s.Settled := by
  obtain ⟨setup, ms, hh⟩ := h
  exact hh.settled (settled_start setup)

/-- A moment of a history is a transition that its earlier moments lead to. -/
theorem History.split (h : History s ms t) (hms : ms = before ++ m :: after) :
    History s before m.before ∧ Transition m.before m.op m.after := by
  induction h generalizing after with
  | nil => simp at hms
  | @snoc t u ms op h hstep ih =>
    rcases List.eq_nil_or_concat after with rfl | ⟨rest, last, rfl⟩
    · obtain ⟨rfl, hm⟩ := List.append_inj' hms rfl
      obtain rfl := (List.cons.inj hm).1
      exact ⟨h, hstep⟩
    · rw [List.concat_eq_append, ← List.cons_append, ← List.append_assoc] at hms
      exact ih (List.append_inj' hms rfl).1

/-! ## An owner through a history -/

section

variable (op : Operation) (id : Nat) (o : Owner)

theorem on_kind : (op.on id o).kind = o.kind := by
  cases op <;> simp only [Operation.on] <;> split <;> rfl

theorem on_address : (op.on id o).address = o.address := by
  cases op <;> simp only [Operation.on] <;> split <;> rfl

theorem on_autorelease : (op.on id o).autorelease = op.flag id o.autorelease := by
  cases op <;> simp only [Operation.on, Operation.flag] <;> split <;> rfl

theorem on_released : (op.on id o).released = (decide (op = .free id) || o.released) := by
  cases op with
  | free i =>
    simp only [Operation.on, Operation.free.injEq]
    by_cases hi : i = id
    · simp [hi]
    · simp [hi]
  | setAutorelease i on =>
    simp only [Operation.on]
    split <;> simp
  | other => simp [Operation.on]

end

theorem released_eq {o : Owner} (h : s.world.memory.owners[id]? = some o) :
    s.released id = o.released := by
  unfold released
  rw [h]
  rfl

theorem lt_size_of_owner {o : Owner} (h : s.world.memory.owners[id]? = some o) :
    id < s.world.memory.owners.size := (Array.getElem?_eq_some_iff.mp h).1

/-- What an operation leaves of an owner. -/
theorem Transition.owner {o : Owner} (h : Transition s op t) (hs : s.Settled)
    (ho : s.world.memory.owners[id]? = some o) :
    ∃ o', t.world.memory.owners[id]? = some o' ∧ o'.kind = o.kind ∧ o'.address = o.address ∧
      o'.autorelease = op.flag id o.autorelease ∧
      t.released id = (decide (op = .free id) || s.released id ||
        (op.flag id o.autorelease && Moment.loses ⟨s, op, t⟩ id)) := by
  have ht := h.owners hs (lt_size_of_owner ho)
  rw [ho, Option.map_some] at ht
  refine ⟨_, ht, on_kind op id o, on_address op id o, on_autorelease op id o, ?_⟩
  rw [released_eq ht, released_eq ho]
  unfold Owner.letGo Moment.loses
  rw [on_released, on_autorelease]

/-- An owner, as it was at first, through the moments of a history since then. -/
structure Tracks (o : Owner) (id : Nat) (ms : List Moment) (t : Holdings) : Prop where
  settled : t.Settled
  owner : ∃ o', t.world.memory.owners[id]? = some o' ∧ o'.kind = o.kind ∧
    o'.address = o.address ∧ o'.autorelease = autoreleased id ms
  freed : .free id ∈ ms.map Moment.op → t.released id = true
  freed_or_lost : t.released id = true → .free id ∈ ms.map Moment.op ∨ t.holds id = false
  count : (ms.countP fun m => m.releases id) = (t.released id).toNat

variable {o : Owner}

/-- The last holder goes with no operation on the owner. -/
theorem Transition.eq_other_of_loses (h : Transition s op t) (hs : s.Settled)
    (hid : id < s.world.memory.owners.size) (hl : Moment.loses ⟨s, op, t⟩ id = true) :
    op = .other := by
  by_contra hop
  unfold Moment.loses at hl
  dsimp only at hl
  rw [h.holds_of_ne_other hs hop hid] at hl
  simp at hl

theorem Transition.holds_of_releases (h : Transition s op t)
    (hr : op = .free id ∨ Moment.loses ⟨s, op, t⟩ id = true) : s.holds id = true := by
  rcases hr with rfl | hl
  · obtain ⟨u, hu, -⟩ := h
    exact hu.isHeld_of_free
  · exact (Bool.and_eq_true_iff.mp hl).1

/-- What is held and has not been freed has not been released. -/
theorem Tracks.released_eq_false (h : Tracks o id ms s) (hf : .free id ∉ ms.map Moment.op)
    (hh : s.holds id = true) : s.released id = false := by
  by_contra hne
  rcases h.freed_or_lost (eq_true_of_ne_false hne) with hf' | hl
  · exact hf hf'
  · rw [hh] at hl
    cases hl

/-- An owner is released when it is freed first, or when its last holder goes while it releases by
itself. -/
theorem Tracks.releases_iff (h : Tracks o id ms s) (hstep : Transition s op t) :
    Moment.releases ⟨s, op, t⟩ id = true ↔ .free id ∉ ms.map Moment.op ∧
      (op = .free id ∨ Moment.loses ⟨s, op, t⟩ id = true ∧ autoreleased id ms = true) := by
  obtain ⟨o', ho', -, -, hauto⟩ := h.owner
  obtain ⟨-, -, -, -, -, hreleased⟩ := hstep.owner h.settled ho'
  rw [hauto] at hreleased
  have hflag : Moment.loses ⟨s, op, t⟩ id = true →
      op.flag id (autoreleased id ms) = autoreleased id ms := by
    intro hl
    rw [hstep.eq_other_of_loses h.settled (lt_size_of_owner ho') hl]
    rfl
  unfold Moment.releases
  dsimp only
  rw [Bool.and_eq_true, Bool.not_eq_true', hreleased]
  constructor
  · rintro ⟨hn, hr⟩
    refine ⟨?_, ?_⟩
    · intro hf
      rw [h.freed hf] at hn
      cases hn
    · rw [hn, Bool.or_false, Bool.or_eq_true, decide_eq_true_iff, Bool.and_eq_true] at hr
      rcases hr with hr | ⟨hr, hl⟩
      · exact Or.inl hr
      · rw [hflag hl] at hr
        exact Or.inr ⟨hl, hr⟩
  · rintro ⟨hf, hr⟩
    have hheld := hstep.holds_of_releases (hr.imp_right And.left)
    refine ⟨h.released_eq_false hf hheld, ?_⟩
    rcases hr with rfl | ⟨hl, hr⟩
    · simp
    · rw [hflag hl, hl, hr]
      simp

theorem Tracks.snoc (h : Tracks o id ms s) (hstep : Transition s op t) :
    Tracks o id (ms ++ [⟨s, op, t⟩]) t := by
  obtain ⟨o₁, ho₁, hkind, haddress, hauto⟩ := h.owner
  obtain ⟨o₂, ho₂, hkind', haddress', hauto', hreleased⟩ := hstep.owner h.settled ho₁
  have hmem : Operation.free id ∈ (ms ++ [Moment.mk s op t]).map Moment.op ↔
      .free id ∈ ms.map Moment.op ∨ op = .free id := by
    rw [List.map_append, List.mem_append, List.map_singleton, List.mem_singleton, eq_comm (a := op)]
  refine ⟨hstep.settled h.settled, ⟨o₂, ho₂, hkind'.trans hkind, haddress'.trans haddress, ?_⟩,
    ?_, ?_, ?_⟩
  · rw [hauto', hauto]
    unfold autoreleased
    rw [List.foldl_append]
    rfl
  · rw [hmem, hreleased]
    rintro (hf | rfl)
    · simp [h.freed hf]
    · simp
  · rw [hmem, hreleased]
    intro hr
    rw [Bool.or_eq_true, Bool.or_eq_true, decide_eq_true_iff, Bool.and_eq_true] at hr
    rcases hr with (hr | hr) | ⟨-, hl⟩
    · exact Or.inl (Or.inr hr)
    · rcases h.freed_or_lost hr with hf | hl
      · exact Or.inl (Or.inl hf)
      · exact Or.inr (hstep.holds_eq_false h.settled (lt_size_of_owner ho₁) hl)
    · unfold Moment.loses at hl
      rw [Bool.and_eq_true, Bool.not_eq_true'] at hl
      exact Or.inr hl.2
  · -- what has been released stays so
    have hmono : s.released id = true → t.released id = true := by
      intro hr
      rw [hreleased, hr]
      simp
    rw [List.countP_append, h.count, List.countP_singleton]
    unfold Moment.releases
    dsimp only
    cases hs : s.released id with
    | true => simp [hmono hs]
    | false => cases t.released id <;> rfl

theorem History.tracks (h : History s ms t) (hs : Tracks o id [] s) : Tracks o id ms t := by
  induction h with
  | nil => exact hs
  | snoc _ hstep ih => exact ih.snoc hstep

theorem Creates.tracks {v : View} (h : Creates s id v t) (hs : s.Settled) :
    ∃ o, o.Opens id v ∧ Tracks o id [] t := by
  have ht := h.custody hs.custody
  obtain ⟨rfl, o, memory, ho, rfl⟩ := h.takes hs.custody.base
  have hget : memory.owners[s.world.memory.owners.size]? = some o := by
    rw [ho.owners, Array.getElem?_push_size]
  have hreleased : released ⟨{ s.world with memory }, .owner s.world.memory.owners.size :: s.held⟩
      s.world.memory.owners.size = false := by
    rw [released_eq hget]
    exact ho.opens.released
  refine ⟨o, ho.opens, ⟨ht, hs.dropped⟩, ⟨o, hget, rfl, rfl, ho.opens.autorelease⟩, ?_, ?_, ?_⟩
  · exact fun hf => absurd hf List.not_mem_nil
  · intro hr
    rw [hreleased] at hr
    cases hr
  · rw [hreleased]
    rfl

/-! ## Accesses -/

theorem isLive_owner (h : s.world.memory.owners[id]? = some o) :
    s.world.memory.isLive (.owner id) = !s.released id := by
  rw [released_eq h]
  simp only [Memory.isLive, h, Option.map_some, Option.getD_some]

/-- A view of an owner's region is good until the region is released, and for nothing after that.
One at the null address never is. -/
theorem check_of_owner (h : s.world.memory.owners[id]? = some o) {u : View}
    (hu : u.origin = some (.owner id)) (offset width : Nat) (mode : Mode) :
    (u.address = 0 → s.world.memory.check u offset width mode = .error (.nullPointer none)) ∧
      (u.address ≠ 0 → s.released id = false → u.access.allows mode = true →
        offset + width < wordLimit → offset + width ≤ u.size →
        s.world.memory.check u offset width mode = .ok (wrap (u.address + offset))) ∧
      (u.address ≠ 0 → s.released id = true →
        s.world.memory.check u offset width mode = .error .freed) := by
  have hlive := isLive_owner h
  refine ⟨?_, ?_, ?_⟩
  · intro hz
    unfold Memory.check
    rw [if_pos hz]
  · intro hz hr hm hword hin
    refine Memory.Admits.check ⟨hz, ?_, hm, hword, hin⟩
    rw [hu, Option.any_some, hlive, hr]
    rfl
  · intro hz hr
    refine View.check_of_released hz hu ?_ offset width mode
    rw [hlive, hr]
    rfl

/-! ## Release functions -/

theorem filterMap_eq_of_unique {α β : Type} {f : α → Option β} {xs : List α} {i : Nat} {x : α}
    (h : xs[i]? = some x) (hu : ∀ (j : Nat) y, xs[j]? = some y → (f y).isSome = true → j = i) :
    xs.filterMap f = (f x).toList := by
  induction xs generalizing i with
  | nil => simp at h
  | cons y ys ih =>
    cases i with
    | zero =>
      obtain rfl : y = x := by simpa using h
      have hrest : ys.filterMap f = [] := by
        refine List.filterMap_eq_nil_iff.mpr fun z hz => ?_
        obtain ⟨j, hj⟩ := List.mem_iff_getElem?.mp hz
        by_contra hne
        exact absurd (hu (j + 1) z hj (Option.isSome_iff_ne_none.mpr hne)) (Nat.succ_ne_zero j)
      rw [List.filterMap_cons, hrest]
      cases f y <;> rfl
    | succ i =>
      have hy : f y = none := by
        by_contra hne
        exact absurd (hu 0 y rfl (Option.isSome_iff_ne_none.mpr hne)) (Nat.succ_ne_zero i).symm
      rw [List.filterMap_cons_none hy]
      exact ih h fun j z hj hz => Nat.succ.inj (hu (j + 1) z hj hz)

/-- The release function that only one owner has runs once, with the address of its region, if that
owner has been released, and not otherwise. -/
theorem filter_releases {label : String} (hs : s.world.Custody s.held)
    (h : s.world.memory.owners[id]? = some o) (hk : o.kind = .foreign label)
    (hu : ∀ (i : Nat) o', s.world.memory.owners[i]? = some o' → o'.kind = .foreign label → i = id) :
    (s.world.releases.filter fun r => r.1 = label) =
      if s.released id then [(label, o.address)] else [] := by
  have hp := hs.ran.filter fun r => r.1 = label
  have hown : (s.world.releasedOwners.filter fun r => r.1 = label) =
      if s.released id then [(label, o.address)] else [] := by
    unfold World.releasedOwners
    rw [List.filter_filterMap, filterMap_eq_of_unique (i := id) (x := o)]
    · rw [released_eq h]
      unfold Owner.release?
      rw [hk]
      cases o.released <;> simp
    · rw [Array.getElem?_toList]
      exact h
    · intro j o' hj hsome
      rw [Array.getElem?_toList] at hj
      refine hu j o' hj ?_
      obtain ⟨r, hr⟩ := Option.isSome_iff_exists.mp hsome
      obtain ⟨hr, hlabel⟩ := Option.filter_eq_some_iff.mp hr
      unfold Owner.release? at hr
      split at hr
      next other hkind =>
        split at hr
        · rw [hkind, ← of_decide_eq_true hlabel, ← Option.some.inj hr]
        · cases hr
      · cases hr
  rw [hown] at hp
  by_cases hr : s.released id = true
  · rw [if_pos hr] at hp ⊢
    exact List.perm_singleton.mp hp
  · rw [if_neg hr] at hp ⊢
    exact List.perm_nil.mp hp

/--
A region that is taken into care, and any history from there on.

* Its owner releases it at one moment at most, and has released it since then.
* That is the moment when it is freed first, or its last holder goes while the owner releases by
  itself.
* Until then a view of the region serves every access that it permits and that lies inside it;
  afterwards it finds the memory freed. A view at the null address serves none at any time.
* What is derived from the handle is a view of the region, and stays away from the null address
  with it, unless its end is not known. A block stands away from the null address and has an end.
* The release functions that have run are those of the owners that have released their regions. If
  no other owner has the release function of this one, it has run once with the address of the
  region, or not at all.
-/
theorem released_once {s₀ : Holdings} {v : View} (hr : s₀.Attained) (hc : Creates s₀ id v s)
    (h : History s ms t) :
    ((ms.countP fun m => m.releases id) = (t.released id).toNat) ∧
      (∀ before m after, ms = before ++ m :: after →
        (m.releases id = true ↔ .free id ∉ before.map Moment.op ∧
          (m.op = .free id ∨ m.loses id = true ∧ autoreleased id before = true))) ∧
      (∀ u : View, u.origin = some (.owner id) → ∀ (offset width : Nat) (mode : Mode),
        (u.address = 0 → t.world.memory.check u offset width mode = .error (.nullPointer none)) ∧
          (u.address ≠ 0 → t.released id = false → u.access.allows mode = true →
            offset + width < wordLimit → offset + width ≤ u.size →
            t.world.memory.check u offset width mode = .ok (wrap (u.address + offset))) ∧
          (u.address ≠ 0 → t.released id = true →
            t.world.memory.check u offset width mode = .error .freed)) ∧
      (∀ (steps : List View.Derivation) (u : View), v.derivedBy steps = .ok u →
        u.origin = some (.owner id) ∧ (v.address ≠ 0 → v.size < unbounded → u.address ≠ 0)) ∧
      ∃ o, t.world.memory.owners[id]? = some o ∧ o.address = v.address ∧
        ((∀ label, o.kind ≠ .foreign label) → v.address ≠ 0 ∧ v.size < unbounded) ∧
        t.world.releases.Perm t.world.releasedOwners ∧
        ∀ label, o.kind = .foreign label → (∀ (i : Nat) o', t.world.memory.owners[i]? = some o' →
            o'.kind = .foreign label → i = id) →
          (t.world.releases.filter fun r => r.1 = label) =
            if t.released id then [(label, v.address)] else [] := by
  obtain ⟨o₀, hopens, hfirst⟩ := hc.tracks hr.settled
  have ht := h.tracks hfirst
  obtain ⟨o, ho, hkind, haddress, -⟩ := ht.owner
  refine ⟨ht.count, ?_, ?_, ?_, o, ho, haddress.trans hopens.address, ?_,
    ht.settled.custody.ran, ?_⟩
  · intro before m after hms
    obtain ⟨hbefore, hstep⟩ := h.split hms
    exact (hbefore.tracks hfirst).releases_iff hstep
  · intro u hu offset width mode
    exact check_of_owner ho hu offset width mode
  · intro steps u hu
    refine ⟨(View.origin_derivedBy hu).trans hopens.origin, fun hz hb => ?_⟩
    have hstart := (View.derivedBy_eq_ok hb hu).1.start
    omega
  · rw [hkind]
    exact hopens.block
  · intro label hk hu
    rw [filter_releases ht.settled.custody ho hk hu, haddress, hopens.address]

/-- A block of 16 bytes, and the handle on it. -/
def block : Holdings where
  world := { World.start with
    memory := ⟨.empty 0x1000000020 World.lacksHuge,
      #[⟨.allocation, 0x1000000000, 16, true, false⟩]⟩ }
  held := [.owner 0]

/-- The handle of the block is copied. The block is told to stay, a handle goes, it is told to go
after all, and goes with the last handle. -/
theorem released_once_block : ∃ v t ms, Creates (start plain) 0 v block ∧ History block ms t ∧
    (ms.map fun m => (m.op, m.releases 0)) =
      [(.setAutorelease 0 false, false), (.other, false), (.other, false),
        (.setAutorelease 0 true, false), (.other, true)] ∧
    (ms.countP fun m => m.releases 0) = 1 ∧
    t.world.memory.check v 0 16 .read = .error .freed := by
  have hr : Attained (start plain) := ⟨plain, [], .nil⟩
  have hc : Creates (start plain) 0 ⟨0x1000000000, 16, 4, .readWrite, false, some (.owner 0)⟩
      block := @Creates.allocate (start plain).world [] 4 4 _ _ rfl
  have h1 := History.nil.next
    (@Change.setAutorelease block.world block.held 0 false (by decide +kernel) (by decide +kernel))
  have h2 := h1.next
    (.hold (@Step.clone _ _ (.owner 0) (by decide +kernel)) rfl rfl rfl (Nat.le_refl _))
  have h3 := h2.next (@Change.drop _ _ [.owner 0] [.owner 0] (List.Perm.refl _))
  have h4 := h3.next (@Change.setAutorelease _ _ 0 true (by decide +kernel) (by decide +kernel))
  have h5 := h4.next (@Change.drop _ _ [.owner 0] [] (List.Perm.refl _))
  obtain ⟨hcount, -, hcheck, -⟩ := released_once hr hc h5
  refine ⟨_, _, _, hc, h5, by decide +kernel, ?_, ?_⟩
  · rw [hcount]
    decide +kernel
  · exact (hcheck _ rfl 0 16 .read).2.2 (by decide) (by decide +kernel)

/-- A pointer of unknown extent in the care of a release function, and the handle on it. -/
def adopted : Holdings where
  world := { World.start with
    memory := ⟨.empty World.heapBase World.lacksHuge,
      #[⟨.foreign "free", 0x1000, unbounded, true, false⟩]⟩ }
  held := [.owner 0]

/-- Moved to the null address, the pointer serves no access before it is released, and says so in
the same way after that. -/
theorem released_once_null : ∃ v t ms u, Creates (start plain) 0 v adopted ∧ v.address = 0x1000 ∧
    History adopted ms t ∧ v.derivedBy [.offset (-0x1000)] = .ok u ∧
    u.origin = some (.owner 0) ∧ u.access.allows .read = true ∧ 0 + 4 ≤ u.size ∧
    adopted.released 0 = false ∧
    adopted.world.memory.check u 0 4 .read = .error (.nullPointer none) ∧
    t.released 0 = true ∧ t.world.releases = [("free", 0x1000)] ∧
    t.world.memory.check u 0 4 .read = .error (.nullPointer none) := by
  have hc : Creates (start plain) 0 ⟨0x1000, unbounded, 1, .readWrite, false, some (.owner 0)⟩
      adopted := @Creates.adopt (start plain).world _ [] "free" (.pointer 0x1000) _ rfl
  have h := History.nil.next
    (@Change.free adopted.world adopted.held 0 (by decide +kernel) (by decide +kernel))
  exact ⟨_, _, _, _, hc, rfl, h, rfl, rfl, rfl, by decide, by decide +kernel, rfl,
    by decide +kernel, by decide +kernel, rfl⟩

end Holdings

end ForeignCall
