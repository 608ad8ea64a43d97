import Mathlib.Data.List.Flatten
import ForeignCall.Proofs.Callback.Run
import ForeignCall.Proofs.Memory.Blocks

/-!
# Owners in custody

An owner of memory is held, gone, or about to be looked at, and nothing else (`World.Custody.kept`).
Following what has been given up looks at everything: there is fuel for each reference that is
pending and for each that may still become so (`World.references`), so afterwards an owner that
nothing holds is gone (`World.Custody.collect`). Only on the way there is a region released, and
then only if its owner releases by itself (`World.letsGo_collect`).

The release functions that have run are those of the foreign owners that have been released, each
as often as there are such owners.
-/

namespace ForeignCall

/-- The release function that has run for an owner, with the address that it was given. -/
def Owner.release? (o : Owner) : Option (String × Nat) :=
  match o.kind with
  | .foreign label => if o.released then some (label, o.address) else none
  | _ => none

/-- The release function that an event tells of. -/
def Event.release? : Event → Option (String × Nat)
  | .released label address => some (label, address)
  | _ => none

/-- An owner whose last holder has gone, if it has. -/
def Owner.letGo (o : Owner) (gone : Bool) : Owner :=
  { o with released := o.released || (o.autorelease && gone) }

@[simp] theorem Owner.letGo_false (o : Owner) : o.letGo false = o := by
  simp [letGo]

@[simp] theorem Owner.letGo_letGo (o : Owner) (a b : Bool) :
    (o.letGo a).letGo b = o.letGo (a || b) := by
  simp [letGo, Bool.and_or_distrib_left, Bool.or_assoc]

theorem Owner.letGo_of_kept {o : Owner} (h : o.autorelease = false) (gone : Bool) :
    o.letGo gone = o := by
  obtain ⟨kind, address, size, autorelease, released⟩ := o
  simp_all [letGo]

namespace World

variable {w w' : World} {roots : List Ref} {r : Ref} {id : Nat}

/-- The release functions that have run, oldest first. -/
def releases (w : World) : List (String × Nat) := w.events.toList.filterMap Event.release?

/-- The release functions of the owners that have been released. -/
def releasedOwners (w : World) : List (String × Nat) :=
  w.memory.owners.toList.filterMap Owner.release?

/-! ## Releasing one owner -/

theorem modify_eq_self {owners : Array Owner} {f : Owner → Owner}
    (h : ∀ o, owners[id]? = some o → f o = o) : owners.modify id f = owners := by
  refine Array.ext_getElem? fun i => ?_
  rw [Array.getElem?_modify]
  split
  next hi =>
    subst hi
    cases ho : owners[id]? with
    | none => rfl
    | some o => rw [Option.map_some, h o ho]
  · rfl

theorem owners_releaseOwner (w : World) (id : Nat) :
    (w.releaseOwner id).memory.owners =
      w.memory.owners.modify id fun o => { o with released := true } := by
  unfold releaseOwner
  split
  next o ho =>
    split
    next hr =>
      -- an owner that has been released is released already
      refine (modify_eq_self fun o' ho' => ?_).symm
      obtain rfl := Option.some.inj (ho.symm.trans ho')
      obtain ⟨kind, address, size, autorelease, released⟩ := o
      simp only at hr
      rw [hr]
    · dsimp only
      split <;> rfl
  next ho =>
    refine (modify_eq_self fun o' ho' => ?_).symm
    cases ho.symm.trans ho'

theorem heap_releaseOwner (w : World) (id : Nat) :
    (w.releaseOwner id).memory.heap = w.memory.heap := by
  unfold releaseOwner
  split
  · split
    · rfl
    · dsimp only
      split <;> rfl
  · rfl

theorem exists_filterMap_modify {owners : Array Owner} {o : Owner} (f : Owner → Owner)
    (h : owners[id]? = some o) :
    ∃ before after, owners.toList.filterMap Owner.release? =
        before ++ o.release?.toList ++ after ∧
      (owners.modify id f).toList.filterMap Owner.release? =
        before ++ (f o).release?.toList ++ after := by
  obtain ⟨hlt, ho⟩ := Array.getElem?_eq_some_iff.mp h
  obtain ⟨l, a, r, hl, hlen, hf⟩ := List.exists_of_modify f (l := owners.toList) hlt
  obtain rfl : a = o := by
    rw [← ho, ← Array.getElem_toList]
    simp [hl, ← hlen]
  have hcons : ∀ b : Owner, (l ++ b :: r).filterMap Owner.release? =
      l.filterMap Owner.release? ++ b.release?.toList ++ r.filterMap Owner.release? := by
    intro b
    rw [List.filterMap_append, List.filterMap_cons]
    cases b.release? <;> simp
  refine ⟨l.filterMap Owner.release?, r.filterMap Owner.release?, ?_, ?_⟩
  · rw [hl, hcons]
  · rw [Array.toList_modify, hf, hcons]

/-- A release runs the release function of an owner that has one and has not been released. -/
theorem perm_releaseOwner (h : w.releases.Perm w.releasedOwners) :
    (w.releaseOwner id).releases.Perm (w.releaseOwner id).releasedOwners := by
  unfold releasedOwners
  rw [owners_releaseOwner]
  cases ho : w.memory.owners[id]? with
  | none =>
    rw [modify_eq_self (fun o' ho' => by cases ho.symm.trans ho'), releaseOwner, ho]
    exact h
  | some o =>
    obtain ⟨before, after, hold, hnew⟩ :=
      exists_filterMap_modify (fun o : Owner => { o with released := true }) ho
    unfold releasedOwners at h
    rw [hold] at h
    rw [hnew]
    obtain ⟨kind, address, size, autorelease, released⟩ := o
    cases released with
    | true =>
      -- nothing happens
      have hevents : (w.releaseOwner id).releases = w.releases := by
        simp [releaseOwner, ho]
      rw [hevents]
      exact h
    | false =>
      cases kind with
      | foreign label =>
        have hevents : (w.releaseOwner id).releases = w.releases ++ [(label, address)] := by
          simp [releaseOwner, ho, releases, Event.release?]
        rw [hevents]
        simp only [Owner.release?, Bool.false_eq_true, ↓reduceIte, Option.toList_none,
          List.append_nil, Option.toList_some] at h ⊢
        refine (h.append_right _).trans ?_
        rw [List.append_assoc, List.append_assoc]
        exact List.Perm.append_left _ List.perm_append_comm
      | allocation =>
        have hevents : (w.releaseOwner id).releases = w.releases := by
          simp [releaseOwner, ho, releases]
        rw [hevents]
        exact h
      | buffer =>
        have hevents : (w.releaseOwner id).releases = w.releases := by
          simp [releaseOwner, ho, releases]
        rw [hevents]
        exact h

/-! ## Retiring -/

/-- Retiring an owner that releases by itself releases it; retiring anything else leaves memory. -/
theorem retire_cases (w : World) (r : Ref) :
    (∃ id, r = .owner id ∧ w.memory.owners[id]?.any Owner.autorelease = true ∧
      w.retire r = releaseOwner { w with gone := r :: w.gone } id) ∨
    ((∀ id, r = .owner id → w.memory.owners[id]?.any Owner.autorelease = false) ∧
      (w.retire r).memory = w.memory ∧ (w.retire r).events = w.events) := by
  unfold retire
  cases r with
  | owner id =>
    by_cases ha : w.memory.owners[id]?.any Owner.autorelease = true
    · exact Or.inl ⟨id, rfl, ha, if_pos ha⟩
    · refine Or.inr ⟨?_, ?_, ?_⟩
      · intro id' he
        rw [← Ref.owner.inj he]
        exact eq_false_of_ne_true ha
      · dsimp only
        rw [if_neg ha]
      · dsimp only
        rw [if_neg ha]
  | callback id =>
    refine Or.inr ⟨nofun, ?_, ?_⟩
    · dsimp only
      split <;> rfl
    · dsimp only
      split <;> rfl
  | library id => exact Or.inr ⟨nofun, rfl, rfl⟩
  | proc id => exact Or.inr ⟨nofun, rfl, rfl⟩
  | body id => exact Or.inr ⟨nofun, rfl, rfl⟩
  | retention id => exact Or.inr ⟨nofun, rfl, rfl⟩

theorem owners_retire (w : World) (r : Ref) (id : Nat) :
    (w.retire r).memory.owners[id]? =
      w.memory.owners[id]?.map fun o => o.letGo (decide (r = .owner id)) := by
  rcases retire_cases w r with ⟨i, rfl, ha, hr⟩ | ⟨hn, hm, -⟩
  · rw [hr, owners_releaseOwner, Array.getElem?_modify]
    by_cases hi : i = id
    · subst hi
      rw [if_pos rfl]
      cases ho : w.memory.owners[i]? with
      | none => rfl
      | some o =>
        rw [ho, Option.any_some] at ha
        simp [Owner.letGo, ha]
    · rw [if_neg hi]
      simp [hi]
  · rw [hm]
    by_cases hi : r = .owner id
    · have ha := hn id hi
      cases ho : w.memory.owners[id]? with
      | none => rfl
      | some o =>
        rw [ho, Option.any_some] at ha
        rw [Option.map_some, Owner.letGo_of_kept ha]
    · simp [hi]

theorem perm_retire (r : Ref) (h : w.releases.Perm w.releasedOwners) :
    (w.retire r).releases.Perm (w.retire r).releasedOwners := by
  rcases retire_cases w r with ⟨i, rfl, -, hr⟩ | ⟨-, hm, he⟩
  · rw [hr]
    exact perm_releaseOwner h
  · unfold releases releasedOwners
    rw [hm, he]
    exact h

theorem heap_retire (w : World) (r : Ref) : (w.retire r).memory.heap = w.memory.heap := by
  rcases retire_cases w r with ⟨i, rfl, -, hr⟩ | ⟨-, hm, -⟩
  · rw [hr, heap_releaseOwner]
  · rw [hm]

theorem size_owners_retire (w : World) (r : Ref) :
    (w.retire r).memory.owners.size = w.memory.owners.size := by
  rcases retire_cases w r with ⟨i, rfl, -, hr⟩ | ⟨-, hm, -⟩
  · rw [hr, owners_releaseOwner, Array.size_modify]
  · rw [hm]

/-! ## Fuel -/

theorem holders_retire (w : World) (r : Ref) :
    (w.retire r).holders = w.holders.filter fun h => h ≠ r := by
  obtain ⟨ht, hg, -⟩ := sameTables_retire w r
  unfold holders
  rw [ht.callbacks, ht.closures, ht.retentions, hg, List.filter_filter]
  refine List.filter_congr fun h _ => ?_
  rw [List.contains_cons, Bool.not_or, Bool.and_comm]
  by_cases he : h = r <;> simp [he]

theorem length_flatMap_filter_ne {α β : Type} [DecidableEq α] (f : α → List β) {xs : List α}
    {x : α} (h : x ∈ xs ∨ f x = []) :
    ((xs.filter fun y => y ≠ x).flatMap f).length + (f x).length ≤ (xs.flatMap f).length := by
  induction xs with
  | nil =>
    have hx : f x = [] := h.resolve_left List.not_mem_nil
    simp [hx]
  | cons y ys ih =>
    rw [List.flatMap_cons, List.length_append]
    by_cases hy : y = x
    · subst hy
      have hle : ((ys.filter fun z => z ≠ y).flatMap f).length ≤ (ys.flatMap f).length :=
        (List.filter_sublist.flatMap f).length_le
      rw [List.filter_cons_of_neg (by simp)]
      omega
    · have hrest := ih (h.imp_left fun hm => (List.mem_cons.mp hm).resolve_left (Ne.symm hy))
      rw [List.filter_cons_of_pos (by simpa using hy), List.flatMap_cons, List.length_append]
      omega

/-- What is retired makes as much pending as there are references less. -/
theorem references_retire (hr : w.Alive r) :
    (w.retire r).references + (w.children r).length ≤ w.references := by
  obtain ⟨ht, -, -⟩ := sameTables_retire w r
  have hc : (w.retire r).children = w.children := funext ht.children
  unfold references
  rw [holders_retire, hc]
  refine length_flatMap_filter_ne w.children ?_
  cases r with
  | owner id => exact Or.inr rfl
  | library id => exact Or.inr rfl
  | _ => exact Or.inl (mem_holders.mpr ⟨hr, nofun, nofun⟩)

/-! ## Following references -/

/-- One reference: it is passed over, or what it leads to is retired. -/
theorem collectWithin_cons (w : World) (roots : List Ref) (fuel : Nat) (r : Ref)
    (rest : List Ref) :
    ((r ∈ w.gone ∨ r ∈ rest ∨ w.isHeld roots r = true) ∧
      w.collectWithin roots (fuel + 1) (r :: rest) = w.collectWithin roots fuel rest) ∨
    (r ∉ w.gone ∧ r ∉ rest ∧ w.isHeld roots r = false ∧
      w.collectWithin roots (fuel + 1) (r :: rest) =
        (w.retire r).collectWithin roots fuel (w.children r ++ rest)) := by
  rw [collectWithin]
  split
  next h =>
    refine Or.inl ⟨?_, rfl⟩
    simpa only [Bool.or_eq_true, List.contains_eq_mem, decide_eq_true_eq, or_assoc] using h
  next h =>
    simp only [Bool.or_eq_true, List.contains_eq_mem, decide_eq_true_eq, not_or,
      Bool.not_eq_true] at h
    exact Or.inr ⟨h.1.1, h.1.2, h.2, rfl⟩

theorem collectWithin_zero (w : World) (roots : List Ref) (refs : List Ref) :
    w.collectWithin roots 0 refs = w := by
  rw [collectWithin]

theorem collectWithin_nil (w : World) (roots : List Ref) (fuel : Nat) :
    w.collectWithin roots fuel [] = w := by
  cases fuel with
  | zero => exact collectWithin_zero w roots []
  | succ fuel =>
    rw [collectWithin]
    exact fun h => Nat.succ_ne_zero _ h

/-- What holds of a world and is kept by retiring holds after any references have been followed. -/
theorem collectWithin_induction {P : World → Prop}
    (hretire : ∀ w r, r ∉ w.gone → P w → P (w.retire r)) (fuel : Nat) :
    ∀ (w : World) (refs : List Ref), P w → P (w.collectWithin roots fuel refs) := by
  induction fuel with
  | zero =>
    intro w refs h
    rw [collectWithin_zero]
    exact h
  | succ fuel ih =>
    intro w refs h
    cases refs with
    | nil =>
      rw [collectWithin_nil]
      exact h
    | cons r rest =>
      rcases collectWithin_cons w roots fuel r rest with ⟨-, he⟩ | ⟨hg, -, -, he⟩
      · rw [he]
        exact ih w rest h
      · rw [he]
        exact ih _ _ (hretire w r hg h)

/-- With fuel for all that is pending and may become so, nothing is left pending. -/
theorem kept_collectWithin (fuel : Nat) : ∀ {w : World} {refs : List Ref}, w.Sound roots →
    (∀ r ∈ refs, w.Known r) → refs.length + w.references ≤ fuel →
    w.isHeld roots r = true ∨ r ∈ w.gone ∨ r ∈ refs →
    (w.collectWithin roots fuel refs).isHeld roots r = true ∨
      r ∈ (w.collectWithin roots fuel refs).gone := by
  induction fuel with
  | zero =>
    intro w refs hw hk hf hr
    obtain rfl : refs = [] := List.length_eq_zero_iff.mp (by omega)
    rw [collectWithin_zero]
    exact hr.imp_right fun h => h.resolve_right List.not_mem_nil
  | succ fuel ih =>
    intro w refs hw hk hf hr
    cases refs with
    | nil =>
      rw [collectWithin_nil]
      exact hr.imp_right fun h => h.resolve_right List.not_mem_nil
    | cons x rest =>
      rw [List.length_cons] at hf
      have hkrest : ∀ y ∈ rest, w.Known y := fun y hy => hk y (List.mem_cons_of_mem x hy)
      rcases collectWithin_cons w roots fuel x rest with ⟨hx, he⟩ | ⟨hg, hnr, hn, he⟩
      · rw [he]
        refine ih hw hkrest (by omega) ?_
        rcases hr with hr | hr | hr
        · exact Or.inl hr
        · exact Or.inr (Or.inl hr)
        · rcases List.mem_cons.mp hr with rfl | hr
          · rcases hx with hx | hx | hx
            · exact Or.inr (Or.inl hx)
            · exact Or.inr (Or.inr hx)
            · exact Or.inl hx
          · exact Or.inr (Or.inr hr)
      · have hx : w.Alive x := ⟨hk x List.mem_cons_self, hg⟩
        have hrefs := references_retire hx
        obtain ⟨ht, hgone, -⟩ := sameTables_retire w x
        rw [he]
        refine ih (hw.retire hx hn) ?_ ?_ ?_
        · intro y hy
          refine ht.known.mpr ?_
          rcases List.mem_append.mp hy with hy | hy
          · exact (hw.child x hx y hy).1
          · exact hkrest y hy
        · rw [List.length_append]
          omega
        · -- what `x` held is pending now, what another thing holds is held as before
          rw [hgone]
          rcases hr with hr | hr | hr
          · rcases isHeld_eq_true.mp hr with hr | ⟨h, hh, hr⟩
            · exact Or.inl (isHeld_eq_true.mpr (Or.inl hr))
            · by_cases hhx : h = x
              · rw [hhx] at hr
                exact Or.inr (Or.inr (List.mem_append_left _ hr))
              · refine Or.inl (isHeld_eq_true.mpr (Or.inr ⟨h, ⟨ht.known.mpr hh.1, ?_⟩, ?_⟩))
                · rw [hgone]
                  exact List.not_mem_cons_of_ne_of_not_mem hhx hh.2
                · rw [ht.children]
                  exact hr
          · exact Or.inr (Or.inl (List.mem_cons_of_mem x hr))
          · rcases List.mem_cons.mp hr with rfl | hr
            · exact Or.inr (Or.inl List.mem_cons_self)
            · exact Or.inr (Or.inr (List.mem_append_right _ hr))

/-- Only what was pending, or held by something, is retired. -/
theorem gone_collectWithin (fuel : Nat) : ∀ {w : World} {refs : List Ref},
    r ∈ (w.collectWithin roots fuel refs).gone →
    r ∈ w.gone ∨ r ∈ refs ∨ ∃ h, r ∈ w.children h := by
  induction fuel with
  | zero =>
    intro w refs h
    rw [collectWithin_zero] at h
    exact Or.inl h
  | succ fuel ih =>
    intro w refs h
    cases refs with
    | nil =>
      rw [collectWithin_nil] at h
      exact Or.inl h
    | cons x rest =>
      rcases collectWithin_cons w roots fuel x rest with ⟨-, he⟩ | ⟨-, -, -, he⟩
      · rw [he] at h
        rcases ih h with h | h | h
        · exact Or.inl h
        · exact Or.inr (Or.inl (List.mem_cons_of_mem x h))
        · exact Or.inr (Or.inr h)
      · obtain ⟨ht, hgone, -⟩ := sameTables_retire w x
        rw [he] at h
        rcases ih h with h | h | ⟨y, h⟩
        · rw [hgone] at h
          rcases List.mem_cons.mp h with rfl | h
          · exact Or.inr (Or.inl List.mem_cons_self)
          · exact Or.inl h
        · rcases List.mem_append.mp h with h | h
          · exact Or.inr (Or.inr ⟨x, h⟩)
          · exact Or.inr (Or.inl (List.mem_cons_of_mem x h))
        · rw [ht.children] at h
          exact Or.inr (Or.inr ⟨y, h⟩)

/-- What has gone stays gone, and the owners of what has gone since are let go. -/
structure LetsGo (w w' : World) : Prop where
  gone : w.gone ⊆ w'.gone
  owners : ∀ id : Nat, w'.memory.owners[id]? = w.memory.owners[id]?.map fun o =>
    o.letGo (decide (Ref.owner id ∉ w.gone ∧ Ref.owner id ∈ w'.gone))

theorem LetsGo.refl (w : World) : w.LetsGo w where
  gone := fun _ h => h
  owners := fun id => by
    simp

theorem LetsGo.retire (h : w.LetsGo w') (hr : r ∉ w'.gone) : w.LetsGo (w'.retire r) := by
  obtain ⟨-, hgone, -⟩ := sameTables_retire w' r
  refine ⟨?_, ?_⟩
  · rw [hgone]
    exact fun y hy => List.mem_cons_of_mem r (h.gone hy)
  · intro id
    rw [owners_retire, h.owners, Option.map_map, hgone]
    cases w.memory.owners[id]? with
    | none => rfl
    | some o =>
      simp only [Option.map_some, Function.comp_apply, Owner.letGo_letGo]
      by_cases he : r = .owner id
      · subst he
        have hnot : Ref.owner id ∉ w.gone := fun hm => hr (h.gone hm)
        simp [hnot]
      · have hne : Ref.owner id ≠ r := Ne.symm he
        simp [he, hne]

/-! ## Custody -/

/-- The invariant of owners: references lead to owners, an owner is held, gone or about to be looked
at, and the release functions that have run are those of the owners that have been released. Blocks
are handed out above the null address. -/
structure Custody (w : World) (roots : List Ref) : Prop extends Sound w roots where
  known : ∀ id, (.owner id ∈ roots ∨ .owner id ∈ w.gone ∨ .owner id ∈ w.dropped ∨
    ∃ h, .owner id ∈ w.children h) → id < w.memory.owners.size
  kept : ∀ id < w.memory.owners.size,
    w.isHeld roots (.owner id) = true ∨ .owner id ∈ w.gone ∨ .owner id ∈ w.dropped
  ran : w.releases.Perm w.releasedOwners
  base : 0 < w.memory.heap.next

theorem collect_eq (w : World) (roots : List Ref) : w.collect roots =
    { w with dropped := [] }.collectWithin roots (w.dropped.length + w.references) w.dropped := rfl

theorem collect_of_settled (h : w.dropped = []) (roots : List Ref) : w.collect roots = w := by
  rw [collect_eq, h, collectWithin_nil, ← h]

theorem dropped_collect (w : World) (roots : List Ref) : (w.collect roots).dropped = [] := by
  rw [collect_eq]
  refine collectWithin_induction (P := fun x => x.dropped = []) ?_ _ _ _ rfl
  intro x r _ hx
  rw [(sameTables_retire x r).2.2, hx]

theorem letsGo_collect (w : World) (roots : List Ref) : w.LetsGo (w.collect roots) := by
  rw [collect_eq]
  refine collectWithin_induction (P := fun x => w.LetsGo x) ?_ _ _ _ ?_
  · exact fun x r hr hx => hx.retire hr
  · obtain ⟨hgone, howners⟩ := LetsGo.refl w
    exact ⟨hgone, howners⟩

theorem size_owners_collect (w : World) (roots : List Ref) :
    (w.collect roots).memory.owners.size = w.memory.owners.size := by
  rw [collect_eq]
  refine collectWithin_induction (P := fun x => x.memory.owners.size = w.memory.owners.size)
    ?_ _ _ _ rfl
  intro x r _ hx
  rw [size_owners_retire, hx]

/-- What nothing holds any more is retired, and its bytes stay what they were. -/
theorem heap_collect (w : World) (roots : List Ref) :
    (w.collect roots).memory.heap = w.memory.heap := by
  rw [collect_eq]
  refine collectWithin_induction (P := fun x => x.memory.heap = w.memory.heap) ?_ _ _ _ rfl
  intro x r _ hx
  rw [heap_retire, hx]

/-- Following what has been given up keeps the invariant, and leaves nothing to be looked at. -/
theorem Custody.collect (hw : w.Custody roots) : (w.collect roots).Custody roots := by
  have hsound : Sound { w with dropped := [] } roots :=
    ⟨⟨hw.root, hw.child, hw.retired, fun r hr => by cases hr⟩, hw.pool, hw.compiled, hw.coded,
      hw.directed⟩
  have ht := sameTables_collect w roots
  refine ⟨hw.toSound.collect, ?_, ?_, ?_, ?_⟩
  · intro id h
    rw [size_owners_collect]
    rcases h with h | h | h | ⟨y, h⟩
    · exact hw.known id (Or.inl h)
    · rw [collect_eq] at h
      rcases gone_collectWithin _ h with h | h | h
      · exact hw.known id (Or.inr (Or.inl h))
      · exact hw.known id (Or.inr (Or.inr (Or.inl h)))
      · exact hw.known id (Or.inr (Or.inr (Or.inr h)))
    · rw [dropped_collect] at h
      cases h
    · rw [ht.children] at h
      exact hw.known id (Or.inr (Or.inr (Or.inr ⟨y, h⟩)))
  · intro id hid
    rw [size_owners_collect] at hid
    have hrest := kept_collectWithin (w.dropped.length + w.references) hsound hw.dropped
      (Nat.le_refl _) (hw.kept id hid)
    rw [← collect_eq] at hrest
    exact hrest.imp_right Or.inl
  · rw [collect_eq]
    exact collectWithin_induction (P := fun x => x.releases.Perm x.releasedOwners)
      (fun x r _ hx => perm_retire r hx) _ _ _ hw.ran
  · rw [heap_collect]
    exact hw.base

end World

end ForeignCall
