import ForeignCall.Proofs.Callback.Compilation
import ForeignCall.Proofs.Memory.Custody
import Mathlib.Data.List.Dedup

/-!
# One callback for a closure and a signature

A signature is known by its address, and a new signature may be made at the address of one that
nothing holds any more. `Ledger` tells them apart: it has every signature that a run has made, in
the order in which they were made, and what holds them. A signature is held by handles, and by the
callbacks that have been compiled for it as long as they are alive.

No two living signatures have one address (`Ledger.Agrees.apart`). This is what is relied on when a
signature is made, and it is kept because a callback does not outlive its signature: a callback that
is found by an address was compiled for the signature that is there now.

Main statement: `Holdings.compiled_once`.
-/

namespace ForeignCall

/-- A closure compiled for a signature: the callback that was answered, and the code address that it
had then. -/
structure Compilation where
  closure : Nat
  /-- The position of the signature among all that have been made. -/
  object : Nat
  callback : Nat
  address : Nat

/-- The signatures of a run. -/
structure Ledger where
  /-- The signatures that have been made, oldest first; the identity of each is its address. -/
  objects : List Signature
  /-- The signatures held by anything but callbacks, once for each handle. -/
  handles : List Nat
  /-- The signature that each callback holds. -/
  origins : List Nat
  /-- What has been compiled, the latest first. -/
  done : List Compilation

namespace Ledger

/-- Whether a signature is held, by a handle or by a callback that is alive. -/
def Live (l : Ledger) (w : World) (o : Nat) : Prop :=
  o ∈ l.handles ∨ ∃ id ∈ w.live, l.origins[id]? = some o

/-- The ledger with one more signature, which has one handle. -/
def make (l : Ledger) (signature : Signature) : Ledger :=
  { l with
    objects := l.objects ++ [signature]
    handles := l.objects.length :: l.handles }

/-- The ledger with what has been compiled; a callback that is new holds the signature. -/
def record (l : Ledger) (e : Compilation) : Ledger :=
  { l with
    origins := if e.callback = l.origins.length then l.origins ++ [e.object] else l.origins
    done := e :: l.done }

/-- Nothing made and nothing compiled. -/
def empty : Ledger := ⟨[], [], [], []⟩

end Ledger

namespace Holdings

/-- Runs with the ledger of their signatures. -/
inductive Recorded : Holdings → Ledger → Prop where
  | start (setup : Setup) : Recorded (start setup) .empty
  /-- A signature is made, at an address that no living signature has. -/
  | make {s : Holdings} {l : Ledger} (hs : Recorded s l) (signature : Signature)
      (hfree : ∀ o g, l.Live s.world o → l.objects[o]? = some g → g.id ≠ signature.id) :
      Recorded s (l.make signature)
  /-- One more handle of a signature. -/
  | share {s : Holdings} {l : Ledger} {o : Nat} (hs : Recorded s l) (ho : l.Live s.world o) :
      Recorded s { l with handles := o :: l.handles }
  /-- A handle of a signature is dropped. -/
  | drop {s : Holdings} {l : Ledger} (hs : Recorded s l) (o : Nat) :
      Recorded s { l with handles := l.handles.erase o }
  /-- A closure that is held is compiled for a living signature. -/
  | compile {w w' : World} {held : List Ref} {l : Ledger} {signature : Signature}
      {closure o id : Nat} {prepared : Checked Unit} (hs : Recorded ⟨w, held⟩ l)
      (hc : w.isHeld held (.proc closure) = true) (ho : l.Live w o)
      (hg : l.objects[o]? = some signature)
      (h : makeCallback signature closure prepared w = (.ok id, w')) :
      Recorded ⟨w', .callback id :: held⟩ (l.record ⟨closure, o, id, w'.callbackAddress id⟩)
  /-- A step that makes no callback. -/
  | step {s t : Holdings} {l : Ledger} (hs : Recorded s l) (h : Step s t)
      (hq : t.world.callbacks = s.world.callbacks) : Recorded t l

theorem Recorded.compile_snd {w : World} {held : List Ref} {l : Ledger} (hs : Recorded ⟨w, held⟩ l)
    (signature : Signature) (closure o id address : Nat)
    (hc : w.isHeld held (.proc closure) = true) (ho : l.Live w o)
    (hg : l.objects[o]? = some signature)
    (h : (makeCallback signature closure (.ok ()) w).1 = .ok id)
    (ha : (makeCallback signature closure (.ok ()) w).2.callbackAddress id = address) :
    Recorded ⟨(makeCallback signature closure (.ok ()) w).2, .callback id :: held⟩
      (l.record ⟨closure, o, id, address⟩) := by
  rw [← ha]
  exact hs.compile hc ho hg (Prod.ext h rfl)

/-- A closure is made that captures nothing. -/
theorem Recorded.closure {w : World} {held : List Ref} {l : Ledger} (hs : Recorded ⟨w, held⟩ l)
    (label : String) (id : Nat) (hid : w.closures.size = id) :
    Recorded ⟨w.withClosure label [], .proc id :: held⟩ l := by
  rw [← hid]
  exact hs.step (.closure label [] (by simp)) rfl

/-- Handles are dropped, and what nothing holds any more is retired. -/
theorem Recorded.release {w : World} {l : Ledger} (refs rest : List Ref)
    (hs : Recorded ⟨w, refs ++ rest⟩ l) :
    Recorded ⟨{ w with dropped := w.dropped ++ refs }.collect rest, rest⟩ l :=
  hs.step (.drop (List.Perm.refl _)) (World.sameTables_collect _ _).callbacks

theorem Recorded.reachable {s : Holdings} {l : Ledger} (h : Recorded s l) : s.Reachable := by
  induction h with
  | start setup => exact ⟨setup, .refl⟩
  | make _ _ _ ih => exact ih
  | share _ _ ih => exact ih
  | drop _ _ ih => exact ih
  | compile _ hc _ _ h ih =>
    obtain ⟨setup, hr⟩ := ih
    exact ⟨setup, hr.tail (.compile hc h)⟩
  | step _ h _ ih =>
    obtain ⟨setup, hr⟩ := ih
    exact ⟨setup, hr.tail h⟩

/-- Nothing that has gone comes back. -/
theorem Step.gone_subset {s t : Holdings} (h : Step s t) : s.world.gone ⊆ t.world.gone := by
  rcases h.tables_cases with
    ⟨label, captured, he⟩ | ⟨signature, closure, prepared, o, -, hm⟩ | ⟨refs, rest, he⟩ | ⟨-, -, he⟩
  · rw [he]
    exact fun r hr => hr
  · obtain ⟨pool, callbacks, closures, he⟩ := makeCallback_snd signature closure prepared s.world
    rw [hm] at he
    rw [show t.world = { s.world with pool, callbacks, closures } from he]
    exact fun r hr => hr
  · rw [he]
    exact (World.letsGo_collect { s.world with dropped := s.world.dropped ++ refs } rest).gone
  · rw [he]
    exact fun r hr => hr

/-- A step that makes no callback leaves none alive that was not. -/
theorem Step.live_subset {s t : Holdings} (h : Step s t)
    (hq : t.world.callbacks = s.world.callbacks) : t.world.live ⊆ s.world.live := by
  intro id hid
  obtain ⟨hlt, hg⟩ := World.mem_live.mp hid
  exact World.mem_live.mpr ⟨hq ▸ hlt, fun hm => hg (h.gone_subset hm)⟩

end Holdings

/-! ## The ledger and the world -/

namespace Ledger

variable {l : Ledger} {w w' : World} {o id : Nat}

/-- What the ledger says of callbacks is so, and living signatures have addresses of their own. -/
structure Agrees (l : Ledger) (w : World) : Prop where
  length : l.origins.length = w.callbacks.size
  origin : ∀ (id : Nat) (c : Callback), w.callbacks[id]? = some c →
    ∃ o, l.origins[id]? = some o ∧ l.objects[o]? = some c.signature
  made : ∀ o ∈ l.handles, o < l.objects.length
  apart : ∀ o o' g g', l.Live w o → l.Live w o' → l.objects[o]? = some g →
    l.objects[o']? = some g' → g.id = g'.id → o = o'
  entry : ∀ e ∈ l.done, ∃ c : Callback, w.callbacks[e.callback]? = some c ∧
    c.closure = e.closure ∧ c.code = e.address ∧ l.origins[e.callback]? = some e.object
  all : ∀ id < w.callbacks.size, ∃ e ∈ l.done, e.callback = id

theorem Agrees.lt_of_live (h : l.Agrees w) (ho : l.Live w o) : o < l.objects.length := by
  rcases ho with ho | ⟨id, hid, ho⟩
  · exact h.made o ho
  · obtain ⟨o', ho', hg⟩ := h.origin id _ (Array.getElem?_eq_getElem (World.mem_live.mp hid).1)
    obtain rfl := Option.some.inj (ho.symm.trans ho')
    exact (List.getElem?_eq_some_iff.mp hg).1

theorem agrees_start (setup : Holdings.Setup) : empty.Agrees (Holdings.start setup).world where
  length := rfl
  origin := fun id c hc => by simp [Holdings.start, World.start] at hc
  made := fun o ho => by simp [empty] at ho
  apart := fun o o' g g' _ _ hg => by simp [empty] at hg
  entry := fun e he => by simp [empty] at he
  all := fun id hid => by simp [Holdings.start, World.start] at hid

theorem Agrees.make (h : l.Agrees w) (signature : Signature)
    (hfree : ∀ o g, l.Live w o → l.objects[o]? = some g → g.id ≠ signature.id) :
    (l.make signature).Agrees w := by
  have hold : ∀ {o : Nat} {g}, l.objects[o]? = some g →
      (l.make signature).objects[o]? = some g := by
    intro o g hg
    rw [Ledger.make, List.getElem?_append_left (List.getElem?_eq_some_iff.mp hg).1, hg]
  -- what is alive is the new signature, or was alive before
  have hlive : ∀ {o : Nat} {g}, (l.make signature).Live w o →
      (l.make signature).objects[o]? = some g →
      o = l.objects.length ∧ g = signature ∨ l.Live w o ∧ l.objects[o]? = some g := by
    intro o g ho hg
    have hcases : o = l.objects.length ∨ l.Live w o := by
      rcases ho with ho | ho
      · exact (List.mem_cons.mp ho).imp_right Or.inl
      · exact Or.inr (Or.inr ho)
    rcases hcases with rfl | ho
    · refine Or.inl ⟨rfl, ?_⟩
      rw [Ledger.make, List.getElem?_concat_length] at hg
      exact (Option.some.inj hg).symm
    · rw [Ledger.make, List.getElem?_append_left (h.lt_of_live ho)] at hg
      exact Or.inr ⟨ho, hg⟩
  refine ⟨h.length, ?_, ?_, ?_, h.entry, h.all⟩
  · intro id c hc
    obtain ⟨o, ho, hg⟩ := h.origin id c hc
    exact ⟨o, ho, hold hg⟩
  · intro o ho
    simp only [Ledger.make, List.length_append, List.length_singleton]
    rcases List.mem_cons.mp ho with rfl | ho
    · exact Nat.lt_succ_self _
    · exact Nat.lt_succ_of_lt (h.made o ho)
  · intro o o' g g' ho ho' hg hg' hid
    rcases hlive ho hg with ⟨he, rfl⟩ | ⟨hl, hgl⟩
    · rcases hlive ho' hg' with ⟨he', -⟩ | ⟨hl', hgl'⟩
      · exact he.trans he'.symm
      · exact absurd hid.symm (hfree o' g' hl' hgl')
    · rcases hlive ho' hg' with ⟨-, rfl⟩ | ⟨hl', hgl'⟩
      · exact absurd hid (hfree o g hl hgl)
      · exact h.apart o o' g g' hl hl' hgl hgl' hid

/-- The ledger agrees with a world of the same callbacks where no more signatures are alive. -/
theorem Agrees.shrink (h : l.Agrees w) {handles : List Nat}
    (hq : w'.callbacks = w.callbacks) (hlive : ∀ o, Live { l with handles } w' o → l.Live w o) :
    Agrees { l with handles } w' := by
  refine ⟨hq ▸ h.length, hq ▸ h.origin, ?_, ?_, hq ▸ h.entry, hq ▸ h.all⟩
  · exact fun o ho => h.lt_of_live (hlive o (Or.inl ho))
  · exact fun o o' g g' ho ho' => h.apart o o' g g' (hlive o ho) (hlive o' ho')

/-- A callback that is found by the address of a living signature holds that signature. -/
theorem Agrees.origin_eq (h : l.Agrees w) {signature : Signature} {closure : Nat} (ho : l.Live w o)
    (hg : l.objects[o]? = some signature) (hid : id ∈ w.live)
    (hk : w.key? id = some (closure, signature.id)) : l.origins[id]? = some o := by
  obtain ⟨c, hc, he⟩ := World.key?_eq_some.mp hk
  obtain ⟨o', ho', hg'⟩ := h.origin id c hc
  rw [h.apart o o' _ _ ho (Or.inr ⟨id, hid, ho'⟩) hg hg' (congrArg Prod.snd he).symm]
  exact ho'

/-- A callback that has been found is recorded as one more compilation. -/
theorem Agrees.record_found (h : l.Agrees w) {c : Callback} (hc : w.callbacks[id]? = some c)
    (ho : l.origins[id]? = some o) : (l.record ⟨c.closure, o, id, c.code⟩).Agrees w := by
  have horigins : (l.record ⟨c.closure, o, id, c.code⟩).origins = l.origins :=
    if_neg (Nat.ne_of_lt (List.getElem?_eq_some_iff.mp ho).1)
  have hlive : ∀ o', (l.record ⟨c.closure, o, id, c.code⟩).Live w o' → l.Live w o' := by
    intro o' ho'
    unfold Live at ho'
    rw [horigins] at ho'
    exact ho'
  refine ⟨horigins ▸ h.length, horigins ▸ h.origin, h.made, ?_, ?_, ?_⟩
  · exact fun a b g g' ha hb => h.apart a b g g' (hlive a ha) (hlive b hb)
  · rw [horigins]
    intro e he
    rcases List.mem_cons.mp he with rfl | he
    · exact ⟨c, hc, rfl, rfl, ho⟩
    · exact h.entry e he
  · intro i hi
    obtain ⟨e, he, hei⟩ := h.all i hi
    exact ⟨e, List.mem_cons_of_mem _ he, hei⟩

/-- A callback that has been made holds the signature it was compiled for. -/
theorem Agrees.record_made (h : l.Agrees w) (pool : Pool) {c : Callback} (ho : l.Live w o)
    (hg : l.objects[o]? = some c.signature) :
    (l.record ⟨c.closure, o, w.callbacks.size, c.code⟩).Agrees (w.withCallback pool c) := by
  have horigins : (l.record ⟨c.closure, o, w.callbacks.size, c.code⟩).origins = l.origins ++ [o] :=
    if_pos h.length.symm
  have hcallbacks : (w.withCallback pool c).callbacks = w.callbacks.push c := rfl
  have horigin : ∀ {i o' : Nat}, l.origins[i]? = some o' → (l.origins ++ [o])[i]? = some o' := by
    intro i o' hi
    rw [List.getElem?_append_left (List.getElem?_eq_some_iff.mp hi).1, hi]
  have hnew : (l.origins ++ [o])[w.callbacks.size]? = some o := by
    rw [← h.length, List.getElem?_concat_length]
  -- the new callback holds a signature that was alive before
  have hlive : ∀ o', (l.record ⟨c.closure, o, w.callbacks.size, c.code⟩).Live
      (w.withCallback pool c) o' → l.Live w o' := by
    rintro o' (ho' | ⟨i, hi, hoi⟩)
    · exact Or.inl ho'
    · obtain ⟨hlt, hgone⟩ := World.mem_live.mp hi
      rw [hcallbacks, Array.size_push] at hlt
      rw [horigins] at hoi
      rcases Nat.lt_or_eq_of_le (Nat.le_of_lt_succ hlt) with hlt | rfl
      · rw [List.getElem?_append_left (h.length ▸ hlt)] at hoi
        exact Or.inr ⟨i, World.mem_live.mpr ⟨hlt, hgone⟩, hoi⟩
      · obtain rfl := Option.some.inj (hoi.symm.trans hnew)
        exact ho
  refine ⟨?_, ?_, h.made, ?_, ?_, ?_⟩
  · rw [horigins, hcallbacks, List.length_append, List.length_singleton, Array.size_push, h.length]
  · rw [horigins, hcallbacks]
    intro i c' hc'
    rw [Array.getElem?_push] at hc'
    split at hc'
    next he =>
      obtain rfl := Option.some.inj hc'
      exact ⟨o, he ▸ hnew, hg⟩
    · obtain ⟨o', ho', hg'⟩ := h.origin i c' hc'
      exact ⟨o', horigin ho', hg'⟩
  · exact fun a b g g' ha hb => h.apart a b g g' (hlive a ha) (hlive b hb)
  · rw [horigins, hcallbacks]
    intro e he
    rcases List.mem_cons.mp he with rfl | he
    · exact ⟨c, Array.getElem?_push_size, rfl, rfl, hnew⟩
    · obtain ⟨c', hc', hcl, hcode, ho'⟩ := h.entry e he
      exact ⟨c', World.getElem?_pushCallback pool hc', hcl, hcode, horigin ho'⟩
  · rw [hcallbacks, Array.size_push]
    intro i hi
    rcases Nat.lt_or_eq_of_le (Nat.le_of_lt_succ hi) with hi | rfl
    · obtain ⟨e, he, hei⟩ := h.all i hi
      exact ⟨e, List.mem_cons_of_mem _ he, hei⟩
    · exact ⟨_, List.mem_cons_self, rfl⟩

end Ledger

namespace Holdings

variable {s : Holdings} {l : Ledger}

theorem Recorded.agrees (h : Recorded s l) : l.Agrees s.world := by
  induction h with
  | start setup => exact Ledger.agrees_start setup
  | make _ signature hfree ih => exact ih.make signature hfree
  | @share s l o _ ho ih =>
    refine ih.shrink rfl fun o' ho' => ?_
    rcases ho' with ho' | ho'
    · rcases List.mem_cons.mp ho' with rfl | ho'
      · exact ho
      · exact Or.inl ho'
    · exact Or.inr ho'
  | drop _ o ih => exact ih.shrink rfl fun o' ho' => ho'.imp_left List.mem_of_mem_erase
  | @compile w w' held l signature closure o id prepared hs hc ho hg h ih =>
    have hw := hs.reachable.sound
    have hl := hs.reachable.listed
    rcases hw.makeCallback_cases hl signature closure prepared with
      ⟨i, hown, hm⟩ | ⟨slot, pool, -, hm⟩ | ⟨f, pool, hm⟩
    all_goals rw [hm, Prod.mk.injEq] at h
    · obtain ⟨hi, rfl⟩ := h
      obtain rfl := Except.ok.inj hi
      -- the closure is held, and so are the callback and its signature
      have hk := (hl.compiled?_eq_some hw.compiled).mp hown
      have hlive := hw.mem_live_of_compiled hc (hl.member i _ hk)
      have horigin := ih.origin_eq ho hg hlive hk
      obtain ⟨c, hcb, he⟩ := World.key?_eq_some.mp hk
      obtain rfl := congrArg Prod.fst he
      rw [World.callbackAddress_eq hcb]
      exact ih.record_found hcb horigin
    · obtain ⟨hi, rfl⟩ := h
      obtain rfl := Except.ok.inj hi
      have hmade := ih.record_made pool (c := ⟨slot, pool.codeAt slot, signature, closure⟩) ho hg
      rw [World.callbackAddress_eq (show (w.withCallback pool
        ⟨slot, pool.codeAt slot, signature, closure⟩).callbacks[w.callbacks.size]? = _ from
        Array.getElem?_push_size)]
      exact hmade
    · cases h.1
  | step _ h hq ih =>
    exact ih.shrink hq fun o ho => ho.imp_right fun ⟨id, hid, he⟩ => ⟨id, h.live_subset hq hid, he⟩

/-! ## Routes -/

/-- What is done with a callback that is held is recorded without one more compilation. -/
theorem Recorded.use {route : Route} {w w' : World} {held : List Ref} {id : Nat} {a : Outcome Unit}
    (hs : Recorded ⟨w, held⟩ l) (hid : Ref.callback id ∈ held)
    (hr : ∀ r ∈ route.retention?, Ref.retention r ∈ held) (h : route.use id w = (a, w')) :
    Recorded ⟨w', held⟩ l := by
  have hroot : ∀ {w : World} {r : Ref}, r ∈ held → w.isHeld held r = true := fun hr =>
    World.isHeld_eq_true.mpr (Or.inl hr)
  have hmemory : ∀ memory : Memory, Recorded ⟨{ w with memory }, held⟩ l := fun memory =>
    hs.step (.other ⟨⟨rfl, rfl, rfl⟩, rfl, rfl, rfl⟩) rfl
  rcases route.use_cases id w with ⟨o', memory, he⟩ | ⟨retention, address, memory, hret, he⟩
  · obtain ⟨-, rfl⟩ := Prod.mk.inj (he.symm.trans h)
    exact hmemory memory
  · obtain ⟨-, rfl⟩ := Prod.mk.inj (he.symm.trans h)
    refine (hmemory memory).step (.keep (hroot (hr _ hret)) (fun c hc => ?_) rfl) rfl
    rw [← Option.some.inj hc]
    exact hroot hid

/-- Whatever is done on a route is recorded as one compilation, unless the system refuses it. -/
theorem Recorded.take {route : Route} {signature : Signature} {closure o : Nat} {w w' : World}
    {held : List Ref} {a : Outcome Unit} (hs : Recorded ⟨w, held⟩ l)
    (hc : w.isHeld held (.proc closure) = true) (ho : l.Live w o)
    (hg : l.objects[o]? = some signature) (hr : ∀ r ∈ route.retention?, Ref.retention r ∈ held)
    (h : route.take signature closure w = (a, w')) :
    Recorded ⟨w', held⟩ l ∨
      ∃ id address, Recorded ⟨w', .callback id :: held⟩ (l.record ⟨closure, o, id, address⟩) := by
  rw [route.take_eq] at h
  rcases hm : makeCallback signature closure route.prepared w with ⟨e | id, w₁⟩
  · rw [Act.bind_error hm, Prod.mk.injEq] at h
    rw [← h.2]
    refine Or.inl (hs.step (.refused hm) ?_)
    rcases World.makeCallback_cases signature closure route.prepared w with
      ⟨i, -, he⟩ | ⟨i, -, -, he⟩ | ⟨slot, pool, -, -, he⟩ | ⟨f, pool, -, he⟩
    all_goals rw [hm, Prod.mk.injEq] at he
    · cases he.1
    · cases he.1
    · cases he.1
    · rw [he.2]
  · rw [Act.bind_ok hm] at h
    refine Or.inr ⟨id, _, (hs.compile hc ho hg hm).use List.mem_cons_self (fun r hr' => ?_) h⟩
    exact List.mem_cons_of_mem _ (hr r hr')

/-! ## What has been compiled -/

/-- Callbacks of one closure that hold one signature have one key, and are the same. -/
theorem Recorded.eq_of_origin (h : Recorded s l) {a b : Nat} {c d : Callback}
    (hc : s.world.callbacks[a]? = some c) (hd : s.world.callbacks[b]? = some d)
    (hclosure : c.closure = d.closure) (horigin : l.origins[a]? = l.origins[b]?) : a = b := by
  obtain ⟨o, ho, hg⟩ := h.agrees.origin a c hc
  obtain ⟨o', ho', hg'⟩ := h.agrees.origin b d hd
  obtain rfl := Option.some.inj ((ho.symm.trans horigin).trans ho')
  have hsignature : c.signature = d.signature := Option.some.inj (hg.symm.trans hg')
  refine h.reachable.listed.eq_of_key (World.key?_eq_some.mpr ⟨c, hc, rfl⟩)
    (World.key?_eq_some.mpr ⟨d, hd, ?_⟩)
  rw [Callback.key, Callback.key, hsignature, hclosure]

/-- What has been compiled has one callback for each closure and signature. -/
theorem Recorded.callback_eq_iff (h : Recorded s l) {e e' : Compilation} (he : e ∈ l.done)
    (he' : e' ∈ l.done) :
    e.callback = e'.callback ↔ e.closure = e'.closure ∧ e.object = e'.object := by
  obtain ⟨c, hc, hcl, -, ho⟩ := h.agrees.entry e he
  obtain ⟨c', hc', hcl', -, ho'⟩ := h.agrees.entry e' he'
  constructor
  · intro hone
    rw [hone] at hc ho
    obtain rfl := Option.some.inj (hc.symm.trans hc')
    exact ⟨hcl.symm.trans hcl', Option.some.inj (ho.symm.trans ho')⟩
  · rintro ⟨hclosure, hobject⟩
    refine h.eq_of_origin hc hc' ?_ ?_
    · rw [hcl, hcl', hclosure]
    · rw [ho, ho', hobject]

/-- Live callbacks have one code address only if they are the same. -/
theorem Recorded.address_eq_iff (h : Recorded s l) {e e' : Compilation} (he : e ∈ l.done)
    (he' : e' ∈ l.done) (hlive : e.callback ∈ s.world.live) (hlive' : e'.callback ∈ s.world.live) :
    e.address = e'.address ↔ e.callback = e'.callback := by
  obtain ⟨c, hc, -, hcode, -⟩ := h.agrees.entry e he
  obtain ⟨c', hc', -, hcode', -⟩ := h.agrees.entry e' he'
  constructor
  · intro haddress
    refine h.reachable.sound.eq_of_code
      (World.trampoline?_eq_some.mpr ⟨hc, (World.mem_live.mp hlive).2⟩)
      (World.trampoline?_eq_some.mpr ⟨hc', (World.mem_live.mp hlive').2⟩) ?_
    rw [hcode, hcode', haddress]
  · intro hone
    rw [hone] at hc
    rw [← hcode, ← hcode', Option.some.inj (hc.symm.trans hc')]

/-- A closure that is held keeps what has been compiled for it, and with it the signature. -/
theorem Recorded.hasCallback (h : Recorded s l) {e : Compilation} (he : e ∈ l.done)
    (hheld : s.world.isHeld s.held (.proc e.closure) = true) :
    l.Live s.world e.object ∧ ∃ signature, l.objects[e.object]? = some signature ∧
      s.world.HasCallback signature e.closure e.callback e.address := by
  have hw := h.reachable.sound
  have hl := h.reachable.listed
  obtain ⟨c, hc, hcl, hcode, horigin⟩ := h.agrees.entry e he
  obtain ⟨o, ho, hg⟩ := h.agrees.origin _ c hc
  obtain rfl := Option.some.inj (horigin.symm.trans ho)
  have hk : s.world.key? e.callback = some (e.closure, c.signature.id) :=
    World.key?_eq_some.mpr ⟨c, hc, by rw [← hcl]; rfl⟩
  have hlive := hw.mem_live_of_compiled hheld (hl.member _ _ hk)
  refine ⟨Or.inr ⟨e.callback, hlive, ho⟩, c.signature, hg, ?_⟩
  rw [← hcode, ← World.callbackAddress_eq hc]
  exact World.hasCallback ((hl.compiled?_eq_some hw.compiled).mpr hk) hlive

/-- A closure lists as many callbacks as signatures have been compiled for it. -/
theorem Recorded.length_compiledOf (h : Recorded s l) (closure : Nat) :
    (s.world.compiledOf closure).length =
      ((l.done.filter fun e => e.closure = closure).map Compilation.object).dedup.length := by
  have hw := h.reachable.sound.compiled
  have hl := h.reachable.listed
  have ha := h.agrees
  have hone : ∀ a ∈ s.world.compiledOf closure, ∀ b ∈ s.world.compiledOf closure,
      l.origins[a]? = l.origins[b]? → a = b := by
    intro a hma b hmb he
    obtain ⟨c, hc, hcl⟩ := hw.exists_of_mem hma
    obtain ⟨d, hd, hdl⟩ := hw.exists_of_mem hmb
    exact h.eq_of_origin hc hd (hcl.trans hdl.symm) he
  have hnodup : ((s.world.compiledOf closure).map fun id => l.origins[id]?).Nodup :=
    (hl.once closure).of_map.map_on hone
  have hperm : ((s.world.compiledOf closure).map fun id => l.origins[id]?).Perm
      (((l.done.filter fun e => e.closure = closure).map Compilation.object).dedup.map some) := by
    refine (List.perm_ext_iff_of_nodup hnodup
      ((List.nodup_dedup _).map fun _ _ => Option.some.inj)).mpr fun k => ?_
    simp only [List.mem_map, List.mem_dedup, List.mem_filter, decide_eq_true_eq]
    constructor
    · rintro ⟨id, hid, rfl⟩
      obtain ⟨c, hc, hcl⟩ := hw.exists_of_mem hid
      obtain ⟨e, he, rfl⟩ := ha.all id (Array.getElem?_eq_some_iff.mp hc).1
      obtain ⟨c', hc', hcl', -, ho⟩ := ha.entry e he
      obtain rfl := Option.some.inj (hc.symm.trans hc')
      exact ⟨e.object, ⟨e, ⟨he, hcl'.symm.trans hcl⟩, rfl⟩, ho.symm⟩
    · rintro ⟨o, ⟨e, ⟨he, rfl⟩, rfl⟩, rfl⟩
      obtain ⟨c, hc, hcl, -, ho⟩ := ha.entry e he
      have hmem := hl.member e.callback _ (World.key?_eq_some.mpr ⟨c, hc, rfl⟩)
      exact ⟨e.callback, hcl ▸ hmem, ho⟩
  simpa using hperm.length_eq

/--
In every world that compiling, growing, refusals, drops, and signatures coming and going in any
order can lead to:

* as long as a closure is held that has once been compiled for a signature, the signature is alive,
  no other living one has its address, and for it the closure is given to native code by the code
  address it had then, on all routes, and no slot is taken for it;
* two live callbacks have one code address when they were compiled for one closure and one
  signature, and only then, also when signatures are equal in everything but their address;
* a closure has as many callbacks as signatures have been compiled for it;
* the pool has no callback that the closure does not have.
-/
theorem compiled_once (hs : Recorded s l) :
    (∀ e ∈ l.done, s.world.isHeld s.held (.proc e.closure) = true →
      l.Live s.world e.object ∧ ∃ signature, l.objects[e.object]? = some signature ∧
        (∀ o other, l.Live s.world o → l.objects[o]? = some other → other.id = signature.id →
          o = e.object) ∧
        s.world.HasCallback signature e.closure e.callback e.address) ∧
    (∀ e ∈ l.done, ∀ e' ∈ l.done, e.callback ∈ s.world.live → e'.callback ∈ s.world.live →
      (e.address = e'.address ↔ e.closure = e'.closure ∧ e.object = e'.object)) ∧
    (∀ closure c, s.world.closures[closure]? = some c → c.compiled.length =
      ((l.done.filter fun e => e.closure = closure).map Compilation.object).dedup.length) ∧
    ∀ closure signature, s.world.compiled? closure signature = none →
      s.world.registered? closure signature = none := by
  have hw := hs.reachable.sound
  refine ⟨?_, ?_, ?_, fun closure signature =>
    hs.reachable.listed.registered?_eq_none hw.compiled hw.directed⟩
  · intro e he hheld
    obtain ⟨halive, signature, hg, hown⟩ := hs.hasCallback he hheld
    refine ⟨halive, signature, hg, ?_, hown⟩
    exact fun o other ho hother hid => hs.agrees.apart o e.object _ _ ho halive hother hg hid
  · intro e he e' he' hlive hlive'
    exact (hs.address_eq_iff he he' hlive hlive').trans (hs.callback_eq_iff he he')
  · intro closure c hc
    rw [← hs.length_compiledOf, World.compiledOf, hc]
    rfl

/-- A signature dies and another one is made at its address, and one that is equal but for its
address. A closure is compiled for both, and once more for the one when nothing but its callback
holds that: there are two callbacks with two code addresses. -/
theorem compiled_once_twice : ∃ (s : Holdings) (l : Ledger) (g g' : Signature),
    Recorded s l ∧ s.held = [.callback 1, .proc 1] ∧
    l.objects = [g, g, g'] ∧ g' = { g with id := g.id + 1 } ∧ l.handles = [] ∧
    l.done = [⟨1, 1, 1, CodeMemory.nthCode 0⟩, ⟨1, 2, 2, CodeMemory.nthCode 1⟩,
      ⟨1, 1, 1, CodeMemory.nthCode 0⟩, ⟨0, 0, 0, CodeMemory.nthCode 0⟩] ∧
    s.world.HasCallback g 1 1 (CodeMemory.nthCode 0) ∧
    s.world.HasCallback g' 1 2 (CodeMemory.nthCode 1) ∧
    (∀ o other, l.Live s.world o → l.objects[o]? = some other → other.id = g.id → o = 1) ∧
    CodeMemory.nthCode 0 ≠ CodeMemory.nthCode 1 ∧
    (s.world.closures[1]?.map fun c => c.compiled.length) = some 2 := by
  let g : Signature := ⟨7, .builtin .void, [], none, .default, none, false, true⟩
  let g' : Signature := { g with id := 8 }
  let e : Compilation := ⟨1, 1, 1, CodeMemory.nthCode 0⟩
  let e' : Compilation := ⟨1, 2, 2, CodeMemory.nthCode 1⟩
  let l : Ledger :=
    ⟨[g, g, g'], [], [0, 1, 2], [e, e', e, ⟨0, 0, 0, CodeMemory.nthCode 0⟩]⟩
  let w₁ := (start ⟨.consecutive, some 1, 0⟩).world.withClosure "first" []
  let w₂ := (makeCallback g 0 (.ok ()) w₁).2
  let w₃ := World.collect { w₂ with dropped := w₂.dropped ++ [.callback 0, .proc 0] } []
  let w₄ := w₃.withClosure "second" []
  let w₅ := (makeCallback g 1 (.ok ()) w₄).2
  let w₆ := (makeCallback g' 1 (.ok ()) w₅).2
  let w₇ := World.collect { w₆ with dropped := w₆.dropped ++ [.callback 2, .callback 1] } [.proc 1]
  -- the first signature is made, compiled for, and dies
  have h₁ : Recorded ⟨w₁, [.proc 0]⟩ _ :=
    (Recorded.start ⟨.consecutive, some 1, 0⟩).closure "first" 0 (by decide +kernel)
  have h₂ := h₁.make g fun o _ _ ho => by simp [Ledger.empty] at ho
  have h₃ : Recorded ⟨w₂, [.callback 0, .proc 0]⟩ _ := h₂.compile_snd g 0 0 0
    (CodeMemory.nthCode 0) (by decide +kernel) (Or.inl (by decide +kernel)) rfl (by decide +kernel)
    (by decide +kernel)
  have h₄ : Recorded ⟨w₃, []⟩ _ := (h₃.drop 0).release [.callback 0, .proc 0] []
  -- two more are made, one of them at its address
  have hnone : w₄.live = [] := by decide +kernel
  have h₅ : Recorded ⟨w₄, [.proc 1]⟩ _ := h₄.closure "second" 1 (by decide +kernel)
  have h₆ := h₅.make g fun o _ ho _ => by
    rcases ho with ho | ⟨id, hid, -⟩
    · cases ho
    · rw [hnone] at hid
      cases hid
  have h₇ := h₆.make g' fun o other _ ho => by
    have hmem : other ∈ [g, g] := List.mem_of_getElem? ho
    rw [List.mem_pair, or_self] at hmem
    rw [hmem]
    exact Nat.ne_of_lt (Nat.lt_succ_self 7)
  have h₈ : Recorded ⟨w₅, [.callback 1, .proc 1]⟩ _ := h₇.compile_snd g 1 1 1
    (CodeMemory.nthCode 0) (by decide +kernel) (Or.inl (by decide +kernel)) rfl (by decide +kernel)
    (by decide +kernel)
  have h₉ : Recorded ⟨w₆, [.callback 2, .callback 1, .proc 1]⟩ _ := h₈.compile_snd g' 1 2 2
    (CodeMemory.nthCode 1) (by decide +kernel) (Or.inl (by decide +kernel)) rfl (by decide +kernel)
    (by decide +kernel)
  -- the callbacks alone hold them now
  have h₁₀ : Recorded ⟨w₇, [.proc 1]⟩ _ :=
    ((h₉.drop 1).drop 2).release [.callback 2, .callback 1] [.proc 1]
  have h₁₁ : Recorded ⟨(makeCallback g 1 (.ok ()) w₇).2, [.callback 1, .proc 1]⟩ l :=
    h₁₀.compile_snd g 1 1 1 (CodeMemory.nthCode 0) (by decide +kernel)
      (Or.inr ⟨1, by decide +kernel, rfl⟩) rfl (by decide +kernel) (by decide +kernel)
  obtain ⟨hfound, -, -, -⟩ := compiled_once h₁₁
  obtain ⟨-, own, hg, hapart, hown⟩ := hfound e (by simp [l]) (by decide +kernel)
  obtain ⟨-, own', hg', -, hown'⟩ := hfound e' (by simp [l]) (by decide +kernel)
  obtain rfl : g = own := Option.some.inj hg
  obtain rfl : g' = own' := Option.some.inj hg'
  exact ⟨_, l, g, g', h₁₁, rfl, rfl, rfl, rfl, rfl, hown, hown', hapart, by decide,
    by decide +kernel⟩

end Holdings

end ForeignCall
