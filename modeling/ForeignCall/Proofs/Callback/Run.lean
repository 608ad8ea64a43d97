import ForeignCall.Proofs.Callback.Lifetime
import Mathlib.Data.List.Nodup
import Mathlib.Logic.Relation

/-!
# Runs of compiling and dropping

`Holdings` is a world together with what the managed side holds of it, one reference for each
handle. A step compiles a callback, has it refused, grows the pool, clones a handle, makes a struct,
keeps or clears callbacks in a struct, drops handles in any order, or changes something that holds
nothing. Each step keeps `World.Sound` (`Step.sound`), so every run does (`Reachable.sound`).

Main statement: `reachable_slots_shared`. In every reachable world each slot is free once and
unbound or belongs to one live callback, and code that enters the address of a held callback enters
its closure by its signature.
-/

namespace ForeignCall

namespace World

variable {w w' : World} {roots : List Ref} {r : Ref} {id : Nat}

/-! ## Worlds that hold more -/

/-- What is alive stays alive when the tables grow and nothing is retired. -/
theorem Alive.mono (hk : ∀ r, w.Known r → w'.Known r) (hg : w'.gone = w.gone)
    (h : w.Alive r) : w'.Alive r :=
  ⟨hk r h.1, by rw [hg]; exact h.2⟩

theorem Closed.hold (hw : w.Closed roots) (hr : w.isHeld roots r = true) :
    w.Closed (r :: roots) where
  root := fun x hx => by
    rcases List.mem_cons.mp hx with rfl | hx
    · exact hw.alive_of_isHeld hr
    · exact hw.root x hx
  child := hw.child
  retired := hw.retired
  dropped := hw.dropped

theorem Sound.hold (hw : w.Sound roots) (hr : w.isHeld roots r = true) : w.Sound (r :: roots) :=
  ⟨hw.toClosed.hold hr, hw.pool, hw.compiled, hw.coded, hw.directed⟩

/-- Nothing becomes unsound when less is held, as long as what was held is given up. -/
theorem Sound.give (hw : w.Sound roots) {refs rest : List Ref} (hp : roots.Perm (refs ++ rest)) :
    Sound { w with dropped := w.dropped ++ refs } rest where
  root := fun x hx => hw.root x (hp.mem_iff.mpr (List.mem_append_right _ hx))
  child := hw.child
  retired := hw.retired
  dropped := fun x hx => by
    rcases List.mem_append.mp hx with hx | hx
    · exact hw.dropped x hx
    · exact (hw.root x (hp.mem_iff.mpr (List.mem_append_left _ hx))).1
  pool := hw.pool
  compiled := hw.compiled
  coded := hw.coded
  directed := hw.directed

/-- Callbacks keep their code addresses when slots are added. -/
theorem Coded.mono (h : w.Coded) {pool : Pool} (hp : w.pool.codes <+: pool.codes) :
    Coded { w with pool } := by
  intro id c hc
  obtain ⟨hlt, he⟩ := List.getElem?_eq_some_iff.mp (h id c hc)
  rw [← he]
  exact List.prefix_iff_getElem?.mp hp c.slot hlt

theorem Sound.withPool (hw : w.Sound roots) {pool : Pool} (hp : pool.Serves w.trampolines)
    (hcodes : w.pool.codes <+: pool.codes) (hd : pool.directory = w.pool.directory) :
    Sound { w with pool } roots where
  root := hw.root
  child := hw.child
  retired := hw.retired
  dropped := hw.dropped
  pool := hp
  compiled := hw.compiled
  coded := hw.coded.mono hcodes
  directed := fun e he => hw.directed e (hd ▸ he)

/-- A world whose tables and pool are those of another one. -/
structure SameHoldings (w w' : World) : Prop extends SameTables w w' where
  pool : w'.pool = w.pool
  gone : w'.gone = w.gone
  dropped : w'.dropped = w.dropped

theorem SameHoldings.refl (w : World) : SameHoldings w w := ⟨⟨rfl, rfl, rfl⟩, rfl, rfl, rfl⟩

theorem SameHoldings.trans {w'' : World} (h : SameHoldings w w') (h' : SameHoldings w' w'') :
    SameHoldings w w'' where
  toSameTables := h.toSameTables.trans h'.toSameTables
  pool := h'.pool.trans h.pool
  gone := h'.gone.trans h.gone
  dropped := h'.dropped.trans h.dropped

theorem Sound.congr (hw : w.Sound roots) (h : SameHoldings w w') : w'.Sound roots := by
  have ha : ∀ r, w'.Alive r ↔ w.Alive r := by
    intro r
    unfold Alive
    rw [h.toSameTables.known, h.gone]
  refine ⟨⟨?_, ?_, ?_, ?_⟩, ?_, ?_, ?_, ?_⟩
  · exact fun r hr => (ha r).mpr (hw.root r hr)
  · intro x hx r hr
    rw [h.toSameTables.children] at hr
    exact (ha r).mpr (hw.child x ((ha x).mp hx) r hr)
  · intro r hr
    rw [h.gone] at hr
    exact h.toSameTables.known.mpr (hw.retired r hr)
  · intro r hr
    rw [h.dropped] at hr
    exact h.toSameTables.known.mpr (hw.dropped r hr)
  · have hl : w'.live = w.live := by
      unfold live
      rw [h.callbacks, h.gone]
    unfold trampolines
    rw [h.pool, hl, bound?_congr h.callbacks]
    exact hw.pool
  · unfold Compiled
    rw [h.callbacks, h.closures]
    exact hw.compiled
  · unfold Coded
    rw [h.callbacks, h.pool]
    exact hw.coded
  · unfold Directed
    rw [key?_congr h.callbacks, h.pool]
    exact hw.directed

/-! ## New closures and structs -/

/-- The world with one more closure. -/
def withClosure (w : World) (label : String) (captured : List Value) : World :=
  { w with closures := w.closures.push ⟨label, captured, []⟩ }

theorem getElem?_push_of_lt {α : Type} {xs : Array α} {x : α} {i : Nat} (h : i < xs.size) :
    (xs.push x)[i]? = xs[i]? := by
  rw [Array.getElem?_push, if_neg (Nat.ne_of_lt h)]

theorem known_withClosure (label : String) (captured : List Value) (h : w.Known r) :
    (w.withClosure label captured).Known r := by
  cases r <;> simp_all [Known, withClosure] <;> omega

theorem children_withClosure_of_known (label : String) (captured : List Value) (h : w.Known r) :
    (w.withClosure label captured).children r = w.children r := by
  cases r with
  | proc id => simp only [children, withClosure, getElem?_push_of_lt h]
  | body id => simp only [children, withClosure, getElem?_push_of_lt h]
  | callback id => rfl
  | retention id => rfl
  | owner id => rfl
  | library id => rfl

theorem Sound.withClosure (hw : w.Sound roots) (label : String) (captured : List Value)
    (hc : ∀ r ∈ captured.flatMap Value.refs, w.isHeld roots r = true) :
    (w.withClosure label captured).Sound (.proc w.closures.size :: roots) := by
  have hmono : ∀ r, w.Alive r → (w.withClosure label captured).Alive r :=
    fun r hr => Alive.mono (fun _ => known_withClosure label captured) rfl hr
  have hnew : ∀ r, ¬ w.Known r → (w.withClosure label captured).Known r →
      r = .proc w.closures.size ∨ r = .body w.closures.size := by
    intro r hn hk
    cases r <;> simp_all [Known, World.withClosure] <;> omega
  -- only what is known has ever been retired, so what is new is alive
  have hgone : ∀ r, ¬ w.Known r → r ∉ w.gone := fun r hn hg => hn (hw.retired r hg)
  have hproc : (w.withClosure label captured).Alive (.proc w.closures.size) :=
    ⟨by simp [Known, World.withClosure], hgone _ (by simp [Known])⟩
  have hbody : (w.withClosure label captured).Alive (.body w.closures.size) :=
    ⟨by simp [Known, World.withClosure], hgone _ (by simp [Known])⟩
  refine ⟨⟨?_, ?_, ?_, ?_⟩, hw.pool, ?_, hw.coded, hw.directed⟩
  · intro r hr
    rcases List.mem_cons.mp hr with rfl | hr
    · exact hproc
    · exact hmono r (hw.root r hr)
  · intro h hh r hr
    by_cases hk : w.Known h
    · rw [children_withClosure_of_known label captured hk] at hr
      exact hmono r (hw.child h ⟨hk, hh.2⟩ r hr)
    · -- the new closure holds its body, and the body what it has captured
      rcases hnew h hk hh.1 with rfl | rfl
      · simp only [children, World.withClosure, Array.getElem?_push, if_true, List.map_nil,
          List.nil_append, List.mem_singleton] at hr
        exact hr ▸ hbody
      · simp only [children, World.withClosure, Array.getElem?_push, if_true, Option.map_some,
          Option.getD_some] at hr
        exact hmono r (hw.toClosed.alive_of_isHeld (hc r hr))
  · exact fun r hr => known_withClosure label captured (hw.retired r hr)
  · exact fun r hr => known_withClosure label captured (hw.dropped r hr)
  · intro closure c hcl id hid
    simp only [World.withClosure, Array.getElem?_push] at hcl
    split at hcl
    · rw [← Option.some.inj hcl] at hid
      simp at hid
    · exact hw.compiled closure c hcl id hid

theorem newRetention_eq (w : World) : Instance.newRetention w =
    (.ok w.retentions.size, { w with retentions := w.retentions.push [] }) := rfl

theorem Sound.newRetention (hw : w.Sound roots) :
    Sound { w with retentions := w.retentions.push [] }
      (.retention w.retentions.size :: roots) := by
  have hkn : ∀ r, w.Known r → Known { w with retentions := w.retentions.push [] } r := by
    intro r hr
    cases r with
    | retention id => exact Nat.lt_of_lt_of_le hr (by simp)
    | _ => exact hr
  have hmono : ∀ r, w.Alive r → Alive { w with retentions := w.retentions.push [] } r :=
    fun r hr => Alive.mono hkn rfl hr
  refine ⟨⟨?_, ?_, ?_, ?_⟩, hw.pool, hw.compiled, hw.coded, hw.directed⟩
  · intro r hr
    rcases List.mem_cons.mp hr with rfl | hr
    · exact ⟨by simp [Known], fun hg => by simpa [Known] using hw.retired _ hg⟩
    · exact hmono r (hw.root r hr)
  · intro h hh r hr
    cases h with
    | retention id =>
      have hle : id < w.retentions.size ∨ id = w.retentions.size := by
        have := hh.1
        simp only [Known, Array.size_push] at this
        omega
      rcases hle with hid | rfl
      · simp only [children, getElem?_push_of_lt hid] at hr
        exact hmono r (hw.child (.retention id) ⟨hid, hh.2⟩ r hr)
      · -- the new map is empty
        simp [children] at hr
    | proc id => exact hmono r (hw.child (.proc id) hh r hr)
    | body id => exact hmono r (hw.child (.body id) hh r hr)
    | callback id => exact hmono r (hw.child (.callback id) hh r hr)
    | owner id => simp [children] at hr
    | library id => simp [children] at hr
  · exact fun r hr => hkn r (hw.retired r hr)
  · exact fun r hr => hkn r (hw.dropped r hr)

/-! ## Maps of structs -/

/-- A map of a struct may lose callbacks, which are given up, and gain callbacks that are alive. -/
theorem Sound.modifyRetention (hw : w.Sound roots) (id : Nat) (f : Retention → Retention)
    (refs : List Ref) (hf : ∀ m, ∀ e ∈ f m, e ∈ m ∨ w.Alive (.callback e.2))
    (hr : ∀ r ∈ refs, w.Known r) :
    Sound { w with
      retentions := w.retentions.modify id f
      dropped := w.dropped ++ refs } roots := by
  have hkn : ∀ r, Known { w with
      retentions := w.retentions.modify id f
      dropped := w.dropped ++ refs } r ↔ w.Known r := by
    intro r
    cases r <;> simp [Known]
  have hal : ∀ r, Alive { w with
      retentions := w.retentions.modify id f
      dropped := w.dropped ++ refs } r ↔ w.Alive r := fun r => and_congr (hkn r) Iff.rfl
  refine ⟨⟨?_, ?_, ?_, ?_⟩, hw.pool, hw.compiled, hw.coded, hw.directed⟩
  · exact fun r hr => (hal r).mpr (hw.root r hr)
  · intro h hh r hr
    refine (hal r).mpr ?_
    have hh' := (hal h).mp hh
    cases h with
    | retention k =>
      simp only [children, List.mem_map] at hr
      obtain ⟨e, he, rfl⟩ := hr
      rw [Array.getElem?_modify] at he
      have hold : ∀ e ∈ (w.retentions[k]?.getD []), w.Alive (.callback e.2) := fun e he =>
        hw.child (.retention k) hh' _ (List.mem_map_of_mem he)
      split at he
      · cases hm : w.retentions[k]? with
        | none => simp [hm] at he
        | some m =>
          simp only [hm, Option.map_some, Option.getD_some] at he
          rw [hm, Option.getD_some] at hold
          -- an entry of the new map is an old one, or alive by hypothesis
          rcases hf m e he with he | ha
          · exact hold e he
          · exact ha
      · exact hold e he
    | proc k => exact hw.child (.proc k) hh' r hr
    | body k => exact hw.child (.body k) hh' r hr
    | callback k => exact hw.child (.callback k) hh' r hr
    | owner k => simp [children] at hr
    | library k => simp [children] at hr
  · exact fun r hr => (hkn r).mpr (hw.retired r hr)
  · intro r hd
    refine (hkn r).mpr ?_
    rcases List.mem_append.mp hd with hd | hd
    · exact hw.dropped r hd
    · exact hr r hd

theorem mem_set_retention {m : Retention} {address : Nat} {callback : Option Nat} {e : Nat × Nat}
    (h : e ∈ m.set address callback) : e ∈ m ∨ callback = some e.2 := by
  unfold Retention.set at h
  cases callback with
  | none => exact Or.inl (List.mem_filter.mp h).1
  | some id =>
    rcases List.mem_append.mp h with h | h
    · exact Or.inl (List.mem_filter.mp h).1
    · rw [List.mem_singleton.mp h]
      exact Or.inr rfl

theorem retain_eq (w : World) (id address : Nat) (callback : Option Nat) :
    retain id address callback w = (.ok (), { w with
      retentions := w.retentions.modify id fun m => m.set address callback
      dropped := w.dropped ++
        ((w.retentions[id]?.bind fun m => m.find? address).toList.map Ref.callback) }) := rfl

theorem mem_of_find?_retention {m : Retention} {address c : Nat} (h : m.find? address = some c) :
    (address, c) ∈ m := by
  obtain ⟨l, r, hm, -⟩ := List.lookup_eq_some_iff.mp h
  rw [hm]
  exact List.mem_append_right _ (List.mem_cons_self ..)

/-- Keeping a callback for a field gives up the one that the field kept before. -/
theorem Sound.retain (hw : w.Sound roots) {address : Nat} {callback : Option Nat}
    (hid : w.isHeld roots (.retention id) = true)
    (hc : ∀ c ∈ callback, w.isHeld roots (.callback c) = true)
    (h : ForeignCall.retain id address callback w = (.ok (), w')) : w'.Sound roots := by
  rw [retain_eq, Prod.mk.injEq] at h
  rw [← h.2]
  refine hw.modifyRetention id _ _ ?_ ?_
  · intro m e he
    rcases mem_set_retention he with he | he
    · exact Or.inl he
    · exact Or.inr (hw.toClosed.alive_of_isHeld (hc _ he))
  · intro r hr
    obtain ⟨c, hcm, rfl⟩ := List.mem_map.mp hr
    obtain ⟨m, hm, hfind⟩ := Option.bind_eq_some_iff.mp (Option.mem_toList.mp hcm)
    refine (hw.child (.retention id) (hw.toClosed.alive_of_isHeld hid) _ ?_).1
    simp only [children, hm, Option.getD_some]
    exact List.mem_map_of_mem (f := fun e : Nat × Nat => Ref.callback e.2)
      (mem_of_find?_retention hfind)

theorem clear_cases (s : Instance) (w : World) :
    (∃ o memory, s.clear w = (o, { w with memory })) ∨
    ∃ o memory, ∃ inside : Nat × Nat → Bool, s.clear w = (o, { w with
      memory
      retentions := w.retentions.modify s.retention fun m => m.filter fun e => !inside e
      dropped := w.dropped ++
        ((w.retentions[s.retention]?.getD []).filter inside).map fun e => Ref.callback e.2 }) := by
  unfold Instance.clear
  simp only [bind, Act.bind, Act.ofOutcome, Act.write, Act.view, Act.modify, Act.give]
  cases s.view.slice 0 s.size with
  | error e => exact Or.inl ⟨_, w.memory, rfl⟩
  | ok whole =>
    dsimp only
    cases w.memory.clear whole with
    | error e => exact Or.inl ⟨_, w.memory, rfl⟩
    | ok memory =>
      dsimp only
      cases (orOverflow (addWords s.address s.size) : Outcome Nat) with
      | error e => exact Or.inl ⟨_, memory, rfl⟩
      | ok stop => exact Or.inr ⟨_, memory, _, rfl⟩

/-- A cleared struct gives up callbacks, if it is cleared at all. -/
theorem Sound.clear (hw : w.Sound roots) {s : Instance} {o : Outcome Unit}
    (hs : w.isHeld roots (.retention s.retention) = true) (h : s.clear w = (o, w')) :
    w'.Sound roots := by
  rcases clear_cases s w with ⟨o', memory, he⟩ | ⟨o', memory, inside, he⟩
  · rw [he, Prod.mk.injEq] at h
    rw [← h.2]
    exact hw.congr ⟨⟨rfl, rfl, rfl⟩, rfl, rfl, rfl⟩
  · rw [he, Prod.mk.injEq] at h
    rw [← h.2]
    refine (hw.modifyRetention s.retention (fun m => m.filter fun e => !inside e)
      (((w.retentions[s.retention]?.getD []).filter inside).map fun e => Ref.callback e.2)
      ?_ ?_).congr ⟨⟨rfl, rfl, rfl⟩, rfl, rfl, rfl⟩
    · exact fun m e he => Or.inl (List.mem_filter.mp he).1
    · intro r hr
      obtain ⟨e, he, rfl⟩ := List.mem_map.mp hr
      refine (hw.child _ (hw.toClosed.alive_of_isHeld hs) _ ?_).1
      exact List.mem_map_of_mem (f := fun e : Nat × Nat => Ref.callback e.2)
        (List.mem_filter.mp he).1

/-! ## Compiling -/

/-- The world with one more callback, compiled for a closure. -/
def withCallback (w : World) (pool : Pool) (c : Callback) : World :=
  (w.pushCallback pool c).keepCompiled c.closure w.callbacks.size

/-- What compiling gives: the callback that the closure has for the signature, the one that the pool
has bound for it, a new one in a slot that the pool has bound, or a refusal that gives the slot
back. -/
theorem makeCallback_cases (signature : Signature) (closure : Nat) (prepared : Checked Unit)
    (w : World) :
    (∃ id, w.compiled? closure signature = some id ∧
      makeCallback signature closure prepared w = (.ok id, w)) ∨
    (∃ id, w.compiled? closure signature = none ∧ w.registered? closure signature = some id ∧
      makeCallback signature closure prepared w = (.ok id, w.keepCompiled closure id)) ∨
    (∃ slot pool, w.compiled? closure signature = none ∧
      w.pool.bind signature closure prepared = (.ok slot, pool) ∧
      makeCallback signature closure prepared w = (.ok w.callbacks.size,
        w.withCallback pool ⟨slot, pool.codeAt slot, signature, closure⟩)) ∨
    ∃ f pool, w.pool.bind signature closure prepared = (.error f, pool) ∧
      makeCallback signature closure prepared w = (.error (.fault f), { w with pool }) := by
  unfold makeCallback
  cases hc : w.compiled? closure signature with
  | some id => exact Or.inl ⟨id, rfl, rfl⟩
  | none =>
    cases hr : w.registered? closure signature with
    | some id => exact Or.inr (Or.inl ⟨id, rfl, rfl, rfl⟩)
    | none =>
      rcases hb : w.pool.bind signature closure prepared with ⟨f | slot, pool⟩
      · exact Or.inr (Or.inr (Or.inr ⟨f, pool, rfl, rfl⟩))
      · exact Or.inr (Or.inr (Or.inl ⟨slot, pool, rfl, rfl, rfl⟩))

/-- What the pool has bound for a closure and a signature has not gone, and stands in the
directory under their key. -/
theorem registered?_eq_some {closure : Nat} {signature : Signature}
    (h : w.registered? closure signature = some id) :
    ((closure, signature.id), id) ∈ w.pool.directory ∧ Ref.callback id ∉ w.gone := by
  obtain ⟨hl, hg⟩ := Option.filter_eq_some_iff.mp h
  obtain ⟨l, r, he, -⟩ := List.lookup_eq_some_iff.mp hl
  refine ⟨?_, by simpa using hg⟩
  rw [he]
  exact List.mem_append_right _ (List.mem_cons_self ..)

/-- The callback that a closure has for a signature is one of its own. -/
theorem exists_of_compiled? {closure : Nat} {signature : Signature}
    (h : w.compiled? closure signature = some id) :
    ∃ c cb, w.closures[closure]? = some c ∧ id ∈ c.compiled ∧ w.callbacks[id]? = some cb ∧
      cb.signature.id = signature.id := by
  unfold compiled? at h
  cases hc : w.closures[closure]? with
  | none => simp [hc] at h
  | some c =>
    simp only [hc] at h
    have hp := List.find?_some h
    cases hcb : w.callbacks[id]? with
    | none => simp [hcb] at hp
    | some cb => exact ⟨c, cb, rfl, List.mem_of_find?_eq_some h, rfl, by simpa [hcb] using hp⟩

theorem children_proc {closure : Nat} {c : Closure} (h : w.closures[closure]? = some c) :
    w.children (.proc closure) = c.compiled.map Ref.callback ++ [.body closure] := by
  simp [children, h]

variable {pool : Pool} {c : Callback} {r' : Ref} {closure : Nat}

theorem known_pushCallback (h : w.Known r) : (w.pushCallback pool c).Known r := by
  cases r with
  | callback id => exact Nat.lt_of_lt_of_le h (by simp [pushCallback])
  | _ => exact h

theorem known_keepCompiled : (w.keepCompiled closure id).Known r ↔ w.Known r := by
  cases r <;> simp [Known, keepCompiled]

theorem live_pushCallback (h : Ref.callback w.callbacks.size ∉ w.gone) :
    (w.pushCallback pool c).live = w.live ++ [w.callbacks.size] := by
  unfold live pushCallback
  simp [List.range_succ, h]

theorem trampolines_pushCallback (h : Ref.callback w.callbacks.size ∉ w.gone) :
    (w.pushCallback pool c).trampolines =
      w.trampolines ++ [(c.slot, ⟨c.signature, c.closure⟩)] := by
  unfold trampolines
  rw [live_pushCallback h, List.filterMap_append]
  congr 1
  · refine List.filterMap_congr fun id hid => ?_
    unfold bound? pushCallback
    rw [getElem?_push_of_lt (mem_live.mp hid).1]
  · simp [bound?, pushCallback]

/-- The new callback holds the body of its closure, and nothing else holds more than before. -/
theorem children_pushCallback (h : r ∈ (w.pushCallback pool c).children r') :
    r ∈ w.children r' ∨ (r' = .callback w.callbacks.size ∧ r = .body c.closure) := by
  cases r' with
  | callback id =>
    simp only [children, bodyOf, pushCallback, Array.getElem?_push] at h
    split at h
    · next he =>
      refine Or.inr ⟨by rw [he], ?_⟩
      simpa using h
    · exact Or.inl (by simpa [children, bodyOf] using h)
  | _ => exact Or.inl h

/-- The closure holds the callback that it has been given, and nothing else holds more than
before. -/
theorem children_keepCompiled (h : r ∈ (w.keepCompiled closure id).children r') :
    r ∈ w.children r' ∨ (r' = .proc closure ∧ r = .callback id) := by
  cases r' with
  | proc k =>
    simp only [children, keepCompiled, Array.getElem?_modify] at h ⊢
    by_cases he : closure = k
    · rw [if_pos he] at h
      cases hc : w.closures[k]? with
      | none => simp [hc] at h
      | some cl =>
        simp only [hc, Option.map_some, List.map_append, List.map_cons, List.map_nil,
          List.mem_append, List.mem_cons, List.not_mem_nil, or_false] at h ⊢
        -- among the callbacks it had, the one it has been given, or its own body
        rcases h with (h | h) | h
        · exact Or.inl (Or.inl h)
        · exact Or.inr ⟨by rw [he], h⟩
        · exact Or.inl (Or.inr h)
    · rw [if_neg he] at h
      exact Or.inl h
  | body k =>
    refine Or.inl ?_
    simp only [children, keepCompiled, Array.getElem?_modify] at h ⊢
    split at h
    · simpa [Option.map_map, Function.comp_def] using h
    · exact h
  | callback k => exact Or.inl h
  | retention k => exact Or.inl h
  | owner k => exact Or.inl h
  | library k => exact Or.inl h

/-- Callbacks stay what they are when one is added. -/
theorem getElem?_pushCallback (pool : Pool) {c' : Callback} (h : w.callbacks[id]? = some c') :
    (w.pushCallback pool c).callbacks[id]? = some c' := by
  simp only [World.pushCallback, getElem?_push_of_lt (Array.getElem?_eq_some_iff.mp h).1]
  exact h

theorem Compiled.pushCallback (h : w.Compiled) (pool : Pool) (c : Callback) :
    (w.pushCallback pool c).Compiled := by
  intro closure cl hcl id hid
  obtain ⟨cb, hcb, he⟩ := h closure cl hcl id hid
  exact ⟨cb, getElem?_pushCallback pool hcb, he⟩

theorem Compiled.keepCompiled (h : w.Compiled) (hc : w.callbacks[id]? = some c) :
    (w.keepCompiled c.closure id).Compiled := by
  intro closure cl hcl i hi
  simp only [World.keepCompiled, Array.getElem?_modify] at hcl
  split at hcl
  · next he =>
    obtain ⟨cl', hcl', rfl⟩ := Option.map_eq_some_iff.mp hcl
    rcases List.mem_append.mp hi with hi | hi
    · exact h closure cl' hcl' i hi
    · rw [List.mem_singleton.mp hi]
      exact ⟨c, hc, he⟩
  · exact h closure cl hcl i hi

theorem Compiled.withCallback (h : w.Compiled) (pool : Pool) (c : Callback) :
    (w.withCallback pool c).Compiled :=
  (h.pushCallback pool c).keepCompiled (by simp [World.pushCallback])

theorem Coded.pushCallback (h : w.Coded) (hcodes : w.pool.codes <+: pool.codes)
    (hcode : pool.codes[c.slot]? = some c.code) : (w.pushCallback pool c).Coded := by
  intro id c' hc'
  simp only [World.pushCallback, Array.getElem?_push] at hc'
  split at hc'
  · rw [← Option.some.inj hc']
    exact hcode
  · exact h.mono hcodes id c' hc'

theorem Directed.pushCallback (h : w.Directed) (hd : pool.directory = w.pool.directory) :
    (w.pushCallback pool c).Directed := by
  intro e he
  rcases List.mem_cons.mp he with rfl | he
  · exact key?_eq_some.mpr ⟨c, by simp [World.pushCallback], rfl⟩
  · -- the entries of other keys are old ones
    obtain ⟨c', hc', hk⟩ := key?_eq_some.mp (h e (hd ▸ (List.mem_filter.mp he).1))
    exact key?_eq_some.mpr ⟨c', getElem?_pushCallback pool hc', hk⟩

/-- A callback in a slot that has just been bound keeps the invariant, and is held. -/
theorem Sound.pushCallback (hw : w.Sound roots) (hc : w.Alive (.proc c.closure))
    (hp : pool.Serves ((c.slot, ⟨c.signature, c.closure⟩) :: w.trampolines))
    (hcodes : w.pool.codes <+: pool.codes) (hcode : pool.codes[c.slot]? = some c.code)
    (hd : pool.directory = w.pool.directory) :
    (w.pushCallback pool c).Sound (.callback w.callbacks.size :: roots) := by
  have hgone : Ref.callback w.callbacks.size ∉ w.gone := fun hg => by
    simpa [Known] using hw.retired _ hg
  have hmono : ∀ r, w.Alive r → (w.pushCallback pool c).Alive r :=
    fun r hr => Alive.mono (fun _ => known_pushCallback) rfl hr
  have hnew : (w.pushCallback pool c).Alive (.callback w.callbacks.size) :=
    ⟨by simp [Known, World.pushCallback], hgone⟩
  have hbody : w.Alive (.body c.closure) := by
    refine hw.child _ hc _ ?_
    rw [children_proc (Array.getElem?_eq_getElem hc.1)]
    exact List.mem_append_right _ (List.mem_singleton_self _)
  refine ⟨⟨?_, ?_, ?_, ?_⟩, ?_, hw.compiled.pushCallback pool c,
    hw.coded.pushCallback hcodes hcode, hw.directed.pushCallback hd⟩
  · intro r hr
    rcases List.mem_cons.mp hr with rfl | hr
    · exact hnew
    · exact hmono r (hw.root r hr)
  · intro h hh r hr
    rcases children_pushCallback hr with hr | ⟨-, rfl⟩
    · refine hmono r (hw.child h ⟨?_, hh.2⟩ r hr)
      -- the new callback has no children in the old world
      cases h with
      | callback id =>
        simp only [children, bodyOf, Option.mem_toList, Option.map_eq_some_iff] at hr
        obtain ⟨cb, hcb, -⟩ := hr
        exact (Array.getElem?_eq_some_iff.mp hcb).1
      | _ => exact hh.1
    · exact hmono _ hbody
  · exact fun r hr => known_pushCallback (hw.retired r hr)
  · exact fun r hr => known_pushCallback (hw.dropped r hr)
  · rw [trampolines_pushCallback hgone]
    exact (hp.perm (List.perm_append_singleton _ _).symm).register _ _

/-- A closure may be given a callback of its own that is alive. -/
theorem Sound.keepCompiled (hw : w.Sound roots) (hc : w.callbacks[id]? = some c)
    (ha : w.Alive (.callback id)) : (w.keepCompiled c.closure id).Sound roots := by
  have hal : ∀ r, (w.keepCompiled c.closure id).Alive r ↔ w.Alive r :=
    fun r => and_congr known_keepCompiled Iff.rfl
  refine ⟨⟨?_, ?_, ?_, ?_⟩, hw.pool, hw.compiled.keepCompiled hc, hw.coded, hw.directed⟩
  · exact fun r hr => (hal r).mpr (hw.root r hr)
  · intro h hh r hr
    refine (hal r).mpr ?_
    rcases children_keepCompiled hr with hr | ⟨-, rfl⟩
    · exact hw.child h ((hal h).mp hh) r hr
    · exact ha
  · exact fun r hr => known_keepCompiled.mpr (hw.retired r hr)
  · exact fun r hr => known_keepCompiled.mpr (hw.dropped r hr)

/-- A closure holds the callback that it has been given. -/
theorem callback_mem_children_keepCompiled {closure : Nat} (hc : closure < w.closures.size)
    (id : Nat) : Ref.callback id ∈ (w.keepCompiled closure id).children (.proc closure) := by
  have hcl : (w.keepCompiled closure id).closures[closure]? =
      some { w.closures[closure] with compiled := w.closures[closure].compiled ++ [id] } := by
    simp only [World.keepCompiled, Array.getElem?_modify, if_true, Array.getElem?_eq_getElem hc,
      Option.map_some]
  rw [children_proc hcl]
  exact List.mem_append_left _ (List.mem_map_of_mem (List.mem_append_right _
    (List.mem_singleton_self id)))

theorem Sound.makeCallback (hw : w.Sound roots) {signature : Signature} {closure : Nat}
    {prepared : Checked Unit} (hc : w.isHeld roots (.proc closure) = true)
    (h : makeCallback signature closure prepared w = (.ok id, w')) :
    w'.Sound (.callback id :: roots) ∧
      ∃ cb, w'.callbacks[id]? = some cb ∧ cb.closure = closure ∧
        cb.signature.id = signature.id := by
  have ha := hw.toClosed.alive_of_isHeld hc
  rcases makeCallback_cases signature closure prepared w with
    ⟨i, hi, hm⟩ | ⟨i, -, hi, hm⟩ | ⟨slot, pool, -, hb, hm⟩ | ⟨f, pool, hb, hm⟩
  · -- compiled before: the closure itself keeps the callback alive
    rw [hm] at h
    simp only [Prod.mk.injEq, Except.ok.injEq] at h
    obtain ⟨rfl, rfl⟩ := h
    obtain ⟨cl, cb, hcl, hmem, hcb, hs⟩ := exists_of_compiled? hi
    refine ⟨hw.hold (isHeld_eq_true.mpr (Or.inr ⟨.proc closure, ha, ?_⟩)), cb, hcb, ?_, hs⟩
    · rw [children_proc hcl]
      exact List.mem_append_left _ (List.mem_map_of_mem hmem)
    · obtain ⟨cb', hcb', he⟩ := hw.compiled closure cl hcl i hmem
      rw [hcb] at hcb'
      rw [Option.some.inj hcb']
      exact he
  · -- bound before: the closure is given the callback, and keeps it alive
    rw [hm] at h
    simp only [Prod.mk.injEq, Except.ok.injEq] at h
    obtain ⟨rfl, rfl⟩ := h
    obtain ⟨hmem, hg⟩ := registered?_eq_some hi
    obtain ⟨cb, hcb, hk⟩ := key?_eq_some.mp (hw.directed _ hmem)
    obtain ⟨rfl, hs⟩ := Prod.mk.inj hk
    have halive : w.Alive (.callback i) := ⟨(Array.getElem?_eq_some_iff.mp hcb).1, hg⟩
    have hsound := hw.keepCompiled hcb halive
    refine ⟨hsound.hold (isHeld_eq_true.mpr (Or.inr ⟨.proc cb.closure, ?_, ?_⟩)), cb, hcb, rfl, hs⟩
    · exact ⟨known_keepCompiled.mpr ha.1, ha.2⟩
    · exact callback_mem_children_keepCompiled ha.1 i
  · rw [hm] at h
    simp only [Prod.mk.injEq, Except.ok.injEq] at h
    obtain ⟨rfl, rfl⟩ := h
    have hserves := hw.pool.bind_ok hb
    have hpushed := hw.pushCallback (c := ⟨slot, pool.codeAt slot, signature, closure⟩) ha hserves
      (Pool.codes_bind hb) (Pool.getElem?_codes_codeAt (hserves.used_lt (List.mem_cons_self ..)))
      (Pool.directory_bind hb)
    have hcb : (w.pushCallback pool ⟨slot, pool.codeAt slot, signature, closure⟩).callbacks[
        w.callbacks.size]? = some ⟨slot, pool.codeAt slot, signature, closure⟩ := by
      simp [World.pushCallback]
    exact ⟨hpushed.keepCompiled hcb (hpushed.root _ (List.mem_cons_self ..)), _, hcb, rfl, rfl⟩
  · rw [hm] at h
    simp at h

theorem getElem?_callbacks_makeCallback {signature : Signature} {closure : Nat}
    {prepared : Checked Unit} {o : Outcome Nat}
    (h : makeCallback signature closure prepared w = (o, w')) (hc : w.callbacks[id]? = some c) :
    w'.callbacks[id]? = some c := by
  rcases makeCallback_cases signature closure prepared w with
    ⟨i, hi, hm⟩ | ⟨i, -, hi, hm⟩ | ⟨slot, pool, -, hb, hm⟩ | ⟨f, pool, hb, hm⟩
  all_goals
    rw [hm, Prod.mk.injEq] at h
    rw [← h.2]
  · exact hc
  · exact hc
  · exact getElem?_pushCallback pool hc
  · exact hc

theorem Sound.makeCallback_refused (hw : w.Sound roots) {signature : Signature} {closure : Nat}
    {prepared : Checked Unit} {e : Failure}
    (h : ForeignCall.makeCallback signature closure prepared w = (.error e, w')) :
    w'.Sound roots := by
  rcases makeCallback_cases signature closure prepared w with
    ⟨i, hi, hm⟩ | ⟨i, -, hi, hm⟩ | ⟨slot, pool, -, hb, hm⟩ | ⟨f, pool, hb, hm⟩
  all_goals
    rw [hm] at h
    simp only [Prod.mk.injEq, reduceCtorEq, false_and] at h
  · rw [← h.2]
    exact hw.withPool (hw.pool.bind_error hb) (Pool.codes_bind hb) (Pool.directory_bind hb)

end World

/-! ## Runs -/

/-- A world, and the references that the managed side holds, one for each handle. -/
structure Holdings where
  world : World
  held : List Ref

namespace Holdings

/-- What the managed side does with callbacks and with what holds them. -/
inductive Step : Holdings → Holdings → Prop where
  /-- A closure is made; it captures values that are held. -/
  | closure {w : World} {held : List Ref} (label : String) (captured : List Value)
      (hc : ∀ r ∈ captured.flatMap Value.refs, w.isHeld held r = true) :
      Step ⟨w, held⟩ ⟨w.withClosure label captured, .proc w.closures.size :: held⟩
  /-- A closure that is held is compiled for a signature. -/
  | compile {w w' : World} {held : List Ref} {signature : Signature} {closure id : Nat}
      {prepared : Checked Unit} (hc : w.isHeld held (.proc closure) = true)
      (h : makeCallback signature closure prepared w = (.ok id, w')) :
      Step ⟨w, held⟩ ⟨w', .callback id :: held⟩
  /-- The system has no memory for a slot, or refuses to make it executable. -/
  | refused {w w' : World} {held : List Ref} {signature : Signature} {closure : Nat}
      {prepared : Checked Unit} {e : Failure}
      (h : makeCallback signature closure prepared w = (.error e, w')) :
      Step ⟨w, held⟩ ⟨w', held⟩
  /-- The pool grows, as far as the system has memory. -/
  | grow {w : World} {held : List Ref} :
      Step ⟨w, held⟩ ⟨{ w with pool := w.pool.grow.2 }, held⟩
  /-- One more handle or view of something that is held. -/
  | clone {w : World} {held : List Ref} {r : Ref} (hr : w.isHeld held r = true) :
      Step ⟨w, held⟩ ⟨w, r :: held⟩
  /-- A struct gets a map for the callbacks that it keeps. -/
  | struct {w w' : World} {held : List Ref} {id : Nat}
      (h : Instance.newRetention w = (.ok id, w')) :
      Step ⟨w, held⟩ ⟨w', .retention id :: held⟩
  /-- A function field of a struct is written. -/
  | keep {w w' : World} {held : List Ref} {id address : Nat} {callback : Option Nat}
      (hr : w.isHeld held (.retention id) = true)
      (hc : ∀ c ∈ callback, w.isHeld held (.callback c) = true)
      (h : retain id address callback w = (.ok (), w')) :
      Step ⟨w, held⟩ ⟨w', held⟩
  | clear {w w' : World} {held : List Ref} {s : Instance} {o : Outcome Unit}
      (hs : w.isHeld held (.retention s.retention) = true) (h : s.clear w = (o, w')) :
      Step ⟨w, held⟩ ⟨w', held⟩
  /-- Handles are dropped, and what nothing holds any more is retired. -/
  | drop {w : World} {held refs rest : List Ref} (hp : held.Perm (refs ++ rest)) :
      Step ⟨w, held⟩ ⟨{ w with dropped := w.dropped ++ refs }.collect rest, rest⟩
  /-- Anything that leaves the tables of holders and the pool alone. -/
  | other {w w' : World} {held : List Ref} (h : World.SameHoldings w w') :
      Step ⟨w, held⟩ ⟨w', held⟩

/-- How a pool is set up: the memory of the system, the size of a batch of slots, and how many
batches are made in advance. -/
structure Setup where
  memory : CodeMemory
  slotsPerBatch : Option Nat
  preallocated : Nat

/-- A system that has memory, and a pool as it is without settings. -/
def plain : Setup := ⟨.consecutive, none, 0⟩

/-- Nothing compiled and nothing held. -/
def start (p : Setup) : Holdings :=
  ⟨{ World.start with pool := .start p.memory p.slotsPerBatch p.preallocated }, []⟩

/-- Any number of steps. -/
def Run : Holdings → Holdings → Prop := Relation.ReflTransGen Step

/-- What can be reached from nothing. -/
def Reachable (s : Holdings) : Prop := ∃ setup, Run (start setup) s

theorem Step.compile_snd {w : World} {held : List Ref} (signature : Signature) (closure id : Nat)
    (prepared : Checked Unit) (hc : w.isHeld held (.proc closure) = true)
    (h : (makeCallback signature closure prepared w).1 = .ok id) :
    Step ⟨w, held⟩ ⟨(makeCallback signature closure prepared w).2, .callback id :: held⟩ :=
  .compile hc (Prod.ext h rfl)

theorem Step.sound {s t : Holdings} (h : Step s t) (hs : s.world.Sound s.held) :
    t.world.Sound t.held := by
  cases h with
  | closure label captured hc => exact hs.withClosure label captured hc
  | compile hc h => exact (hs.makeCallback hc h).1
  | refused h => exact hs.makeCallback_refused h
  | @grow w held =>
    refine hs.withPool hs.pool.grow ?_ ?_
    · rw [Pool.snd_grow]
      exact w.pool.codes_extend _
    · rw [Pool.snd_grow]
      exact w.pool.directory_extend _
  | clone hr => exact hs.hold hr
  | struct h =>
    rw [World.newRetention_eq, Prod.mk.injEq, Except.ok.injEq] at h
    obtain ⟨rfl, rfl⟩ := h
    exact hs.newRetention
  | keep hr hc h => exact hs.retain hr hc h
  | clear hr h => exact hs.clear hr h
  | drop hp => exact (hs.give hp).collect
  | other h => exact hs.congr h

theorem sound_start (setup : Setup) : (start setup).world.Sound (start setup).held where
  root := fun r hr => by simp [start] at hr
  child := fun h hh r hr => by
    obtain ⟨hk, -⟩ := hh
    cases h <;> simp [start, World.start, World.Known, World.children] at hk hr
  retired := fun r hr => by simp [start, World.start] at hr
  dropped := fun r hr => by simp [start, World.start] at hr
  pool := Pool.Serves.start _ _ _
  compiled := fun closure c hc => by simp [start, World.start] at hc
  coded := fun id c hc => by simp [start, World.start] at hc
  directed := fun e he => by
    have hd := Pool.directory_start setup.memory setup.slotsPerBatch setup.preallocated
    have he : e ∈ (Pool.start setup.memory setup.slotsPerBatch setup.preallocated).directory := he
    simp [hd] at he

theorem Run.sound {s t : Holdings} (h : Run s t) (hs : s.world.Sound s.held) :
    t.world.Sound t.held := by
  induction h with
  | refl => exact hs
  | tail _ hstep ih => exact hstep.sound ih

theorem Reachable.sound {s : Holdings} (h : Reachable s) : s.world.Sound s.held := by
  obtain ⟨setup, hr⟩ := h
  exact hr.sound (sound_start setup)

/-- What a step does to the closures, to the callbacks, and to what has gone: a closure is made, or
compiled, or handles are dropped, or all of them stay. -/
theorem Step.tables_cases {s t : Holdings} (h : Step s t) :
    (∃ label captured, t.world = s.world.withClosure label captured) ∨
    (∃ signature closure prepared o,
      (∀ id, o = .ok id → s.world.isHeld s.held (.proc closure) = true) ∧
      makeCallback signature closure prepared s.world = (o, t.world)) ∨
    (∃ refs rest, t.world = { s.world with dropped := s.world.dropped ++ refs }.collect rest) ∨
    t.world.closures = s.world.closures ∧ t.world.callbacks = s.world.callbacks ∧
      t.world.gone = s.world.gone := by
  cases h with
  | closure label captured _ => exact .inl ⟨label, captured, rfl⟩
  | compile hc h => exact .inr (.inl ⟨_, _, _, _, fun _ _ => hc, h⟩)
  | refused h =>
    refine .inr (.inl ⟨_, _, _, _, fun id he => ?_, h⟩)
    cases he
  | drop _ => exact .inr (.inr (.inl ⟨_, _, rfl⟩))
  | grow => exact .inr (.inr (.inr ⟨rfl, rfl, rfl⟩))
  | clone _ => exact .inr (.inr (.inr ⟨rfl, rfl, rfl⟩))
  | struct h =>
    rw [World.newRetention_eq, Prod.mk.injEq] at h
    rw [← h.2]
    exact .inr (.inr (.inr ⟨rfl, rfl, rfl⟩))
  | keep _ _ h =>
    rw [World.retain_eq, Prod.mk.injEq] at h
    rw [← h.2]
    exact .inr (.inr (.inr ⟨rfl, rfl, rfl⟩))
  | @clear w w' held i o _ h =>
    rcases World.clear_cases i w with ⟨o', memory, he⟩ | ⟨o', memory, inside, he⟩ <;>
      rw [he, Prod.mk.injEq] at h <;> rw [← h.2] <;> exact .inr (.inr (.inr ⟨rfl, rfl, rfl⟩))
  | other h => exact .inr (.inr (.inr ⟨h.closures, h.callbacks, h.gone⟩))

/-- A callback is never changed once it has been made. -/
theorem Step.getElem?_callbacks {s t : Holdings} (h : Step s t) {id : Nat} {c : Callback}
    (hc : s.world.callbacks[id]? = some c) : t.world.callbacks[id]? = some c := by
  rcases h.tables_cases with
    ⟨label, captured, he⟩ | ⟨_, _, _, _, -, hm⟩ | ⟨refs, rest, he⟩ | ⟨-, he, -⟩
  · rw [he]
    exact hc
  · exact World.getElem?_callbacks_makeCallback hm hc
  · rw [he, (World.sameTables_collect _ rest).callbacks]
    exact hc
  · rw [he]
    exact hc

theorem Run.getElem?_callbacks {s t : Holdings} (h : Run s t) {id : Nat} {c : Callback}
    (hc : s.world.callbacks[id]? = some c) : t.world.callbacks[id]? = some c := by
  induction h with
  | refl => exact hc
  | tail _ hstep ih => exact hstep.getElem?_callbacks ih

end Holdings

/-! ## What every run keeps -/

namespace World

/-- Native code that enters an address enters a closure by a signature. -/
def Enters (w : World) (address : Nat) (signature : Signature) (closure : Nat) : Prop :=
  ∀ (env : Environment) (fuel : Nat) (call : Abi.Call) (thread : Thread) (parked : List Parked),
    env.enterWithin (fuel + 1) address call ⟨w, thread, parked⟩ =
      Slot.enter ⟨address, some ⟨signature, closure⟩, none⟩ env (env.enterWithin fuel).callFunction
        call ⟨w, thread, parked⟩

variable {w : World} {roots : List Ref} {id : Nat}

theorem mem_trampolines_of_trampoline? {c : Callback} (h : w.trampoline? id = some c) :
    (c.slot, ⟨c.signature, c.closure⟩) ∈ w.trampolines :=
  mem_trampolines.mpr ⟨id, c, h, rfl⟩

theorem callbackAddress_eq {c : Callback} (h : w.callbacks[id]? = some c) :
    w.callbackAddress id = c.code := by
  simp [callbackAddress, h]

/-- A slot belongs to one live callback. -/
theorem Sound.eq_of_slot (hw : w.Sound roots) {id' : Nat} {c c' : Callback}
    (h : w.trampoline? id = some c) (h' : w.trampoline? id' = some c') (hs : c.slot = c'.slot) :
    id = id' := by
  by_cases hne : id = id'
  · exact hne
  · exfalso
    -- taken out of the list of trampolines, `id` leaves its slot to `id'`
    have hp := perm_trampolines_retire h
    have hg : w.trampoline? id' = some c' ∧ Ref.callback id' ≠ Ref.callback id :=
      ⟨h', fun he => hne (Ref.callback.inj he).symm⟩
    have hmem : (c'.slot, ⟨c'.signature, c'.closure⟩) ∈ (w.retire (.callback id)).trampolines := by
      obtain ⟨ht, hgone, -⟩ := sameTables_retire w (.callback id)
      refine mem_trampolines.mpr ⟨id', c', ?_, rfl⟩
      obtain ⟨hc, hn⟩ := trampoline?_eq_some.mp hg.1
      rw [trampoline?_eq_some, ht.callbacks, hgone]
      exact ⟨hc, List.not_mem_cons_of_ne_of_not_mem hg.2 hn⟩
    have hnd := (List.nodup_append.mp (hw.pool.perm hp).nodup).2.1
    rw [List.map_cons, List.nodup_cons] at hnd
    rw [hs] at hnd
    exact hnd.1 (List.mem_map.mpr ⟨_, hmem, rfl⟩)

theorem Sound.codeAt_eq (hw : w.Sound roots) {c : Callback} (h : w.callbacks[id]? = some c) :
    w.pool.codeAt c.slot = c.code := Pool.codeAt_eq (hw.coded id c h)

/-- Live callbacks with one code address are one callback. -/
theorem Sound.eq_of_code (hw : w.Sound roots) {id' : Nat} {c c' : Callback}
    (h : w.trampoline? id = some c) (h' : w.trampoline? id' = some c') (hc : c.code = c'.code) :
    id = id' := by
  refine hw.eq_of_slot h h' ?_
  have hp := hw.coded _ _ (trampoline?_eq_some.mp h).1
  have hp' := hw.coded _ _ (trampoline?_eq_some.mp h').1
  exact hw.pool.toCoded.eq_of_code hp (hc ▸ hp')

theorem Sound.enters (hw : w.Sound roots) {c : Callback} (h : w.trampoline? id = some c) :
    w.Enters (w.callbackAddress id) c.signature c.closure := by
  intro env fuel call thread parked
  have hc := (trampoline?_eq_some.mp h).1
  obtain ⟨interface, hs⟩ := hw.pool.slotAt? (mem_trampolines_of_trampoline? h)
  rw [hw.codeAt_eq hc] at hs
  rw [callbackAddress_eq hc]
  -- what the code has been prepared with makes no difference to a bound slot
  exact (env.enterWithin_slot fuel call (m := ⟨w, thread, parked⟩) hs).trans rfl

theorem Sound.trampoline_of_isHeld (hw : w.Sound roots)
    (h : w.isHeld roots (.callback id) = true) : ∃ c, w.trampoline? id = some c := by
  obtain ⟨hk, hg⟩ := hw.toClosed.alive_of_isHeld h
  exact exists_trampoline (mem_live.mpr ⟨hk, hg⟩)

/-- A slot that is free stands once in the free list and is unbound; any other belongs to one live
callback and is bound to its closure and signature. -/
theorem Sound.free_or_bound (hw : w.Sound roots) {i : Nat} (hi : i < w.pool.slots.size) :
    (w.pool.free.count i = 1 ∧ w.pool.bindingAt i = none ∧
      ∀ id c, w.trampoline? id = some c → c.slot ≠ i) ∨
    (w.pool.free.count i = 0 ∧ ∃ id c, w.trampoline? id = some c ∧ c.slot = i ∧
      w.pool.bindingAt i = some ⟨c.signature, c.closure⟩ ∧
      ∀ id' c', w.trampoline? id' = some c' → c'.slot = i → id' = id) := by
  have hn := (List.nodup_append.mp hw.pool.nodup).1
  rcases hw.pool.free_or_used hi with hf | ⟨e, he, rfl⟩
  · refine Or.inl ⟨List.count_eq_one_of_mem hn hf, hw.pool.unbound i hf, ?_⟩
    rintro id c hc rfl
    exact hw.pool.not_mem_free (mem_trampolines_of_trampoline? hc) hf
  · have hb := hw.pool.bound e he
    have hnf := hw.pool.not_mem_free he
    obtain ⟨id, c, hc, rfl⟩ := mem_trampolines.mp he
    refine Or.inr ⟨List.count_eq_zero.mpr hnf, id, c, hc, rfl, hb, ?_⟩
    intro id' c' hc' hs
    exact hw.eq_of_slot hc' hc hs

end World

namespace Holdings

/--
In every world that compiling, growing, refusals and drops in any order can lead to:

* each slot is free once and unbound, or it is the slot of exactly one live callback and bound to
  the closure and signature of that callback;
* the slots are as many as the free ones and the live callbacks together;
* no two live callbacks have one code address;
* native code that enters the address of a callback that is held in any way enters its own closure
  by its own signature;
* these are the closure it was compiled for and the signature of the same identity, whatever has
  been compiled and dropped since.
-/
theorem reachable_slots_shared {s : Holdings} (hs : s.Reachable) :
    (∀ i < s.world.pool.slots.size,
      (s.world.pool.free.count i = 1 ∧ s.world.pool.bindingAt i = none ∧
        ∀ id c, s.world.trampoline? id = some c → c.slot ≠ i) ∨
      (s.world.pool.free.count i = 0 ∧ ∃ id c, s.world.trampoline? id = some c ∧ c.slot = i ∧
        s.world.pool.bindingAt i = some ⟨c.signature, c.closure⟩ ∧
        ∀ id' c', s.world.trampoline? id' = some c' → c'.slot = i → id' = id)) ∧
    s.world.pool.slots.size = s.world.pool.free.length + s.world.live.length ∧
    (∀ a ∈ s.world.live, ∀ b ∈ s.world.live,
      s.world.callbackAddress a = s.world.callbackAddress b → a = b) ∧
    (∀ id, s.world.isHeld s.held (.callback id) = true →
      ∃ c, s.world.trampoline? id = some c ∧
        s.world.Enters (s.world.callbackAddress id) c.signature c.closure) ∧
    ∀ (r : Holdings) (w : World) (signature : Signature) (closure id : Nat)
      (prepared : Checked Unit), r.Reachable →
      r.world.isHeld r.held (.proc closure) = true →
      makeCallback signature closure prepared r.world = (.ok id, w) →
      Run ⟨w, .callback id :: r.held⟩ s → s.world.isHeld s.held (.callback id) = true →
      ∃ own, own.id = signature.id ∧ s.world.Enters (s.world.callbackAddress id) own closure := by
  have hw := hs.sound
  refine ⟨fun i hi => hw.free_or_bound hi, ?_, ?_, ?_, ?_⟩
  · rw [hw.pool.size_eq, World.length_trampolines]
  · intro a ha b hb he
    obtain ⟨c, hc⟩ := World.exists_trampoline ha
    obtain ⟨d, hd⟩ := World.exists_trampoline hb
    rw [World.callbackAddress_eq (World.trampoline?_eq_some.mp hc).1,
      World.callbackAddress_eq (World.trampoline?_eq_some.mp hd).1] at he
    exact hw.eq_of_code hc hd he
  · intro id hid
    obtain ⟨c, hc⟩ := hw.trampoline_of_isHeld hid
    exact ⟨c, hc, hw.enters hc⟩
  · intro r w signature closure id prepared hr hp hm hrun hid
    obtain ⟨-, cb, hcb, hcl, hsig⟩ := hr.sound.makeCallback hp hm
    have hcb' := hrun.getElem?_callbacks hcb
    obtain ⟨c, hc⟩ := hw.trampoline_of_isHeld hid
    have he := (World.trampoline?_eq_some.mp hc).1
    rw [hcb', Option.some.injEq] at he
    subst he
    exact ⟨cb.signature, hsig, hcl ▸ hw.enters hc⟩

/-- Only the first request has an answer. -/
def onlyCode? : Nat → Option Nat
  | 0 => some 4096
  | _ + 1 => none

theorem onlyCode?_eq_some {i code : Nat} (h : onlyCode? i = some code) : i = 0 ∧ code = 4096 := by
  cases i with
  | zero => exact ⟨rfl, (Option.some.inj h).symm⟩
  | succ i => cases h

theorem onlyCode?_pos {i code : Nat} (h : onlyCode? i = some code) : 0 < code := by
  have := (onlyCode?_eq_some h).2
  omega

theorem onlyCode?_lt {i code : Nat} (h : onlyCode? i = some code) : code < wordLimit := by
  have := (onlyCode?_eq_some h).2
  unfold wordLimit
  omega

/-- Memory for one slot, and no more. -/
def scarce : Setup where
  memory :=
    { code? := onlyCode?
      distinct := fun _ _ _ hi hj => (onlyCode?_eq_some hi).1.trans (onlyCode?_eq_some hj).1.symm
      positive := fun _ _ h => onlyCode?_pos h
      word := fun _ _ h => onlyCode?_lt h }
  slotsPerBatch := none
  preallocated := 0

/-- A closure has the only slot, and there is no memory to compile a second one. When the first has
been dropped, its slot is bound to the second, and the address enters that. -/
theorem reachable_slots_shared_reused : ∃ (signature : Signature) (r s : Holdings),
    r.Reachable ∧ Run r s ∧
    (makeCallback signature 1 (.ok ()) r.world).1 = .error (.fault (.outOfMemory 56)) ∧
    s.world.callbackAddress 1 = s.world.callbackAddress 0 ∧
    (s.world.trampoline? 1).map Callback.closure = some 1 ∧
    ∃ c, s.world.trampoline? 1 = some c ∧
      s.world.Enters (s.world.callbackAddress 1) c.signature c.closure := by
  let signature : Signature := ⟨0, .builtin .void, [], none, .default, none, false, true⟩
  let w₁ := (start scarce).world.withClosure "first" []
  let w₂ := (makeCallback signature 0 (.ok ()) w₁).2.withClosure "second" []
  let w₃ := (makeCallback signature 1 (.ok ()) w₂).2
  let w₄ := World.collect { w₃ with dropped := w₃.dropped ++ [.callback 0, .proc 0] } [.proc 1]
  have h₁ : Run (start scarce) ⟨w₁, [.proc 0]⟩ := .single (.closure "first" [] (by simp))
  have h₂ : Run (start scarce) ⟨w₂, [.proc 1, .callback 0, .proc 0]⟩ :=
    (h₁.tail (.compile_snd signature 0 0 (.ok ()) (by decide +kernel) (by decide +kernel))).tail
      (.closure "second" [] (by simp))
  have hrefused : (makeCallback signature 1 (.ok ()) w₂).1 =
      .error (.fault (.outOfMemory 56)) := by decide +kernel
  have h₃ : Run ⟨w₂, [.proc 1, .callback 0, .proc 0]⟩ ⟨w₃, [.proc 1, .callback 0, .proc 0]⟩ :=
    .single (.refused (Prod.ext hrefused rfl))
  have h₄ : Run ⟨w₂, [.proc 1, .callback 0, .proc 0]⟩ ⟨w₄, [.proc 1]⟩ :=
    h₃.tail (.drop (List.perm_append_comm :
      ([.proc 1] ++ [.callback 0, .proc 0] : List Ref).Perm _))
  have h₅ := h₄.tail
    (.compile_snd signature 1 1 (.ok ()) (by decide +kernel) (by decide +kernel))
  obtain ⟨-, -, -, henters, -⟩ := reachable_slots_shared ⟨scarce, h₂.trans h₅⟩
  exact ⟨signature, _, _, ⟨scarce, h₂⟩, h₅, hrefused, by decide +kernel, by decide +kernel,
    henters 1 (by decide +kernel)⟩

end Holdings

end ForeignCall
