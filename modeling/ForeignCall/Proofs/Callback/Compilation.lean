import ForeignCall.Proofs.Actions
import ForeignCall.Proofs.Callback.Run

/-!
# What a closure has been compiled to

What is compiled is known by its key: the closure, and the address of the signature. In every world
that a run leads to, the callback of a key stands once in the list of its closure
(`World.Listed`), so it is found again by all routes on which closures are compiled
(`World.HasCallback`).

Before it binds a slot the pool looks in its directory. It never finds a callback there that the
closure does not have (`World.Listed.registered?_eq_none`).
-/

namespace ForeignCall

namespace World

variable {w w' : World} {roots : List Ref} {closure id : Nat} {signature : Signature}

/-- The callbacks that a closure has been compiled to, oldest first. -/
def compiledOf (w : World) (closure : Nat) : List Nat :=
  (w.closures[closure]?.map Closure.compiled).getD []

/-- Each callback stands in the list of its closure, and no key stands there twice. -/
structure Listed (w : World) : Prop where
  member : ∀ id key, w.key? id = some key → id ∈ w.compiledOf key.1
  once : ∀ closure, ((w.compiledOf closure).map w.key?).Nodup

/-! ## Finding what has been compiled -/

theorem mem_compiledOf {c : Closure} (hc : w.closures[closure]? = some c) :
    id ∈ w.compiledOf closure ↔ id ∈ c.compiled := by
  simp [compiledOf, hc]

theorem Compiled.exists_of_mem (h : w.Compiled) (hid : id ∈ w.compiledOf closure) :
    ∃ cb : Callback, w.callbacks[id]? = some cb ∧ cb.closure = closure := by
  cases hc : w.closures[closure]? with
  | none => simp [compiledOf, hc] at hid
  | some c => exact h closure c hc id ((mem_compiledOf hc).mp hid)

/-- Callbacks in the list of one closure that have one key are one callback. -/
theorem Listed.eq_of_key (h : w.Listed) {id' : Nat} {key : CallbackKey} (hk : w.key? id = some key)
    (hk' : w.key? id' = some key) : id = id' :=
  List.inj_on_of_nodup_map (h.once key.1) (h.member id key hk) (h.member id' key hk')
    (hk.trans hk'.symm)

/-- A closure has a callback for a signature when there is one with their key. -/
theorem Listed.compiled?_eq_some (hl : w.Listed) (hc : w.Compiled) :
    w.compiled? closure signature = some id ↔ w.key? id = some (closure, signature.id) := by
  have hkey : ∀ {id}, w.compiled? closure signature = some id →
      w.key? id = some (closure, signature.id) := by
    intro id h
    obtain ⟨c, cb, hcl, hmem, hcb, hs⟩ := exists_of_compiled? h
    obtain ⟨cb', hcb', rfl⟩ := hc closure c hcl id hmem
    rw [hcb, Option.some.injEq] at hcb'
    subst hcb'
    exact key?_eq_some.mpr ⟨cb, hcb, by rw [← hs]; rfl⟩
  refine ⟨hkey, fun h => ?_⟩
  cases hf : w.compiled? closure signature with
  | some id' => rw [hl.eq_of_key (hkey hf) h]
  | none =>
    have hmem := hl.member id _ h
    obtain ⟨cb, hcb, he⟩ := key?_eq_some.mp h
    unfold compiled? at hf
    unfold compiledOf at hmem
    cases hcl : w.closures[closure]? with
    | none => simp [hcl] at hmem
    | some c =>
      rw [hcl] at hf hmem
      have hnot := List.find?_eq_none.mp hf id hmem
      rw [hcb] at hnot
      exact absurd (beq_iff_eq.mpr (congrArg Prod.snd he)) hnot

theorem Listed.key?_of_compiled?_eq_none (hl : w.Listed) (hc : w.Compiled)
    (h : w.compiled? closure signature = none) (id : Nat) :
    w.key? id ≠ some (closure, signature.id) := fun hk => by
  rw [(hl.compiled?_eq_some hc).mpr hk] at h
  cases h

/-- The pool has no callback that the closure does not have. -/
theorem Listed.registered?_eq_none (hl : w.Listed) (hc : w.Compiled) (hd : w.Directed)
    (h : w.compiled? closure signature = none) : w.registered? closure signature = none := by
  cases hr : w.registered? closure signature with
  | none => rfl
  | some id =>
    have hk := hd _ (registered?_eq_some hr).1
    exact absurd hk (hl.key?_of_compiled?_eq_none hc h id)

theorem makeCallback_of_compiled? (h : w.compiled? closure signature = some id)
    (prepared : Checked Unit) : makeCallback signature closure prepared w = (.ok id, w) := by
  unfold makeCallback
  rw [h]

/-- Compiling finds the callback that the closure has, makes one for a closure that had none for the
signature, or is refused. -/
theorem Sound.makeCallback_cases (hw : w.Sound roots) (hl : w.Listed) (signature : Signature)
    (closure : Nat) (prepared : Checked Unit) :
    (∃ id, w.compiled? closure signature = some id ∧
      ForeignCall.makeCallback signature closure prepared w = (.ok id, w)) ∨
    (∃ slot pool, w.compiled? closure signature = none ∧
      ForeignCall.makeCallback signature closure prepared w = (.ok w.callbacks.size,
        w.withCallback pool ⟨slot, pool.codeAt slot, signature, closure⟩)) ∨
    ∃ f pool, ForeignCall.makeCallback signature closure prepared w =
      (.error (.fault f), { w with pool }) := by
  rcases World.makeCallback_cases signature closure prepared w with
    hown | ⟨id, hnone, hr, -⟩ | ⟨slot, pool, hnone, -, hm⟩ | ⟨f, pool, -, hm⟩
  · exact Or.inl hown
  · rw [hl.registered?_eq_none hw.compiled hw.directed hnone] at hr
    cases hr
  · exact Or.inr (Or.inl ⟨slot, pool, hnone, hm⟩)
  · exact Or.inr (Or.inr ⟨f, pool, hm⟩)

/-- A closure that is held keeps the callbacks that it has been compiled to alive. -/
theorem Sound.mem_live_of_compiled (hw : w.Sound roots)
    (hc : w.isHeld roots (.proc closure) = true) (hid : id ∈ w.compiledOf closure) :
    id ∈ w.live := by
  have ha := hw.toClosed.alive_of_isHeld hc
  have hcl := Array.getElem?_eq_getElem (show closure < w.closures.size from ha.1)
  have hchild : Ref.callback id ∈ w.children (.proc closure) := by
    rw [children_proc hcl]
    exact List.mem_append_left _ (List.mem_map_of_mem ((mem_compiledOf hcl).mp hid))
  exact mem_live.mpr (hw.child _ ha _ hchild)

/-! ## Worlds with one more callback -/

variable {pool : Pool} {c : Callback}

theorem key?_withCallback (id : Nat) : (w.withCallback pool c).key? id =
    if id = w.callbacks.size then some c.key else w.key? id := by
  unfold key? withCallback keepCompiled pushCallback
  rw [Array.getElem?_push]
  split <;> rfl

theorem compiledOf_withCallback (hc : c.closure < w.closures.size) (closure : Nat) :
    (w.withCallback pool c).compiledOf closure =
      if c.closure = closure then w.compiledOf closure ++ [w.callbacks.size]
      else w.compiledOf closure := by
  unfold compiledOf withCallback keepCompiled pushCallback
  simp only [Array.getElem?_modify]
  split
  next h =>
    subst h
    simp [hc]
  · rfl

theorem Listed.withCallback (hl : w.Listed) (hw : w.Compiled) (hc : c.closure < w.closures.size)
    (hnew : w.compiled? c.closure c.signature = none) (pool : Pool) :
    (w.withCallback pool c).Listed := by
  -- what a closure lists are positions of the old table, which have kept their keys
  have hold : ∀ closure, ∀ id ∈ w.compiledOf closure,
      (w.withCallback pool c).key? id = w.key? id := by
    intro closure id hid
    obtain ⟨cb, hcb, -⟩ := hw.exists_of_mem hid
    rw [key?_withCallback, if_neg (Nat.ne_of_lt (Array.getElem?_eq_some_iff.mp hcb).1)]
  refine ⟨fun id key hk => ?_, fun closure => ?_⟩
  · rw [key?_withCallback] at hk
    rw [compiledOf_withCallback hc]
    split at hk
    next he =>
      rw [← Option.some.inj hk, if_pos (show c.closure = c.key.1 from rfl), he]
      exact List.mem_append_right _ (List.mem_singleton_self _)
    · have hmem := hl.member id key hk
      split
      · exact List.mem_append_left _ hmem
      · exact hmem
  · rw [compiledOf_withCallback hc]
    split
    next he =>
      subst he
      rw [List.map_append, List.map_congr_left (hold _), List.nodup_append]
      refine ⟨hl.once _, by simp, ?_⟩
      rintro key hkey _ hlast rfl
      obtain ⟨id, -, hid⟩ := List.mem_map.mp hkey
      rw [List.map_singleton, List.mem_singleton, key?_withCallback, if_pos rfl] at hlast
      exact hl.key?_of_compiled?_eq_none hw hnew id (hid.trans hlast)
    · rw [List.map_congr_left (hold _)]
      exact hl.once closure

end World

namespace Holdings

variable {s t : Holdings}

/-! ## Steps -/

/-- A step makes no callback, or it makes one for a closure that had none for the signature. -/
theorem Step.callbacks_cases (h : Step s t) (hs : s.world.Sound s.held) (hl : s.world.Listed) :
    (t.world.callbacks = s.world.callbacks ∧ t.world.compiledOf = s.world.compiledOf) ∨
    ∃ (c : Callback) (pool : Pool), s.world.isHeld s.held (.proc c.closure) = true ∧
      s.world.compiled? c.closure c.signature = none ∧ t.world = s.world.withCallback pool c := by
  have hof : ∀ {w w' : World}, w'.closures = w.closures → w'.compiledOf = w.compiledOf := by
    intro w w' h
    funext closure
    rw [World.compiledOf, World.compiledOf, h]
  rcases h.tables_cases with
    ⟨label, captured, he⟩ | ⟨signature, closure, prepared, o, hc, h⟩ | ⟨refs, rest, he⟩ |
      ⟨hclosures, hcallbacks, -⟩
  · rw [he]
    refine Or.inl ⟨rfl, ?_⟩
    funext closure
    simp only [World.compiledOf, World.withClosure, Array.getElem?_push]
    split
    next he => simp [he]
    · rfl
  · rcases hs.makeCallback_cases hl signature closure prepared with
      ⟨i, -, hm⟩ | ⟨slot, pool, hnone, hm⟩ | ⟨f, pool, hm⟩
    all_goals rw [hm, Prod.mk.injEq] at h
    · exact Or.inl ⟨congrArg World.callbacks h.2.symm, congrArg World.compiledOf h.2.symm⟩
    · exact Or.inr ⟨_, pool, hc _ h.1.symm, hnone, h.2.symm⟩
    · rw [← h.2]
      exact Or.inl ⟨rfl, rfl⟩
  · obtain ⟨hcallbacks, hclosures, -⟩ :=
      World.sameTables_collect { s.world with dropped := s.world.dropped ++ refs } rest
    rw [he]
    exact Or.inl ⟨hcallbacks, hof hclosures⟩
  · exact Or.inl ⟨hcallbacks, hof hclosures⟩

theorem Step.listed (h : Step s t) (hs : s.world.Sound s.held) (hl : s.world.Listed) :
    t.world.Listed := by
  rcases h.callbacks_cases hs hl with ⟨hcb, hof⟩ | ⟨c, pool, hc, hnone, he⟩
  · refine ⟨fun id key hk => ?_, fun closure => ?_⟩
    · rw [World.key?_congr hcb] at hk
      rw [hof]
      exact hl.member id key hk
    · rw [World.key?_congr hcb, hof]
      exact hl.once closure
  · rw [he]
    exact hl.withCallback hs.compiled (hs.toClosed.alive_of_isHeld hc).1 hnone pool

theorem listed_start (setup : Setup) : (start setup).world.Listed where
  member := fun id key hk => by simp [start, World.start, World.key?] at hk
  once := fun closure => by simp [start, World.start, World.compiledOf]

theorem Reachable.listed (hs : s.Reachable) : s.world.Listed := by
  obtain ⟨setup, hrun⟩ := hs
  induction hrun with
  | refl => exact listed_start setup
  | tail hr hstep ih => exact hstep.listed (Reachable.sound ⟨setup, hr⟩) ih

end Holdings

/-! ## Routes -/

/-- The ways in which a closure comes to be compiled for a signature. -/
inductive Route where
  /-- By itself; `prepared` is the system's answer when a slot is made executable. -/
  | request (prepared : Checked Unit)
  /-- As an argument of a call. -/
  | argument
  /-- As a function. -/
  | function
  /-- Stored in a view. -/
  | view (v : View) (offset : Nat)
  /-- Put in a field of a struct. -/
  | field (v : View) (retention offset : Nat)

namespace Route

/-- What is done on a route. -/
def take (signature : Signature) (closure : Nat) : Route → Act Unit
  | request prepared => do let _ ← makeCallback signature closure prepared
  | argument => do let _ ← callbackArgument signature (.proc closure)
  | function => do let _ ← Function.ofClosure signature closure
  | view v offset => do let _ ← putCallback v offset closure signature
  | field v retention offset => putFunction v retention offset signature (.proc closure)

/-- The map of the struct that a route writes to. -/
def retention? : Route → Option Nat
  | field _ retention _ => some retention
  | _ => none

/-- What the system answers on a route. -/
def prepared : Route → Checked Unit
  | request prepared => prepared
  | _ => .ok ()

/-- What is done with a callback on a route. -/
def use : Route → Nat → Act Unit
  | view v offset, id => do
    let address ← Act.view fun w => w.callbackAddress id
    Act.write fun m => m.writeAddress v offset address
  | field v retention offset, id => do
    let address ← Act.view fun w => w.callbackAddress id
    Act.write fun m => m.writeAddress v offset address
    retain retention (wrap (v.address + offset)) (some id)
  | _, _ => pure ()

variable {signature : Signature} {closure : Nat}

/-- On every route the closure is compiled, and what happens next is about the callback alone. -/
theorem take_eq (route : Route) : route.take signature closure =
    makeCallback signature closure route.prepared >>= route.use := by
  cases route <;>
    simp only [take, prepared, callbackArgument, Function.ofClosure, putCallback, putFunction,
      bind_assoc, pure_bind, bind_pure_unit] <;> rfl

/-- What is done with a callback is that memory is written, and then a struct may keep it. -/
theorem use_cases (route : Route) (id : Nat) (w : World) :
    (∃ o memory, route.use id w = (o, { w with memory })) ∨
    ∃ retention address memory, route.retention? = some retention ∧
      route.use id w = retain retention address (some id) { w with memory } := by
  have hwrite : ∀ f : Memory → Checked Memory,
      ∃ o memory, Act.write f w = (o, { w with memory }) := by
    intro f
    unfold Act.write
    split
    · exact ⟨_, _, rfl⟩
    · exact ⟨_, w.memory, rfl⟩
  cases route with
  | view v offset =>
    obtain ⟨o, memory, hm⟩ := hwrite fun m => m.writeAddress v offset (w.callbackAddress id)
    exact Or.inl ⟨o, memory, hm⟩
  | field v retention offset =>
    obtain ⟨o, memory, hm⟩ := hwrite fun m => m.writeAddress v offset (w.callbackAddress id)
    rcases o with e | u
    · exact Or.inl ⟨.error e, memory, (Act.bind_ok rfl).trans (Act.bind_error hm)⟩
    · exact Or.inr ⟨retention, _, memory, rfl, (Act.bind_ok rfl).trans (Act.bind_ok hm)⟩
  | _ => exact Or.inl ⟨.ok (), w.memory, rfl⟩

end Route

/-! ## What has been compiled is found again -/

/--
A closure that has been compiled for a signature. On all routes it is given to native code by the
one code address, and neither a slot is taken nor a callback made.
-/
structure World.HasCallback (w : World) (signature : Signature) (closure id address : Nat) :
    Prop where
  live : id ∈ w.live
  request : ∀ prepared, makeCallback signature closure prepared w = (.ok id, w)
  argument : callbackArgument signature (.proc closure) w = (.ok address, w)
  function : Function.ofClosure signature closure w = (.ok ⟨address, signature, some id, none⟩, w)
  view : ∀ v offset, putCallback v offset closure signature w =
    ((fun _ => id) <$> Act.write fun m => m.writeAddress v offset address) w
  field : ∀ v retention offset, putFunction v retention offset signature (.proc closure) w =
    putFunction v retention offset signature (.function ⟨address, signature, some id, none⟩) w
  slots : ∀ route : Route, (route.take signature closure w).2.pool = w.pool ∧
    (route.take signature closure w).2.callbacks = w.callbacks

theorem World.hasCallback {w : World} {signature : Signature} {closure id : Nat}
    (h : w.compiled? closure signature = some id) (hl : id ∈ w.live) :
    w.HasCallback signature closure id (w.callbackAddress id) := by
  have hm := World.makeCallback_of_compiled? h
  refine ⟨hl, hm, ?_, ?_, fun v offset => ?_, fun v retention offset => ?_, fun route => ?_⟩
  · exact Act.bind_ok (hm _)
  · exact Act.bind_ok (hm _)
  · exact Act.bind_ok (hm _)
  · exact Act.bind_ok (hm _)
  · rw [route.take_eq, Act.bind_ok (hm _)]
    rcases route.use_cases id w with ⟨o, memory, he⟩ | ⟨retention, address, memory, -, he⟩ <;>
      rw [he] <;> exact ⟨rfl, rfl⟩

end ForeignCall
