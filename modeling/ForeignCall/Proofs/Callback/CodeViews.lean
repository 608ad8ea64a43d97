import ForeignCall.Library
import ForeignCall.Proofs.Callback.Run
import ForeignCall.Proofs.Memory.Adoption

/-!
# Views of code

A view of code keeps alive what the code belongs to, if it has an origin. The view of a callback has
the callback, and the view of an exported symbol or of a function at one has the library. The view
of a function that has been made of a closure has none: its code enters the closure only as long as
something else holds the callback.

Main statement: `Holdings.code_views_enter`.
-/

namespace ForeignCall

/-! ## The code of libraries -/

namespace Environment

/-- The code that is at hand in a world: that of a closed library is not. `home` tells which library
has the code at an address. -/
def loaded (env : Environment) (home : Nat → Option Nat) (w : World) : Environment :=
  { env with native := fun address =>
      if (home address).any fun id => w.gone.contains (.library id) then none
      else env.native address }

/-- Code that enters the address of no slot enters the native function there. -/
theorem enterWithin_native (env : Environment) (fuel : Nat) {address : Nat} (call : Abi.Call)
    {m : Machine} {f : NativeFunction} (hs : m.world.pool.slotAt? address = none)
    (hf : env.native address = some f) :
    env.enterWithin (fuel + 1) address call m = f.enter (env.enterWithin fuel) call m := by
  rw [enterWithin]
  simp only [bind, StateT.bind, get, getThe, MonadStateOf.get, StateT.get, pure, Option.bind, hs,
    hf]

theorem loaded_native {env : Environment} {home : Nat → Option Nat} {w : World} {address id : Nat}
    (hh : home address = some id) (hg : Ref.library id ∉ w.gone) :
    (env.loaded home w).native address = env.native address := by
  refine if_neg ?_
  rw [hh]
  simpa using hg

end Environment

namespace Holdings

/-! ## Runs in which libraries are opened -/

/-- What the managed side does with code: besides callbacks, it opens libraries. -/
inductive CodeStep : Holdings → Holdings → Prop where
  | managed {s t : Holdings} (h : Step s t) : CodeStep s t
  /-- A library is opened under an identity that no closed library has had. -/
  | opened {w : World} {held : List Ref} {id : Nat} (hn : Ref.library id ∉ w.gone) :
      CodeStep ⟨w, held⟩ ⟨w, .library id :: held⟩

/-- Any number of steps. -/
def CodeRun : Holdings → Holdings → Prop := Relation.ReflTransGen CodeStep

/-- What can be reached from nothing. -/
def CodeReachable (s : Holdings) : Prop := ∃ setup, CodeRun (start setup) s

variable {r s t : Holdings} {id : Nat} {c : Callback}

theorem CodeStep.sound (h : CodeStep s t) (hs : s.world.Sound s.held) :
    t.world.Sound t.held := by
  cases h with
  | managed h => exact h.sound hs
  | opened hn =>
    refine ⟨⟨?_, hs.child, hs.retired, hs.dropped⟩, hs.pool, hs.compiled, hs.coded, hs.directed⟩
    intro ref href
    rcases List.mem_cons.mp href with rfl | href
    · exact ⟨trivial, hn⟩
    · exact hs.root ref href

theorem CodeRun.sound (h : CodeRun s t) (hs : s.world.Sound s.held) : t.world.Sound t.held := by
  induction h with
  | refl => exact hs
  | tail _ hstep ih => exact hstep.sound ih

theorem CodeReachable.sound (h : CodeReachable s) : s.world.Sound s.held := by
  obtain ⟨setup, hr⟩ := h
  exact hr.sound (sound_start setup)

theorem CodeRun.getElem?_callbacks (h : CodeRun s t) (hc : s.world.callbacks[id]? = some c) :
    t.world.callbacks[id]? = some c := by
  induction h with
  | refl => exact hc
  | tail _ hstep ih =>
    cases hstep with
    | managed hstep => exact hstep.getElem?_callbacks ih
    | opened hn => exact ih

/-! ## Views that are held -/

/-- A view is alive: what it refers to is held, by a handle or by anything that is alive. -/
def Keeps (s : Holdings) (u : View) : Prop :=
  ∀ ref ∈ u.refs, s.world.isHeld s.held ref = true

instance (s : Holdings) (u : View) : Decidable (s.Keeps u) :=
  inferInstanceAs (Decidable (∀ ref ∈ u.refs, s.world.isHeld s.held ref = true))

/-- A view that has an origin keeps it alive, and so does whatever is made of it. -/
theorem Keeps.alive (hs : s.world.Sound s.held) {v u : View} {steps : List View.Adjustment}
    {origin : Origin} (hv : v.origin = some origin) (hu : v.adjustedBy steps = .ok u)
    (hk : s.Keeps u) : s.world.Alive origin.ref := by
  refine hs.toClosed.alive_of_isHeld (hk _ ?_)
  unfold View.refs
  rw [origin_adjustedBy hu, hv]
  exact List.mem_singleton_self _

/-- A callback that has been made and is still alive is bound, and its code enters its closure. -/
theorem CodeRun.enters (hrun : CodeRun r s) (hr : r.world.Sound r.held)
    (hc : r.world.callbacks[id]? = some c) (ha : s.world.Alive (.callback id)) :
    s.world.trampoline? id = some c ∧
      s.world.Enters (r.world.callbackAddress id) c.signature c.closure := by
  have hc' := hrun.getElem?_callbacks hc
  have ht : s.world.trampoline? id = some c := World.trampoline?_eq_some.mpr ⟨hc', ha.2⟩
  have haddress : r.world.callbackAddress id = s.world.callbackAddress id := by
    unfold World.callbackAddress
    rw [hc, hc']
  exact ⟨ht, haddress ▸ (hrun.sound hr).enters ht⟩

/-- The code of a callback that has been retired is nobody's, or another callback's. -/
theorem CodeRun.given_back (hrun : CodeRun r s) (hr : r.world.Sound r.held)
    (hc : r.world.callbacks[id]? = some c) (hg : Ref.callback id ∈ s.world.gone) :
    s.world.pool.bindingAt c.slot = none ∨
    ∃ id' c', id' ≠ id ∧ s.world.trampoline? id' = some c' ∧
      s.world.Enters (r.world.callbackAddress id) c'.signature c'.closure := by
  have hs := hrun.sound hr
  have haddress : r.world.callbackAddress id = c.code := World.callbackAddress_eq hc
  -- another callback may have been given the slot since
  by_cases hi : c.slot < s.world.pool.slots.size
  · rcases hs.free_or_bound hi with ⟨-, hb, -⟩ | ⟨-, id', c', hc', hslot, -, -⟩
    · exact Or.inl hb
    · refine Or.inr ⟨id', c', ?_, hc', ?_⟩
      · rintro rfl
        exact (World.trampoline?_eq_some.mp hc').2 hg
      · have hcode := hs.codeAt_eq (World.trampoline?_eq_some.mp hc').1
        rw [hslot, hs.codeAt_eq (hrun.getElem?_callbacks hc)] at hcode
        rw [haddress, hcode, ← World.callbackAddress_eq (World.trampoline?_eq_some.mp hc').1]
        exact hs.enters hc'
  · refine Or.inl ?_
    unfold Pool.bindingAt
    rw [Array.getElem?_eq_none (Nat.le_of_not_lt hi)]
    rfl

/-- A function is made of a closure by compiling a callback, which the function holds. -/
theorem ofClosure_eq_ok {signature : Signature} {closure : Nat} {f : Function} {w w' : World}
    (h : Function.ofClosure signature closure w = (.ok f, w')) :
    ∃ id, makeCallback signature closure (.ok ()) w = (.ok id, w') ∧
      f = ⟨w'.callbackAddress id, signature, some id, none⟩ := by
  obtain ⟨id, w₁, hm, h⟩ := Act.bind_eq_ok.mp h
  obtain ⟨address, w₂, hv, h⟩ := Act.bind_eq_ok.mp h
  obtain ⟨rfl, rfl⟩ := Act.view_eq_ok.mp hv
  obtain ⟨rfl, rfl⟩ := Act.pure_eq_ok.mp h
  exact ⟨id, hm, rfl⟩

/--
Views of code, and whatever is made of them, in every world that compiling, opening libraries, and
drops in any order can lead to.

* While a view of a callback is alive, so is the callback, and native code that enters the address
  of the view enters the callback's own closure by its own signature.
* While a view of an exported symbol, or of a function at one, is alive, so is the library, and
  native code that enters the address of the view enters the function of the library there.
* The view of a function that has been made of a closure holds nothing. Its address enters the
  closure while the callback is alive, held by the function, by the closure or by another view. Once
  the callback has gone, the address is that of no closure, or that of another callback.
-/
theorem code_views_enter (hr : r.CodeReachable) :
    (∀ (s : Holdings) (id : Nat) (c : Callback) (steps : List View.Adjustment) (u : View),
      r.world.callbacks[id]? = some c → CodeRun r s →
      (r.world.callbackView id).adjustedBy steps = .ok u → s.Keeps u →
      s.world.trampoline? id = some c ∧
        s.world.Enters (r.world.callbackView id).address c.signature c.closure) ∧
    (∀ (s : Holdings) (symbol : ExportedSymbol) (v : View) (steps : List View.Adjustment)
        (u : View),
      v = symbol.view ∨ (∃ signature, v = (symbol.toFunction signature).view) → CodeRun r s →
      v.adjustedBy steps = .ok u → s.Keeps u →
      s.world.Alive (.library symbol.library.id) ∧
      ∀ (env : Environment) (home : Nat → Option Nat) (f : NativeFunction),
        env.native symbol.address = some f → home symbol.address = some symbol.library.id →
        s.world.pool.slotAt? symbol.address = none →
        ∀ (fuel : Nat) (call : Abi.Call) (thread : Thread) (parked : List Parked),
          (env.loaded home s.world).enterWithin (fuel + 1) v.address call
              ⟨s.world, thread, parked⟩ =
            f.enter ((env.loaded home s.world).enterWithin fuel) call
              ⟨s.world, thread, parked⟩) ∧
    ∀ (signature : Signature) (closure : Nat) (f : Function) (w : World),
      r.world.isHeld r.held (.proc closure) = true →
      Function.ofClosure signature closure r.world = (.ok f, w) →
      ∃ id c, f.refs = [.callback id] ∧ w.callbacks[id]? = some c ∧ c.closure = closure ∧
        c.signature.id = signature.id ∧
        (∀ (steps : List View.Adjustment) (u : View), f.view.adjustedBy steps = .ok u →
          u.refs = []) ∧
        ∀ s : Holdings, CodeRun ⟨w, f.refs ++ r.held⟩ s →
          (s.world.isHeld s.held (.callback id) = true →
            s.world.Enters f.view.address c.signature closure) ∧
          (Ref.callback id ∈ s.world.gone →
            s.world.pool.bindingAt c.slot = none ∨
            ∃ id' c', id' ≠ id ∧ s.world.trampoline? id' = some c' ∧
              s.world.Enters f.view.address c'.signature c'.closure) := by
  refine ⟨?_, ?_, ?_⟩
  · intro s id c steps u hc hrun hu hk
    have horigin : (r.world.callbackView id).origin = some (.callback id) := rfl
    exact hrun.enters hr.sound hc (Keeps.alive (hrun.sound hr.sound) horigin hu hk)
  · intro s symbol v steps u hv hrun hu hk
    obtain ⟨horigin, haddress⟩ : v.origin = some (.library symbol.library.id) ∧
        v.address = symbol.address := by
      rcases hv with rfl | ⟨signature, rfl⟩ <;> exact ⟨rfl, rfl⟩
    have ha := Keeps.alive (hrun.sound hr.sound) horigin hu hk
    refine ⟨ha, ?_⟩
    intro env home f hf hh hs fuel call thread parked
    rw [haddress]
    have hnative := (Environment.loaded_native (w := s.world) hh ha.2).trans hf
    exact Environment.enterWithin_native _ fuel call hs hnative
  · intro signature closure f w hheld hf
    obtain ⟨id, hm, rfl⟩ := ofClosure_eq_ok hf
    -- the callback is held by the function, not by its view
    obtain ⟨hsound, c, hc, hclosure, hsignature⟩ := hr.sound.makeCallback hheld hm
    refine ⟨id, c, rfl, hc, hclosure, hsignature, ?_, ?_⟩
    · intro steps u hu
      unfold View.refs
      rw [origin_adjustedBy hu]
      rfl
    · intro s hrun
      refine ⟨fun hid => ?_, hrun.given_back hsound hc⟩
      have ha := (hrun.sound hsound).toClosed.alive_of_isHeld hid
      exact hclosure ▸ (hrun.enters hsound hc ha).2

/-! ## Views that outlive the handles -/

/-- A system that has memory, and a pool that makes one slot at a time. -/
def oneByOne : Setup := ⟨.consecutive, some 1, 0⟩

/-- A function without parameters and result. -/
def procedure : Signature := ⟨0, .builtin .void, [], none, .default, none, false, true⟩

/-- A symbol of an open library. -/
def openSymbol : ExportedSymbol := ⟨⟨0, none, .default⟩, "entry", 16⟩

/-- A library is open, and a closure has been compiled; handles of all three are held. -/
def compiledOnce : Holdings :=
  ⟨(makeCallback procedure 0 (.ok ())
      ((start oneByOne).world.withClosure "first" [])).2, [.callback 0, .proc 0, .library 0]⟩

theorem codeReachable_compiledOnce : compiledOnce.CodeReachable := by
  have hopen : Ref.library 0 ∉ (start oneByOne).world.gone := List.not_mem_nil
  have h₁ : CodeRun (start oneByOne) _ := .single (.opened hopen)
  have h₂ : CodeRun (start oneByOne) _ := h₁.tail (.managed (.closure "first" [] (by simp)))
  exact ⟨oneByOne, h₂.tail (.managed
    (.compile_snd procedure 0 0 (.ok ()) (by decide +kernel) (by decide +kernel)))⟩

/-- The handles are dropped, that of the closure first. Views of the code of the callback and of the
symbol are left, and keep both alive. -/
theorem code_views_enter_dropped : compiledOnce.CodeReachable ∧ ∃ s, CodeRun compiledOnce s ∧
    s.held = [.library 0, .callback 0] ∧ (∃ c, s.world.trampoline? 0 = some c ∧
      s.world.Enters (compiledOnce.world.callbackView 0).address c.signature c.closure) ∧
    s.world.Alive (.library 0) := by
  have hlibrary : compiledOnce.world.isHeld compiledOnce.held (.library 0) = true := by
    decide +kernel
  have hcallback : compiledOnce.world.isHeld (.library 0 :: compiledOnce.held) (.callback 0) =
      true := by decide +kernel
  have hproc : List.Perm (Ref.callback 0 :: .library 0 :: compiledOnce.held)
      ([.proc 0] ++ [.callback 0, .library 0, .library 0, .callback 0]) := by decide
  have h₁ : CodeRun compiledOnce _ := .single (.managed (.clone hlibrary))
  have h₂ : CodeRun compiledOnce _ := h₁.tail (.managed (.clone hcallback))
  have h₃ : CodeRun compiledOnce _ := h₂.tail (.managed (.drop hproc))
  have h₄ : CodeRun compiledOnce _ := h₃.tail (.managed (.drop (List.Perm.refl
    ([Ref.callback 0, .library 0] ++ [.library 0, .callback 0]))))
  obtain ⟨hcode, hsymbol, -⟩ := code_views_enter codeReachable_compiledOnce
  refine ⟨codeReachable_compiledOnce, _, h₄, rfl, ⟨⟨0, CodeMemory.nthCode 0, procedure, 0⟩, ?_⟩, ?_⟩
  · exact hcode _ 0 ⟨0, CodeMemory.nthCode 0, procedure, 0⟩ [] _ rfl h₄ rfl (by decide +kernel)
  · exact (hsymbol _ openSymbol openSymbol.view [] _ (Or.inl rfl) h₄ rfl (by decide +kernel)).1

/-- A closure has been made, and its handle is held. -/
def madeOnce : Holdings := ⟨(start oneByOne).world.withClosure "first" [], [.proc 0]⟩

/-- The function that is made of the closure. -/
def wrapped : Function := ⟨CodeMemory.nthCode 0, procedure, some 0, none⟩

/-- The world in which the function has been made. -/
def withWrapper : World := (makeCallback procedure 0 (.ok ()) madeOnce.world).2

/-- The world in which the function and the closure have been dropped, and another closure has been
compiled. -/
def withReused : World :=
  let given : World :=
    { withWrapper with dropped := withWrapper.dropped ++ [.callback 0, .proc 0] }
  (makeCallback procedure 1 (.ok ()) ((given.collect []).withClosure "second" [])).2

theorem codeRun_withReused :
    CodeRun ⟨withWrapper, wrapped.refs ++ madeOnce.held⟩ ⟨withReused, [.callback 1, .proc 1]⟩ := by
  have h₁ : CodeRun ⟨withWrapper, wrapped.refs ++ madeOnce.held⟩ _ :=
    .single (.managed (.drop (List.Perm.refl ([Ref.callback 0, .proc 0] ++ []))))
  have h₂ : CodeRun ⟨withWrapper, wrapped.refs ++ madeOnce.held⟩ _ :=
    h₁.tail (.managed (.closure "second" [] (by simp)))
  exact h₂.tail (.managed
    (.compile_snd procedure 1 1 (.ok ()) (by decide +kernel) (by decide +kernel)))

theorem trampoline_withReused :
    withReused.trampoline? 1 = some ⟨0, CodeMemory.nthCode 0, procedure, 1⟩ := rfl

/-- The view of a function that has been made of a closure is held all the time. The function and
the closure are dropped, and the address of the view enters the closure that is compiled next. -/
theorem ofClosure_view_reused : madeOnce.CodeReachable ∧
    madeOnce.world.isHeld madeOnce.held (.proc 0) = true ∧
    Function.ofClosure procedure 0 madeOnce.world = (.ok wrapped, withWrapper) ∧
    ∃ s, CodeRun ⟨withWrapper, wrapped.view.refs ++ (wrapped.refs ++ madeOnce.held)⟩ s ∧
      s.Keeps wrapped.view ∧ ¬s.world.Alive (.callback 0) ∧
      s.world.Enters wrapped.view.address procedure 1 := by
  have hmade : madeOnce.CodeReachable :=
    ⟨oneByOne, .single (.managed (.closure "first" [] (by simp)))⟩
  have hsound : withWrapper.Sound (wrapped.refs ++ madeOnce.held) :=
    (hmade.sound.makeCallback (by decide +kernel) (Prod.ext rfl rfl)).1
  have henters := (codeRun_withReused.sound hsound).enters trampoline_withReused
  rw [World.callbackAddress_eq (World.trampoline?_eq_some.mp trampoline_withReused).1] at henters
  have hgone : Ref.callback 0 ∈ withReused.gone := by decide +kernel
  exact ⟨hmade, by decide +kernel, rfl, _, codeRun_withReused, by decide +kernel,
    fun h => h.2 hgone, henters⟩

end Holdings

end ForeignCall
