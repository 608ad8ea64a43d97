import ForeignCall.Proofs.Call.Conversion

/-!
# Released memory as an argument

A view that is passed to native code must not have been released. Each way in which an argument
brings a view to a parameter is checked by itself: the view alone, the struct over it, by address or
by value, and what an object answers with. A call with such an argument is refused before it enters
anything (`released_refused`), and so is a variadic call.

One way has no check: a view that is passed for a function pointer stands for its address, whether
or not it has been released (`callbackArgument_pointer`, `released_passed`).
-/

namespace ForeignCall

open Abi

/-! ## Arguments that bring released memory -/

/-- The view of memory that a value stands for: its own, or the one that an object answers with. -/
def Value.view? : Value → Option View
  | .pointer v => some v
  | .struct s => some s.view
  | .object _ (.ok (.pointer v)) => some v
  | .object _ (.ok (.struct s)) => some s.view
  | _ => none

/-- The origin of a view has released its region. -/
def World.Released (w : World) (v : View) : Prop :=
  ∃ o, v.origin = some o ∧ w.memory.isLive o = false

/-- A parameter by which native code gets memory: a pointer or lent buffer, a struct, or the address
of a function. -/
def Ty.TakesMemory : Ty → Prop
  | .builtin (.pointer _) => True
  | .struct _ => True
  | .callback _ => True
  | _ => False

/-- An argument that brings released memory to its parameter. -/
def World.Dangles (w : World) (a : Ty × Value) : Prop :=
  a.1.TakesMemory ∧ ∃ v, a.2.view? = some v ∧ w.Released v

/-- A view that is passed as such for a function pointer. -/
def ViewAsCode (a : Ty × Value) : Prop :=
  (∃ g, a.1 = .callback g) ∧ ∃ v, a.2 = .pointer v

variable {w w' : World} {ids : List Nat} {enums : Option Enums}

/-- Converting arguments releases nothing. -/
theorem World.Pinned.released (h : w.Pinned ids w') {v : View} (hv : w.Released v) :
    w'.Released v := by
  obtain ⟨o, ho, hl⟩ := hv
  refine ⟨o, ho, ?_⟩
  cases o with
  | owner id =>
    rw [← hl]
    simp only [Memory.isLive, h.owners]
  | callback id => cases hl
  | library id => cases hl

theorem World.Pinned.dangles (h : w.Pinned ids w') {a : Ty × Value} (ha : w.Dangles a) :
    w'.Dangles a := by
  obtain ⟨ht, v, hv, hr⟩ := ha
  exact ⟨ht, v, hv, h.released hr⟩

/-! ## One argument -/

theorem World.Released.any {v : View} (h : w.Released v) :
    v.origin.any (fun o => !w.memory.isLive o) = true := by
  obtain ⟨o, ho, hl⟩ := h
  simp [ho, hl]

theorem ensureLive_released {v : View} (h : w.Released v) :
    ensureLive v w = (.error (.fault .freed), w) := by
  unfold ensureLive Act.read
  simp only [h.any, if_true]
  rfl

theorem ensureLive_bind_released {v : View} (h : w.Released v) (a : Nat) :
    (do ensureLive v; return a : Act Nat) w = (.error (.fault .freed), w) :=
  Act.bind_error (ensureLive_released h)

/-- A view that has been released is no pointer, by itself, under a struct, or as an answer. -/
theorem pointerArgument_released {value : Value} {v : View} (hv : value.view? = some v)
    (hr : w.Released v) : pointerArgument value w = (.error (.fault .freed), w) := by
  cases value with
  | pointer u =>
    cases hv
    exact ensureLive_bind_released hr _
  | struct s =>
    cases hv
    exact ensureLive_bind_released hr _
  | object id answer =>
    cases answer with
    | error f => cases hv
    | ok inner =>
      cases inner with
      | pointer u =>
        cases hv
        exact ensureLive_bind_released hr _
      | struct s =>
        cases hv
        exact ensureLive_bind_released hr _
      | _ => cases hv
  | _ => cases hv

/-- A struct over a view that has been released is not passed. -/
theorem structArgument_released {layout : Layout} {value : Value} {v : View}
    (hv : value.view? = some v) (hr : w.Released v) :
    ∃ f, structArgument layout value w = (.error (.fault f), w) := by
  cases value with
  | struct s =>
    cases hv
    unfold structArgument
    dsimp only
    split
    · rcases hb : w.memory.check s.view 0 s.size .read with f | address
      · refine ⟨f, ?_⟩
        show (((Passed.region · s.size) <$> w.memory.check s.view 0 s.size .read).outcome, w) = _
        rw [hb]
        rfl
      · have hlive := (Memory.check_eq_ok hb).1.live
        rw [hr.any] at hlive
        cases hlive
    · exact ⟨_, rfl⟩
  | pointer u => exact ⟨_, rfl⟩
  | object id answer => exact ⟨_, rfl⟩
  | _ => cases hv

/-- Only a plain view is taken for a function pointer. -/
theorem callbackArgument_released {g : Signature} {value : Value} {v : View}
    (hv : value.view? = some v) (hp : ∀ u, value ≠ .pointer u) :
    ∃ f, callbackArgument g value w = (.error (.fault f), w) := by
  cases value with
  | pointer u => exact absurd rfl (hp u)
  | struct s => exact ⟨_, rfl⟩
  | object id answer => exact ⟨_, rfl⟩
  | _ => cases hv

/-- A view for a function pointer is its address; nothing asks whether it has been released. -/
theorem callbackArgument_pointer (enums : Option Enums) (g : Signature) (v : View) (w : World) :
    (Ty.callback g).toArgument enums (.pointer v) w = (.ok (.address v.address), w) := rfl

/-- An argument that brings released memory does not convert, unless it is a view for a function
pointer. -/
theorem Ty.toArgument_dangles {t : Ty} {value : Value} (h : w.Dangles (t, value))
    (hp : ¬ViewAsCode (t, value)) : ∃ f, t.toArgument enums value w = (.error (.fault f), w) := by
  obtain ⟨ht, v, hv, hr⟩ := h
  have hmap : ∀ {x : Act Nat} {f : Fault}, x w = (.error (.fault f), w) →
      (Passed.address <$> x) w = (.error (.fault f), w) := fun hx => Act.bind_error hx
  cases t with
  | builtin b =>
    cases b with
    | pointer r => exact ⟨_, hmap (pointerArgument_released hv hr)⟩
    | _ => exact ht.elim
  | struct layout => exact structArgument_released hv hr
  | callback g =>
    have hplain : ∀ u, value ≠ .pointer u := fun u hu => hp ⟨⟨g, rfl⟩, u, hu⟩
    obtain ⟨f, hf⟩ := callbackArgument_released (g := g) (w := w) hv hplain
    exact ⟨f, hmap hf⟩
  | array c n => exact ht.elim
  | charArray n => exact ht.elim
  | enumeration table => exact ht.elim

/-! ## All arguments -/

/-- Of arguments that convert, each one converts in a world in which nothing more is released. -/
theorem exists_toArgument_of_mem {k : Nat} {arguments : List (Ty × Value)}
    {frame : Frame}
    (h : toArgumentsFrom enums k arguments w = (.ok frame, w')) {a : Ty × Value}
    (ha : a ∈ arguments) : ∃ ids w₁ bytes w₂, w.Pinned ids w₁ ∧
      a.1.toArgument enums a.2 w₁ = (.ok bytes, w₂) := by
  induction arguments generalizing k w frame with
  | nil => cases ha
  | cons b rest ih =>
    obtain ⟨bytes, w₁, frame', hb, hrest, -⟩ := toArgumentsFrom_cons_eq_ok.mp h
    rcases List.mem_cons.mp ha with rfl | ha
    · exact ⟨[], w, bytes, w₁, .refl w, hb⟩
    · obtain ⟨ids, w₂, bytes', w₃, hp, hc⟩ := ih hrest ha
      have hfirst := (b.1.pins_toArgument enums b.2).ok _ _ _ hb
      exact ⟨_, w₂, bytes', w₃, (hfirst.mono (List.subset_append_left _ ids)).trans
        (hp.mono (List.subset_append_right _ ids)), hc⟩

/-- Arguments do not convert when one of them brings released memory. -/
theorem toArguments_dangles {arguments : List (Ty × Value)} {a : Ty × Value} (ha : a ∈ arguments)
    (hd : w.Dangles a) (hp : ¬ViewAsCode a) (frame : Frame) :
    toArguments enums arguments w ≠ (.ok frame, w') := by
  intro h
  obtain ⟨ids, w₁, bytes, w₂, hpin, hc⟩ := exists_toArgument_of_mem (k := 0) h ha
  obtain ⟨f, hf⟩ := Ty.toArgument_dangles (hpin.dangles hd) hp
  cases hf.symm.trans hc

/-! ## Calls -/

/-- A call with an argument that brings released memory is refused, unless that is a view for a
function pointer. -/
theorem Signature.refuses_dangles {s : Signature} {arguments values : List Value}
    {block : Option Nat} (hv : s.Binds arguments block values) {a : Ty × Value}
    (ha : a ∈ s.params.zip values) (hd : w.Dangles a) (hp : ¬ViewAsCode a) :
    ∃ f ids w', s.Refuses arguments block w f ids w' := by
  rcases s.refuses_or_converts arguments block w with hr | ⟨values', frame, w', hv', hf⟩
  · exact hr
  · have : values' = values := by
      have h := Signature.bindArguments_eq_ok.mpr hv'
      rw [Signature.bindArguments_eq_ok.mpr hv] at h
      exact (Except.ok.inj h).symm
    subst this
    exact absurd hf (toArguments_dangles ha hd hp frame)

namespace VariadicFunction

variable {f f' : VariadicFunction} {arguments : List Value} {extra : List (TypeSpec × Value)}

/-- A kept signature has the types that it is kept for. -/
def Kept (f : VariadicFunction) : Prop :=
  ∀ types s, ((key? types).bind fun key => f.prepared.lookup key) = some s →
    s.params = f.fixed ++ types

/-- Builtin types are told apart by what signatures are kept under. -/
theorem eq_of_key? {types types' : List Ty} {key : List Kind} (h : key? types = some key)
    (h' : key? types' = some key) : types = types' := by
  have hkey : ∀ {l : List Ty}, key? l = some key →
      (∀ t ∈ l, t.kind.isBuiltin = true) ∧ l.map Ty.kind = key := by
    intro l hl
    unfold key? at hl
    split at hl
    · rename_i hall
      exact ⟨by simpa using hall, Option.some.inj hl⟩
    · cases hl
  have hkind : ∀ {t t' : Ty}, t.kind.isBuiltin = true → t.kind = t'.kind → t = t' := by
    intro t t' ht he
    cases t with
    | builtin b =>
      cases t' with
      | builtin b' => rw [Kind.builtin.inj he]
      | _ => cases he
    | _ => cases ht
  obtain ⟨hb, hm⟩ := hkey h
  obtain ⟨-, hm'⟩ := hkey h'
  rw [← hm'] at hm
  clear h h' hm'
  induction types generalizing types' with
  | nil => exact (List.map_eq_nil_iff.mp hm.symm).symm
  | cons t rest ih =>
    obtain ⟨t', rest', rfl, ht, hrest⟩ := List.map_eq_cons_iff.mp hm.symm
    rw [hkind (hb t List.mem_cons_self) ht.symm,
      ih (fun u hu => hb u (List.mem_cons_of_mem _ hu)) hrest.symm]

theorem kept_of_nil (h : f.prepared = []) : f.Kept := by
  intro types s hs
  rw [h] at hs
  cases hk : key? types <;> rw [hk] at hs <;> cases hs

/-- A function that has just been made has prepared nothing. -/
theorem prepared_make {address : Nat} {ret : TypeSpec} {params : List TypeSpec}
    {o : SignatureOptions} (h : make address ret params o = .ok f) : f.prepared = [] := by
  unfold make at h
  simp only [bind, Except.bind, pure, Except.pure, throw, throwThe, MonadExceptOf.throw] at h
  repeat' split at h
  all_goals cases h
  all_goals rfl

theorem kept_make {address : Nat} {ret : TypeSpec} {params : List TypeSpec} {o : SignatureOptions}
    (h : make address ret params o = .ok f) : f.Kept := kept_of_nil (prepared_make h)

/-- The signature that is prepared for types has them, and it is kept for them only. -/
theorem Kept.signatureFor (h : f.Kept) {types : List Ty} {s : Signature}
    (hs : f.signatureFor types w = (.ok (s, f'), w')) : s.params = f.fixed ++ types ∧ f'.Kept := by
  unfold VariadicFunction.signatureFor at hs
  cases hkept : (key? types).bind fun key => f.prepared.lookup key with
  | some kept =>
    rw [hkept] at hs
    obtain ⟨hp, -⟩ := Act.pure_eq_ok.mp hs
    obtain ⟨rfl, rfl⟩ := Prod.mk.inj hp
    exact ⟨h types _ hkept, h⟩
  | none =>
    rw [hkept] at hs
    obtain ⟨made, w₁, hmade, hs⟩ := Act.bind_eq_ok.mp hs
    have hparams : made.params = f.fixed ++ types := by
      unfold Signature.ofTypes at hmade
      obtain ⟨-, w₂, -, hmade⟩ := Act.bind_eq_ok.mp hmade
      obtain ⟨-, w₃, -, hmade⟩ := Act.bind_eq_ok.mp hmade
      obtain ⟨id, w₄, -, hmade⟩ := Act.bind_eq_ok.mp hmade
      rw [← (Act.pure_eq_ok.mp hmade).1]
    cases hkey : key? types with
    | none =>
      rw [hkey] at hs
      obtain ⟨hp, -⟩ := Act.pure_eq_ok.mp hs
      obtain ⟨rfl, rfl⟩ := Prod.mk.inj hp
      exact ⟨hparams, h⟩
    | some key =>
      rw [hkey] at hs
      obtain ⟨hp, -⟩ := Act.pure_eq_ok.mp hs
      obtain ⟨rfl, rfl⟩ := Prod.mk.inj hp
      refine ⟨hparams, fun types' s' hs' => ?_⟩
      obtain ⟨key', hkey', hl⟩ := Option.bind_eq_some_iff.mp hs'
      by_cases he : key' = key
      · subst he
        rw [List.lookup_cons_self] at hl
        rw [← Option.some.inj hl, hparams, eq_of_key? hkey hkey']
      · simp only [List.lookup_cons, beq_false_of_ne he] at hl
        exact h types' s' (Option.bind_eq_some_iff.mpr ⟨key', hkey', hl⟩)

/-- A call whose arguments convert runs the native code, and leaves the function that has prepared
the signature. -/
theorem call_eq_bind {enter : Enter} {m : Machine} {types : List Ty} {s : Signature} {w₁ w₂ : World}
    {frame : Frame} (hl : arguments.length = f.fixed.length)
    (ht : f.promoteAll extra = .ok types) (hs : f.signatureFor types m.world = (.ok (s, f'), w₁))
    (hf : toArguments s.enums (s.params.zip (arguments ++ extra.map Prod.snd)) w₁ =
      (.ok frame, w₂)) : f.call enter arguments extra m =
        (execute enter s f'.address frame none >>= fun answer => pure (answer, f'))
          ⟨w₂, m.thread, m.parked⟩ := by
  unfold call
  rw [if_neg (not_not.mpr hl), ht]
  exact (Run.act_bind hs).trans (Run.act_bind (m := ⟨_, m.thread, m.parked⟩) hf)

/-- A call keeps signatures for the types that they have. -/
theorem Kept.call (h : f.Kept) {enter : Enter} {answer : Outcome Value} {m m' : Machine}
    (hc : f.call enter arguments extra m = some ((answer, f'), m')) : f'.Kept := by
  rcases f.refuses_or_converts arguments extra m.world with
    ⟨e, f'', ids, w₁, hr⟩ | ⟨s, frame, w₁, hl, types, f'', w₂, ht, hs, hf⟩
  · rw [call_eq_error hr] at hc
    cases hc
    cases hr with
    | arity => exact h
    | declared => exact h
    | signature => exact h
    | argument _ _ hs => exact (h.signatureFor hs).2
  · rw [call_eq_bind hl ht hs hf] at hc
    obtain ⟨r, -, hp⟩ := Option.bind_eq_some_iff.mp hc
    cases hp
    exact (h.signatureFor hs).2

/-- A variadic function that has been made, and called any number of times since. -/
inductive Reachable : VariadicFunction → Prop where
  | make {f : VariadicFunction} {address : Nat} {ret : TypeSpec} {params : List TypeSpec}
      {o : SignatureOptions} (h : make address ret params o = .ok f) : Reachable f
  | call {f f' : VariadicFunction} (h : Reachable f) {enter : Enter} {arguments : List Value}
      {extra : List (TypeSpec × Value)} {answer : Outcome Value} {m m' : Machine}
      (hc : f.call enter arguments extra m = some ((answer, f'), m')) : Reachable f'

theorem Reachable.kept (h : f.Reachable) : f.Kept := by
  induction h with
  | make h => exact kept_make h
  | call h hc ih => exact ih.call hc

/-- A variadic call with an argument that brings released memory is refused, unless that is a view
for a function pointer. -/
theorem Kept.refuses_dangles (h : f.Kept) {types : List Ty} (ht : f.promoteAll extra = .ok types)
    {a : Ty × Value} (ha : a ∈ (f.fixed ++ types).zip (arguments ++ extra.map Prod.snd))
    (hd : w.Dangles a) (hp : ¬ViewAsCode a) :
    ∃ e f' ids w', f.Refuses arguments extra w e f' ids w' := by
  rcases f.refuses_or_converts arguments extra w with
    hr | ⟨s, frame, w', hl, types', f', w₁, ht', hs, hf⟩
  · exact hr
  · obtain rfl := Except.ok.inj (ht.symm.trans ht')
    have hpin := (f.pins_signatureFor types).ok _ _ _ hs
    rw [(h.signatureFor hs).1] at hf
    exact absurd hf (toArguments_dangles ha (hpin.dangles hd) hp frame)

end VariadicFunction

/--
Released memory is not passed to native code, but for one way.

* A call in which a parameter for a pointer, a struct or a function gets a view whose origin has
  released it, or a struct over such a view, or an object that answers with one of them, answers
  with a fault whatever code there is, and leaves the thread as it was: nothing is entered. The
  exception is a view that is passed as such for a function pointer.
* The same holds of the calls of a variadic function, however often it has been called before, for
  their fixed arguments and for further ones.
* A view that is passed for a function pointer converts to its address, released or not.
-/
theorem released_refused (m : Machine) :
    (∀ (s : Signature) (address : Nat) (arguments values : List Value)
        (block interrupt : Option Nat) (a : Ty × Value),
      s.Binds arguments block values → a ∈ s.params.zip values → m.world.Dangles a →
      ¬ViewAsCode a → ∃ e ids w, m.world.Pinned ids w ∧ ∀ enter : Enter,
        enter.call s address arguments block interrupt m =
          some (.error (.fault e), ⟨w, m.thread, m.parked⟩)) ∧
    (∀ (f : VariadicFunction) (arguments : List Value) (extra : List (TypeSpec × Value))
        (types : List Ty) (a : Ty × Value),
      f.Reachable → f.promoteAll extra = .ok types →
      a ∈ (f.fixed ++ types).zip (arguments ++ extra.map Prod.snd) → m.world.Dangles a →
      ¬ViewAsCode a → ∃ e f' ids w, m.world.Pinned ids w ∧ ∀ enter : Enter,
        f.call enter arguments extra m =
          some ((.error (.fault e), f'), ⟨w, m.thread, m.parked⟩)) ∧
    ∀ (enums : Option Enums) (g : Signature) (v : View),
      (Ty.callback g).toArgument enums (.pointer v) m.world =
        (.ok (.address v.address), m.world) := by
  refine ⟨?_, ?_, fun enums g v => callbackArgument_pointer enums g v m.world⟩
  · intro s address arguments values block interrupt a hv ha hd hp
    by_cases hz : address = 0
    · exact ⟨_, [], m.world, .refl _, fun enter => by rw [Enter.call, if_pos hz]; rfl⟩
    · obtain ⟨e, ids, w, hr⟩ := Signature.refuses_dangles hv ha hd hp
      exact ⟨_, ids, w, hr.pinned, fun enter => Enter.call_eq_error hz hr⟩
  · intro f arguments extra types a hk ht ha hd hp
    obtain ⟨e, f', ids, w, hr⟩ := hk.kept.refuses_dangles ht ha hd hp
    exact ⟨e, f', ids, w, hr.pinned, fun enter => VariadicFunction.call_eq_error hr⟩

/-! ## A block that has been released -/

/-- A machine with one block of 8 bytes that has been released. -/
def freed : Machine :=
  { Machine.start with world := { World.start with
    memory := { World.start.memory with owners := #[⟨.allocation, 4096, 8, true, true⟩] } } }

/-- The view of the block. -/
def freedView : View := ⟨4096, 8, 1, .readWrite, false, some (.owner 0)⟩

theorem released_freedView : freed.world.Released freedView := ⟨.owner 0, rfl, rfl⟩

/-- A function that answers with its only argument, an address. -/
def answering : Environment where
  native := fun _ => some ⟨.address, [.address], fun arguments _ => .finish (arguments.headD [])⟩
  body := fun _ _ => .finish (.ok .nil)

/-- A function of one pointer. -/
def pointerToPointer : Signature :=
  ⟨0, .builtin (.pointer .plain), [.builtin (.pointer .plain)], none, .default, none, false, false⟩

/-- A variadic function without fixed parameters. -/
def variadicToPointer : VariadicFunction :=
  ⟨16, .builtin (.pointer .plain), [], ⟨.default, none, .empty, false, false⟩, []⟩

theorem reachable_variadicToPointer : variadicToPointer.Reachable := by
  have h : VariadicFunction.make 16 (.descriptor (.ofBuiltin (.pointer .plain))) []
      variadicToPointer.options = .ok variadicToPointer := rfl
  exact .make h

/-- The view is refused for a pointer when an object answers with it, and as a further argument. -/
theorem released_refused_freed :
    (∃ e n, (answering.enterWithin 1).call pointerToPointer 16
        [.object 0 (.ok (.pointer freedView))] none none freed = some (.error (.fault e), n)) ∧
    ∃ e f n, variadicToPointer.call (answering.enterWithin 1) []
        [(.descriptor (.ofBuiltin (.pointer .plain)), .pointer freedView)] freed =
      some ((.error (.fault e), f), n) := by
  obtain ⟨hcall, hvariadic, -⟩ := released_refused freed
  constructor
  · obtain ⟨e, ids, w, -, h⟩ := hcall pointerToPointer 16 [.object 0 (.ok (.pointer freedView))] _
      none none (.builtin (.pointer .plain), .object 0 (.ok (.pointer freedView)))
      (.whole rfl) List.mem_cons_self ⟨trivial, freedView, rfl, released_freedView⟩
      fun h => nomatch h.1
    exact ⟨e, _, h _⟩
  · obtain ⟨e, f', ids, w, -, h⟩ := hvariadic variadicToPointer []
      [(.descriptor (.ofBuiltin (.pointer .plain)), .pointer freedView)]
      [.builtin (.pointer .plain)] (.builtin (.pointer .plain), .pointer freedView)
      reachable_variadicToPointer rfl List.mem_cons_self
      ⟨trivial, freedView, rfl, released_freedView⟩ fun h => nomatch h.1
    exact ⟨e, f', _, h _⟩

/-- A function of one function pointer. -/
def codeToPointer : Signature :=
  ⟨1, .builtin (.pointer .plain), [.callback pointerToPointer], none, .default, none, false, false⟩

/-- For a function pointer the view is passed, and native code has the address of the block. -/
theorem released_passed : ∃ n : Machine, codeToPointer.params = [.callback pointerToPointer] ∧
    freed.world.Dangles (.callback pointerToPointer, .pointer freedView) ∧
    (answering.enterWithin 1).call codeToPointer 16 [.pointer freedView] none none freed =
      some (.ok (.pointer (.pointer 4096)), n) := by
  have hcall : ((answering.enterWithin 1).call codeToPointer 16 [.pointer freedView] none none
      freed).map Prod.fst = some (.ok (.pointer (.pointer
        (Bytes.toNat (Bytes.fit addressSize (addressBytes 4096)))))) := rfl
  have haddress : Bytes.toNat (Bytes.fit addressSize (addressBytes 4096)) = 4096 := by decide
  rw [haddress] at hcall
  obtain ⟨⟨answer, n⟩, hn, rfl⟩ := Option.map_eq_some_iff.mp hcall
  exact ⟨n, rfl, ⟨trivial, freedView, rfl, released_freedView⟩, hn⟩

end ForeignCall
