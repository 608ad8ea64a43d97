import ForeignCall.Proofs.Actions
import ForeignCall.Proofs.Call.Image
import ForeignCall.Proofs.Callback.Run

/-!
# What converting arguments leaves behind

Arguments are converted one after another before native code runs. A string that is passed as memory
gets a zero byte behind it, one that is passed as a string is copied, a closure is compiled. Nothing
else changes (`World.Prepared`): what an argument points at stays as it is while the others are
converted, and code addresses enter what they entered before.
-/

namespace ForeignCall

namespace World

variable {w w' w'' : World}

/-! ## Bound code -/

/-- The code at an address is a slot in use, with a binding. -/
def Bound (w : World) (address : Nat) (b : Binding) : Prop :=
  ∃ used slot, w.pool.Serves used ∧ (slot, b) ∈ used ∧ w.pool.codes[slot]? = some address

theorem Bound.slotAt? {address : Nat} {b : Binding} (h : w.Bound address b) :
    ∃ interface, w.pool.slotAt? address = some ⟨address, some b, interface⟩ := by
  obtain ⟨used, slot, hp, hm, hcode⟩ := h
  obtain ⟨interface, hs⟩ := hp.slotAt? hm
  rw [Pool.codeAt_eq hcode] at hs
  exact ⟨interface, hs⟩

theorem Bound.ne_zero {address : Nat} {b : Binding} (h : w.Bound address b) : address ≠ 0 := by
  obtain ⟨used, slot, hp, -, hcode⟩ := h
  exact Nat.ne_of_gt (hp.toCoded.word (List.mem_of_getElem? hcode)).1

theorem Sound.bound {roots : List Ref} {id : Nat} {c : Callback} (hw : w.Sound roots)
    (h : w.trampoline? id = some c) : w.Bound c.code ⟨c.signature, c.closure⟩ :=
  ⟨_, c.slot, hw.pool, mem_trampolines_of_trampoline? h,
    hw.coded id c (trampoline?_eq_some.mp h).1⟩

/-! ## Compiled closures -/

/-- What holds of closures and callbacks whatever is held: the pool shares its slots out, a closure
is compiled to callbacks of its own, and what is known of these elsewhere agrees with what they
are. -/
structure Tended (w : World) : Prop where
  serves : ∃ used, w.pool.Serves used
  compiled : w.Compiled
  coded : w.Coded
  directed : w.Directed

theorem Tended.congr (h : w.Tended) (hclosures : w'.closures = w.closures)
    (hcallbacks : w'.callbacks = w.callbacks) (hpool : w'.pool = w.pool) : w'.Tended := by
  refine ⟨hpool ▸ h.serves, ?_, ?_, ?_⟩
  · unfold Compiled
    rw [hclosures, hcallbacks]
    exact h.compiled
  · unfold Coded
    rw [hcallbacks, hpool]
    exact h.coded
  · unfold Directed
    rw [key?_congr hcallbacks, hpool]
    exact h.directed

theorem Sound.tended {roots : List Ref} (hw : w.Sound roots) : w.Tended :=
  ⟨⟨_, hw.pool⟩, hw.compiled, hw.coded, hw.directed⟩

/-- The code address of a callback is a word. -/
theorem Tended.wrap_code (h : w.Tended) {id : Nat} {c : Callback}
    (hc : w.callbacks[id]? = some c) : wrap c.code = c.code := by
  obtain ⟨used, hp⟩ := h.serves
  exact Nat.mod_eq_of_lt (hp.toCoded.word (List.mem_of_getElem? (h.coded id c hc))).2

/-! ## Prepared worlds -/

/-- What holds of memory between operations: strings stand where they have been placed, none on the
byte behind another, and blocks are handed out above the null address. -/
structure Placed (w : World) : Prop where
  strings : w.StringsPlaced
  apart : ∀ (id id' : Nat) (s s' : ManagedString), w.strings[id]? = some s →
    w.strings[id']? = some s' →
    s.address + s.length < s'.address ∨ s'.address + s'.length ≤ s.address + s.length
  next : 0 < w.memory.heap.next

/-- What holds of closures and callbacks, too. -/
structure Settled (w : World) : Prop extends Placed w where
  tended : w.Tended

/-- A world in which arguments have been converted: a byte that was handed out is what it was, or it
stands behind a string and is zero. -/
structure Prepared (w w' : World) : Prop where
  next : w.memory.heap.next ≤ w'.memory.heap.next
  lacks : w'.memory.heap.lacks = w.memory.heap.lacks
  bytes : ∀ c < w.memory.heap.next, w'.memory.heap.get c = w.memory.heap.get c ∨
    w'.memory.heap.get c = 0 ∧
      ∃ (id : Nat) (s : ManagedString), w.strings[id]? = some s ∧ c = s.address + s.length
  strings : w'.strings = w.strings
  owners : w'.memory.owners = w.memory.owners
  callbacks : ∀ (id : Nat) (c : Callback), w.callbacks[id]? = some c → w'.callbacks[id]? = some c
  tended : w.Tended → w'.Tended
  bound : ∀ address b, w.Bound address b → w'.Bound address b
  events : w'.events = w.events

theorem Prepared.refl (w : World) : w.Prepared w where
  next := Nat.le_refl _
  lacks := rfl
  bytes := fun _ _ => Or.inl rfl
  strings := rfl
  owners := rfl
  callbacks := fun _ _ h => h
  tended := id
  bound := fun _ _ h => h
  events := rfl

theorem Prepared.trans (h : w.Prepared w') (h' : w'.Prepared w'') : w.Prepared w'' where
  next := Nat.le_trans h.next h'.next
  lacks := h'.lacks.trans h.lacks
  bytes := by
    intro c hc
    rcases h'.bytes c (Nat.lt_of_lt_of_le hc h.next) with he | ⟨hz, id, s, hs, rfl⟩
    · rw [he]
      exact h.bytes c hc
    · rw [h.strings] at hs
      exact Or.inr ⟨hz, id, s, hs, rfl⟩
  strings := h'.strings.trans h.strings
  owners := h'.owners.trans h.owners
  callbacks := fun id c hc => h'.callbacks id c (h.callbacks id c hc)
  tended := fun ht => h'.tended (h.tended ht)
  bound := fun address b hb => h'.bound address b (h.bound address b hb)
  events := h'.events.trans h.events

theorem Settled.prepared (h : w.Settled) (hw : w.Prepared w') : w'.Settled where
  strings := by
    intro id s hs
    rw [hw.strings] at hs
    exact Nat.lt_of_lt_of_le (h.strings id s hs) hw.next
  apart := by
    rw [hw.strings]
    exact h.apart
  next := Nat.lt_of_lt_of_le h.next hw.next
  tended := hw.tended h.tended

theorem Prepared.affords (h : w.Prepared w') {size : Nat} (hs : w.memory.heap.Affords size) :
    w'.memory.heap.Affords size := hs.congr h.lacks

/-- Fresh bytes stay as they are while more is converted: no string stands behind them. -/
theorem Prepared.load_fresh (h : w.Prepared w') (hw : w'.Prepared w'') (hp : w.StringsPlaced)
    {a n : Nat} (ha : w.memory.heap.next ≤ a) (hn : a + n ≤ w'.memory.heap.next) :
    w''.memory.heap.load a n = w'.memory.heap.load a n := by
  refine Heap.load_congr fun c hc hlt => ?_
  rcases hw.bytes c (by omega) with he | ⟨-, id, s, hs, rfl⟩
  · exact he
  · rw [h.strings] at hs
    have := hp id s hs
    omega

/-- Strings have the bytes that they had. -/
theorem Prepared.stringBytes (h : w.Prepared w') (hw : w.Placed) (id : Nat) :
    w'.stringBytes id = w.stringBytes id := by
  unfold World.stringBytes
  rw [h.strings]
  cases hs : w.strings[id]? with
  | none => rfl
  | some s =>
    refine Heap.load_congr fun c hc hlt => ?_
    have hp := hw.strings id s hs
    rcases h.bytes c (by omega) with he | ⟨-, id', s', hs', rfl⟩
    · exact he
    · have := hw.apart id' id s' s hs' hs
      omega

/-- What was readable or writable is so as before. -/
theorem Prepared.check (h : w.Prepared w') (v : View) (offset width : Nat) (mode : Mode) :
    w'.memory.check v offset width mode = w.memory.check v offset width mode := by
  unfold Memory.check Memory.isLive
  rw [h.owners]

theorem Prepared.addressOf (h : w.Prepared w') (value : Value) :
    w'.addressOf value = w.addressOf value := by
  unfold World.addressOf
  rw [h.strings]

/-- Converting arguments leaves what is passed for a value alone: if it is the memory of a struct,
no byte of it is fresh or stands behind a string. -/
def Unaffected (w : World) : Ty → Value → Prop
  | .struct _, .struct s => ∀ c, wrap s.address ≤ c → c < wrap s.address + s.size →
      c < w.memory.heap.next ∧
        ∀ (id : Nat) (str : ManagedString), w.strings[id]? = some str → c ≠ str.address + str.length
  | _, _ => True

/-- The bytes of a struct that is left alone are the same once arguments have been converted. -/
theorem Prepared.readBytes (h : w.Prepared w') {layout : Layout} {s : Instance}
    (hs : w.Unaffected (.struct layout) (.struct s)) :
    w'.memory.readBytes s.view 0 s.size = w.memory.readBytes s.view 0 s.size := by
  unfold Memory.readBytes
  rw [h.check]
  cases hc : w.memory.check s.view 0 s.size .read with
  | error e => rfl
  | ok address =>
    obtain ⟨-, rfl⟩ := Memory.check_eq_ok hc
    refine congrArg Except.ok (Heap.load_congr fun c hle hlt => ?_)
    obtain ⟨hnext, hbehind⟩ := hs c hle hlt
    rcases h.bytes c hnext with he | ⟨-, id, str, hstr, rfl⟩
    · exact he
    · exact absurd rfl (hbehind id str hstr)

/-- An image of a value as it is once arguments have been converted is one of the value before, if
converting leaves it alone. -/
theorem Prepared.image {v : World} (h : w.Prepared v) (hw : w.Placed) {tables : Option Enums}
    {t : Ty} {value x : Value} (ht : w.Unaffected t value)
    (hx : t.Image tables v w' value x) : t.Image tables w w' value x := by
  cases hx with
  | int i => exact .int i
  | symbol h => exact .symbol h
  | float64 h => exact .float64 h
  | float32 h => exact .float32 h
  | bool b => exact .bool b
  | enumeration h hs => exact .enumeration h hs
  | unmapped h hs => exact .unmapped h hs
  | pointer value =>
    rw [h.addressOf]
    exact .pointer value
  | nilString => exact .nilString
  | string hnew hid hb =>
    rw [h.strings] at hnew
    rw [h.stringBytes hw] at hb
    exact .string hnew hid hb
  | struct hsize hs hnew hold hb =>
    rw [h.readBytes ht] at hs
    exact .struct hsize hs (Nat.le_trans h.next hnew) hold hb
  | nilFunction => exact .nilFunction
  | function f => exact .function f
  | code v => exact .code v
  | closure hc hclosure hs => exact .closure hc hclosure hs

/-! ## Strings -/

theorem pinString_eq_ok {id a : Nat} (h : pinString id w = (.ok a, w')) :
    w.Prepared w' ∧ a = w.addressOf (.str id) := by
  unfold pinString at h
  show _ ∧ a = ((w.strings[id]?).map ManagedString.address).getD 0
  cases hs : w.strings[id]? with
  | none =>
    rw [hs] at h
    obtain ⟨ha, rfl⟩ := Prod.mk.inj h
    exact ⟨.refl w, (Except.ok.inj ha).symm⟩
  | some s =>
    rw [hs] at h
    obtain ⟨ha, rfl⟩ := Prod.mk.inj h
    refine ⟨⟨?_, Heap.lacks_store _ _ _, ?_, rfl, rfl, fun _ _ h => h,
      fun h => h.congr rfl rfl rfl, fun _ _ h => h, rfl⟩, (Except.ok.inj ha).symm⟩
    · exact Nat.le_of_eq (Heap.next_store _ _ _).symm
    · -- the byte behind the string is the only one that is written
      intro c _
      show Heap.get (Heap.store _ _ _) c = _ ∨ Heap.get (Heap.store _ _ _) c = 0 ∧ _
      rw [Heap.get_store]
      split
      next hin =>
        rw [List.length_singleton] at hin
        obtain rfl : c = s.address + s.length := by omega
        rw [Nat.sub_self]
        exact Or.inr ⟨rfl, id, s, hs, rfl⟩
      next => exact Or.inl rfl

/-- A copied string is fresh, and a zero byte stands behind it, and nowhere in it. -/
theorem copyString_eq_ok {id a : Nat} (h : copyString id w = (.ok a, w')) :
    w.Prepared w' ∧ a = w.memory.heap.next ∧ 0 ∉ w.stringBytes id ∧
      a + (w.stringBytes id).length + 1 ≤ w'.memory.heap.next ∧
      w'.memory.heap.load a ((w.stringBytes id).length + 1) = w.stringBytes id ++ [0] := by
  obtain ⟨bytes, w₁, hv, h⟩ := Act.bind_eq_ok.mp h
  obtain ⟨rfl, rfl⟩ := Act.view_eq_ok.mp hv
  cases hz : (w.stringBytes id).contains 0 with
  | true =>
    rw [hz] at h
    obtain ⟨_, _, hr, _⟩ := Act.bind_eq_ok.mp h
    exact absurd hr Act.refuse_ne_ok
  | false =>
  rw [hz] at h
  obtain ⟨ha, rfl⟩ := Prod.mk.inj h
  obtain rfl := Except.ok.inj ha
  have hlen : (w.stringBytes id ++ [0]).length = (w.stringBytes id).length + 1 := by simp
  have hnext := w.memory.heap.next_obtain ((w.stringBytes id ++ [0]).length + 1)
  have hstore : ((w.placeBytes (w.stringBytes id ++ [0])).2).memory.heap.next =
      (w.memory.heap.obtain ((w.stringBytes id ++ [0]).length + 1)).2.next := Heap.next_store _ _ _
  refine ⟨⟨?_, Heap.lacks_store _ _ _, ?_, rfl, rfl, fun _ _ h => h,
    fun h => h.congr rfl rfl rfl, fun _ _ h => h, rfl⟩, rfl,
    by simpa using hz, ?_, ?_⟩
  · show _ ≤ ((w.placeBytes (w.stringBytes id ++ [0])).2).memory.heap.next
    omega
  · intro c hc
    exact Or.inl (Heap.get_store_of_outside (Or.inl hc))
  · show w.memory.heap.next + _ + 1 ≤ ((w.placeBytes (w.stringBytes id ++ [0])).2).memory.heap.next
    omega
  · rw [← hlen]
    exact Heap.load_store _ _ _

/-! ## Addresses -/

theorem wrap_toNat_of_lt {i : Int} (h : 0 ≤ i ∧ i < wordLimit) :
    wrap i.toNat = wrap (wordOfInt i) := by
  unfold wordOfInt
  rw [Int.emod_eq_of_lt h.1 h.2]

theorem addressOfInt_eq_ok {i : Int} {a : Nat} (h : Value.addressOfInt i = .ok a) :
    wrap a = wrap (w.addressOf (.int i)) := by
  unfold Value.addressOfInt at h
  split at h
  next hi =>
    obtain rfl := Except.ok.inj h
    exact wrap_toNat_of_lt hi
  next =>
    split at h
    · obtain rfl := Except.ok.inj h
      rfl
    · cases h

theorem answeredAddress_eq_ok {answer : Value} {a : Nat} (h : answer.answeredAddress = .ok a) :
    a = answer.answered := by
  cases answer with
  | nil => exact (Except.ok.inj h).symm
  | pointer v => exact (Except.ok.inj h).symm
  | struct s => exact (Except.ok.inj h).symm
  | _ => cases h

/-- The address of a value that stands for one. -/
theorem toAddress_eq_ok {value : Value} {a : Nat} (h : value.toAddress = .ok a) :
    wrap a = wrap (w.addressOf value) := by
  cases value with
  | nil => rw [← Except.ok.inj h]; rfl
  | int i => exact addressOfInt_eq_ok h
  | pointer v => rw [← Except.ok.inj h]; rfl
  | struct s => rw [← Except.ok.inj h]; rfl
  | function f => rw [← Except.ok.inj h]; rfl
  | object id answer =>
    cases answer with
    | error e => cases h
    | ok answer =>
      rw [answeredAddress_eq_ok (show answer.answeredAddress = .ok a from h)]
      rfl
  | _ => cases h

theorem ensureLive_eq_ok {v : View} {a b : Nat}
    (h : (do ensureLive v; return b) w = ((.ok a : Outcome Nat), w')) : w' = w ∧ a = b := by
  obtain ⟨_, w₁, hl, hp⟩ := Act.bind_eq_ok.mp h
  obtain ⟨-, rfl⟩ := Act.read_eq_ok.mp hl
  obtain ⟨rfl, rfl⟩ := Act.pure_eq_ok.mp hp
  exact ⟨rfl, rfl⟩

theorem answeredArgument_eq_ok {answer : Value} {a : Nat}
    (h : answeredArgument answer w = (.ok a, w')) : w' = w ∧ a = answer.answered := by
  cases answer with
  | nil =>
    obtain ⟨rfl, rfl⟩ := Act.pure_eq_ok.mp h
    exact ⟨rfl, rfl⟩
  | pointer v => exact ensureLive_eq_ok h
  | struct s => exact ensureLive_eq_ok h
  | _ => exact absurd h Act.refuse_ne_ok

/-- A value that is passed as memory is passed by the address that it stands for. -/
theorem pointerArgument_eq_ok {value : Value} {a : Nat}
    (h : pointerArgument value w = (.ok a, w')) :
    w.Prepared w' ∧ wrap a = wrap (w.addressOf value) := by
  cases value with
  | str id =>
    obtain ⟨hw, rfl⟩ := pinString_eq_ok h
    exact ⟨hw, rfl⟩
  | pointer v =>
    obtain ⟨rfl, rfl⟩ := ensureLive_eq_ok h
    exact ⟨.refl _, rfl⟩
  | struct s =>
    obtain ⟨rfl, rfl⟩ := ensureLive_eq_ok h
    exact ⟨.refl _, rfl⟩
  | function f =>
    obtain ⟨rfl, rfl⟩ := Act.pure_eq_ok.mp h
    exact ⟨.refl _, rfl⟩
  | object id answer =>
    obtain ⟨inner, w₁, hc, ha⟩ := Act.bind_eq_ok.mp h
    obtain ⟨rfl, rfl⟩ := Act.ofChecked_eq_ok.mp hc
    obtain ⟨rfl, rfl⟩ := answeredArgument_eq_ok ha
    exact ⟨.refl _, rfl⟩
  | nil =>
    obtain ⟨rfl, rfl⟩ := Act.pure_eq_ok.mp h
    exact ⟨.refl _, rfl⟩
  | int i =>
    obtain ⟨hi, rfl⟩ := Act.ofChecked_eq_ok.mp h
    exact ⟨.refl _, addressOfInt_eq_ok hi⟩
  | _ => exact absurd h Act.refuse_ne_ok

/-! ## Structs -/

/-- A struct that is passed has the size and the alignment of the parameter and may be read, and is
passed where it stands. -/
theorem structArgument_eq_ok {layout : Layout} {value : Value} {passed : Passed}
    (h : structArgument layout value w = (.ok passed, w')) :
    w' = w ∧ ∃ s address, value = .struct s ∧ s.size = layout.size ∧
      s.layout.alignment = layout.alignment ∧
      w.memory.check s.view 0 s.size .read = .ok address ∧ passed = .region address s.size := by
  cases value with
  | struct s =>
    unfold structArgument at h
    dsimp only at h
    split at h
    next hs =>
      obtain ⟨hread, rfl⟩ := Act.read_eq_ok.mp h
      obtain ⟨address, hcheck, rfl⟩ := Checked.map_eq_ok.mp hread
      exact ⟨rfl, s, address, rfl, hs.1, hs.2, hcheck, rfl⟩
    next => exact absurd h Act.refuse_ne_ok
  | _ => exact absurd h Act.refuse_ne_ok

/-! ## Closures -/

/-- A closure that has been given a callback of its own, which the directory has. -/
theorem Tended.keepCompiled (h : w.Tended) {id : Nat} {c : Callback}
    (hc : w.callbacks[id]? = some c) : (w.keepCompiled c.closure id).Tended :=
  ⟨h.serves, h.compiled.keepCompiled hc, h.coded, h.directed⟩

/-- Compiling keeps what holds of closures and callbacks. -/
theorem Tended.bind (h : w.Tended) {s : Signature} {closure slot : Nat} {pool : Pool}
    {prepared : Checked Unit} (hb : w.pool.bind s closure prepared = (.ok slot, pool)) :
    (w.withCallback pool ⟨slot, pool.codeAt slot, s, closure⟩).Tended := by
  obtain ⟨used, hp⟩ := h.serves
  have hserves := hp.bind_ok hb
  exact ⟨⟨_, hserves.register _ _⟩, h.compiled.withCallback _ _,
    h.coded.pushCallback (Pool.codes_bind hb)
      (Pool.getElem?_codes_codeAt (hserves.used_lt (List.mem_cons_self ..))),
    h.directed.pushCallback (Pool.directory_bind hb)⟩

/-- A closure that is passed as code is compiled to a callback of its own. -/
theorem makeCallback_eq_ok {s : Signature} {closure id : Nat} (hw : w.Tended)
    (h : makeCallback s closure (.ok ()) w = (.ok id, w')) :
    w.Prepared w' ∧ ∃ c, w'.callbacks[id]? = some c ∧ c.closure = closure ∧
      c.signature.id = s.id := by
  rcases makeCallback_cases s closure (.ok ()) w with
    ⟨i, hi, hm⟩ | ⟨i, -, hi, hm⟩ | ⟨slot, pool, -, hb, hm⟩ | ⟨f, pool, hb, hm⟩
  · rw [hm] at h
    obtain ⟨ho, rfl⟩ := Prod.mk.inj h
    obtain rfl := Except.ok.inj ho
    obtain ⟨cl, cb, hcl, hmem, hcb, hs⟩ := exists_of_compiled? hi
    obtain ⟨cb', hcb', hc⟩ := hw.compiled closure cl hcl i hmem
    rw [hcb, Option.some.injEq] at hcb'
    exact ⟨.refl _, cb, hcb, hcb' ▸ hc, hs⟩
  · rw [hm] at h
    obtain ⟨ho, rfl⟩ := Prod.mk.inj h
    obtain rfl := Except.ok.inj ho
    obtain ⟨cb, hcb, hk⟩ := key?_eq_some.mp (hw.directed _ (registered?_eq_some hi).1)
    obtain ⟨rfl, hs⟩ := Prod.mk.inj hk
    exact ⟨⟨Nat.le_refl _, rfl, fun _ _ => Or.inl rfl, rfl, rfl, fun _ _ h => h,
      fun h => h.keepCompiled hcb, fun _ _ h => h, rfl⟩, cb, hcb, rfl, hs⟩
  · have hcallbacks : ∀ (i : Nat) (c : Callback), w.callbacks[i]? = some c →
        (w.withCallback pool ⟨slot, pool.codeAt slot, s, closure⟩).callbacks[i]? = some c :=
      fun i c hc => getElem?_callbacks_makeCallback hm hc
    rw [hm] at h
    obtain ⟨ho, rfl⟩ := Prod.mk.inj h
    obtain rfl := Except.ok.inj ho
    refine ⟨⟨Nat.le_refl _, rfl, fun _ _ => Or.inl rfl, rfl, rfl, hcallbacks,
      fun h => h.bind hb, ?_, rfl⟩, ⟨slot, pool.codeAt slot, s, closure⟩,
      by simp [withCallback, World.pushCallback, World.keepCompiled], rfl, rfl⟩
    -- a slot that is in use is not the one that is bound
    rintro address b ⟨used, i, hp, hmem, hcode⟩
    obtain ⟨hlt, he⟩ := List.getElem?_eq_some_iff.mp hcode
    refine ⟨_, i, (hp.bind_ok hb).register _ _, List.mem_cons_of_mem _ hmem, ?_⟩
    rw [← he]
    exact List.prefix_iff_getElem?.mp (Pool.codes_bind hb) i hlt
  · rw [hm] at h
    cases (Prod.mk.inj h).1

end World

end ForeignCall
