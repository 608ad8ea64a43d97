import ForeignCall.Proofs.Memory.CStrings
import ForeignCall.Proofs.Struct.Reading
import ForeignCall.Proofs.Struct.Steady

/-!
# Writing fields

What a field of a plain type shows after a value has been put there (`Ty.stored`), in terms of the
order in which the scalars of the value are written. A scalar is written in the order of its view.
The items of an array are written in a scratch buffer, in the host's order, and a struct is copied
byte for byte, in the order of the view it comes from.

Main statement: `Ty.Built.putField_stores`.
-/

namespace ForeignCall

/-! ## What a put leaves -/

/-- The byte of a character. -/
def Value.charByte : Value → UInt8
  | .int i => UInt8.ofNat (IntKind.toBits ⟨true, .w8⟩ i)
  | _ => 0

/-- The structs in a value. -/
def Value.structs : Value → List Instance
  | .struct s => [s]
  | .array items => items.flatMap Value.structs
  | _ => []

theorem Value.structs_subset {items : List Value} {x : Value} (hx : x ∈ items) :
    x.structs ⊆ (Value.array items).structs := by
  intro s hs
  rw [structs]
  exact List.mem_flatMap.mpr ⟨x, hx, hs⟩

/--
What a field of a type shows, read in one order, after a value has been put there with its scalars
written in another. The field was at `a` of `h` before, and the strings and structs of the value are
those of `w`. In an array the items that are not given stay as they were.
-/
def Ty.stored (shown written : Bool) (w : World) (h : Heap) (a : Nat) (value : Value) : Ty → Content
  | .builtin (.int k) =>
    match value.toInt k with
    | .ok i => .int (k.ofBits (decodeIn shown (encodeIn written k.bytes (k.toBits i))))
    | .error _ => .other
  | .builtin .bool =>
    match value with
    | .bool b => .bool b
    | _ => .other
  | .builtin _ => .other
  | .enumeration table =>
    match value.toEnum (some table) none with
    | .ok i => table.shown (IntKind.int32.ofBits
        (decodeIn shown (encodeIn written 4 (IntKind.int32.toBits i))))
    | .error _ => .other
  | .charArray n =>
    match value with
    | .str id => .text (Memory.untilNul (w.stringBytes id))
    | .array items =>
      .text (Memory.untilNul (items.map Value.charByte ++ (h.load a n).drop items.length))
    | _ => .other
  | .array c n =>
    match value with
    | .array items => .array ((List.range n).map fun i =>
        match items[i]? with
        | some x => c.stored shown false w h (a + i * c.size) x
        | none => c.content shown h (a + i * c.size))
    | _ => .other
  | .struct l =>
    match value with
    | .struct s => (Ty.struct l).content shown w.memory.heap s.address
    | _ => .other
  | .callback _ => .other

/-- What is stored depends on nothing of the memory before but the bytes of the field. -/
theorem Ty.Built.stored_congr {t : Ty} (ht : t.Built) {shown written : Bool} {w : World}
    {h h' : Heap} {a a' : Nat} (hb : ∀ i < t.size, h.get (a + i) = h'.get (a' + i))
    (value : Value) :
    t.stored shown written w h a value = t.stored shown written w h' a' value := by
  induction ht generalizing a a' written value with
  | builtin b => cases b <;> rfl
  | @array c n hc ih =>
    unfold stored
    cases value with
    | array items =>
      dsimp only
      rw [Content.array.injEq]
      refine List.map_congr_left fun i hi => ?_
      have hs : i * c.size + c.size ≤ c.size * n := element_le (List.mem_range.mp hi)
      have hi : ∀ j < c.size, h.get (a + i * c.size + j) = h'.get (a' + i * c.size + j) := by
        intro j hj
        rw [Nat.add_assoc, Nat.add_assoc]
        exact hb _ (Nat.lt_of_lt_of_le (by omega) hs)
      cases items[i]? with
      | some x => exact ih hi x
      | none => exact hc.content_congr hi
    | _ => rfl
  | charArray n =>
    have hl : h.load a n = h'.load a' n := Heap.load_shift hb
    unfold stored
    rw [hl]
  | enumeration _ => rfl
  | callback s => rfl
  | struct _ _ _ => rfl

/-! ## Single writes -/

/-- Old bytes outside a place are as they were. -/
def World.Changes (w w' : World) (a n : Nat) : Prop :=
  ∀ c < w.memory.heap.next, c < a ∨ a + n ≤ c → w'.memory.heap.get c = w.memory.heap.get c

namespace View

variable {v : View} {offset : Nat} {w w' : World}

/-- An integer is written in the order of the view. -/
theorem writeInt_stores {k : IntKind} {i : Int} (hword : v.address + offset + k.bytes ≤ wordLimit)
    (h : Act.write (fun m => m.writeInt v offset k i) w = (.ok (), w')) :
    w.Changes w' (v.address + offset) k.bytes ∧
      w'.memory.heap.load (v.address + offset) k.bytes =
        encodeIn v.swapped k.bytes (k.toBits i) := by
  obtain ⟨m, hm, rfl⟩ := Act.write_eq_ok.mp h
  have hlen : (encodeIn v.swapped k.bytes (k.toBits i)).length = k.bytes := length_encodeIn ..
  have he : m =
      { w.memory with
        heap := w.memory.heap.store (v.address + offset)
          (encodeIn v.swapped k.bytes (k.toBits i)) } :=
    Memory.writeBytes_store hm (by rw [hlen]; exact hword)
  subst he
  constructor
  · intro c _ hc
    exact Heap.get_store_of_outside (by rw [hlen]; exact hc)
  · have hl := w.memory.heap.load_store (v.address + offset)
      (encodeIn v.swapped k.bytes (k.toBits i))
    rw [hlen] at hl
    exact hl

theorem slice_eq_ok {size : Nat} {field : View} (h : v.slice offset size = .ok field) :
    field = v.derive (v.address + offset) size ∧ v.address + offset < wordLimit := by
  unfold slice at h
  split at h
  · cases ha : addWords v.address offset with
    | none => rw [ha] at h; cases h
    | some address =>
      rw [ha] at h
      obtain ⟨rfl, hw⟩ := addWords_eq_some.mp ha
      exact ⟨(Except.ok.inj h).symm, hw⟩
  · cases h

end View

/-! ## Staging -/

/-- A scratch buffer with the bytes of a field: it is fresh, and in the host's order. -/
structure Staging (w w₁ : World) (staged : View) (a size : Nat) : Prop where
  swapped : staged.swapped = false
  length : staged.size = size
  word : staged.address + size ≤ wordLimit
  fresh : ∀ c, staged.address ≤ c → c < staged.address + size →
    w.memory.heap.next ≤ c ∧ c < w₁.memory.heap.next
  old : w.Undisturbed w₁
  bytes : ∀ i < size, w₁.memory.heap.get (staged.address + i) = w.memory.heap.get (a + i)

variable {w w' : World} {v : View} {offset size : Nat}

theorem stage_eq_ok {w₁ : World} {staged : View} (h : stage v offset size w = (.ok staged, w₁))
    (hword : v.address + offset + size ≤ wordLimit) (hn : w₁.memory.heap.next ≤ wordLimit) :
    Staging w w₁ staged (v.address + offset) size := by
  have hsteady := (steady_stage v offset size).of_eq h
  obtain ⟨buffer, wa, ha, h⟩ := Act.bind_eq_ok.mp h
  obtain ⟨m, hm, rfl⟩ := Act.make_eq_ok.mp ha
  obtain ⟨field, wb, hb, h⟩ := Act.bind_eq_ok.mp h
  obtain ⟨hfield, rfl⟩ := Act.ofOutcome_eq_ok.mp hb
  obtain ⟨⟨⟩, wc, hc, h⟩ := Act.bind_eq_ok.mp h
  obtain ⟨m', hm', rfl⟩ := Act.write_eq_ok.mp hc
  obtain ⟨rfl, rfl⟩ := Act.pure_eq_ok.mp h
  obtain ⟨rfl, -⟩ := View.slice_eq_ok hfield
  obtain ⟨hsize, hswapped, hnext, hget, -, hfresh, hbuffer⟩ :=
    Memory.allocateBuffer_eq_ok (Checked.outcome_eq_ok.mp hm)
  have hsame := (Memory.same_copy hm').1
  have hb : buffer.address + size ≤ wordLimit := hbuffer (hsame ▸ hn)
  have he := Memory.copy_store hm' hb hword
  have hlen : (m.heap.load (v.address + offset) size).length = size := Heap.length_load ..
  subst he
  refine ⟨hswapped, hsize, hb, fun c h1 h2 => ?_, ⟨hsteady, fun c hc => ?_⟩, fun i hi => ?_⟩
  · obtain ⟨h3, h4⟩ := hfresh c h1 h2
    exact ⟨h3, Nat.lt_of_lt_of_eq h4 hsame.symm⟩
  · refine (Heap.get_store_of_outside ?_).trans (hget c)
    rw [View.derive, hlen, Nat.add_zero]
    by_cases hin : buffer.address ≤ c ∧ c < buffer.address + size
    · exact absurd (hfresh c hin.1 hin.2).1 (Nat.not_le.mpr hc)
    · omega
  · show (m.heap.store (buffer.address + 0) (m.heap.load (v.address + offset) size)).get
      (buffer.address + i) = _
    rw [Nat.add_zero, Heap.get_store_load _ _ _ _ hi, hget]

/-- An array is put by filling a staged copy and copying it back. -/
theorem putStaged_eq_ok {fill : View → Act Unit} (hf : ∀ staged, (fill staged).Rises)
    (h : putStaged v offset size fill w = (.ok (), w'))
    (hword : v.address + offset + size ≤ wordLimit) (hn : w'.memory.heap.next ≤ wordLimit) :
    ∃ staged w₁ w₂, stage v offset size w = (.ok staged, w₁) ∧
      Staging w w₁ staged (v.address + offset) size ∧ fill staged w₁ = (.ok (), w₂) ∧
      Act.write (fun m => m.copy v offset staged size) w₂ = (.ok (), w') ∧
      w₂.memory.heap.next ≤ wordLimit ∧
      (∀ i < size, w'.memory.heap.get (v.address + offset + i) =
        w₂.memory.heap.get (staged.address + i)) ∧
      ∀ c, c < v.address + offset ∨ v.address + offset + size ≤ c →
        w'.memory.heap.get c = w₂.memory.heap.get c := by
  obtain ⟨staged, w₁, hstage, hrest⟩ := Act.bind_eq_ok.mp h
  obtain ⟨⟨⟩, w₂, hfill, hback⟩ := Act.bind_eq_ok.mp hrest
  obtain ⟨m, hm, rfl⟩ := Act.write_eq_ok.mp hback
  have hn₂ : w₂.memory.heap.next ≤ wordLimit := (Memory.same_copy hm).1 ▸ hn
  have hn₁ := Nat.le_trans ((hf staged).of_eq hfill) hn₂
  have hs := stage_eq_ok hstage hword hn₁
  have hlen : (w₂.memory.heap.load staged.address size).length = size := Heap.length_load ..
  have he := Memory.copy_store hm hword hs.word
  subst he
  exact ⟨staged, w₁, w₂, hstage, hs, hfill, hback, hn₂, fun i hi => Heap.get_store_load _ _ _ _ hi,
    fun c hc => Heap.get_store_of_outside (by rw [hlen]; exact hc)⟩

/-! ## Filling an array -/

/-- What is said of a put of a value in a field of a type at `a`, of which scalars are written in
an order; the strings and structs of the value are those of a world before. -/
def Ty.Stores (t : Ty) (written : Bool) (w₀ : World) (a : Nat) (value : Value) (w w' : World) :
    Prop :=
  w.Changes w' a t.size ∧
    ∀ shown, t.content shown w'.memory.heap a = t.stored shown written w₀ w.memory.heap a value

/--
Items written one after another, in a block that is handed out and fresh to the world that the items
come from. The items behind them stay as they are.
-/
theorem forM_stores {c : Ty} (hc : c.Built) {put : Nat → Value → Act Unit}
    (hsteady : ∀ i x, (put i x).Steady) {w₀ : World} {b n : Nat} (items : List Value)
    (hput : ∀ i < n, ∀ x ∈ items, ∀ w w' : World, w₀.Undisturbed w →
      w'.memory.heap.next ≤ wordLimit → put i x w = (.ok (), w') →
      c.Stores false w₀ (b + i * c.size) x w w')
    {k : Nat} (hk : k + items.length ≤ n) {w w' : World} (hw : w₀.Undisturbed w)
    (hfresh : ∀ x, b ≤ x → x < b + n * c.size → w₀.memory.heap.next ≤ x ∧ x < w.memory.heap.next)
    (h : ((items.zipIdx k).forM fun (x, i) => put i x) w = (.ok (), w'))
    (hn : w'.memory.heap.next ≤ wordLimit) :
    (∀ x < w.memory.heap.next, x < b + k * c.size ∨ b + (k + items.length) * c.size ≤ x →
      w'.memory.heap.get x = w.memory.heap.get x) ∧
    ∀ (i : Nat) (x : Value), items[i]? = some x → ∀ shown,
      c.content shown w'.memory.heap (b + (k + i) * c.size) =
        c.stored shown false w₀ w.memory.heap (b + (k + i) * c.size) x := by
  induction items generalizing k w with
  | nil =>
    obtain ⟨-, rfl⟩ := Act.pure_eq_ok.mp h
    exact ⟨fun _ _ _ => rfl, fun i x hx => by simp at hx⟩
  | cons item rest ih =>
    rw [List.length_cons] at hk
    obtain ⟨⟨⟩, w₁, h₁, h₂⟩ := Act.bind_eq_ok.mp h
    have hs₁ := (hsteady k item).of_eq h₁
    have hs₂ := (Act.steady_forM (l := rest.zipIdx (k + 1))
      fun a => hsteady a.2 a.1).of_eq h₂
    have hn₁ := Nat.le_trans hs₂.next hn
    have hmul : (k + 1) * c.size = k * c.size + c.size := by rw [Nat.add_mul, Nat.one_mul]
    have hle : (k + 1) * c.size ≤ n * c.size := Nat.mul_le_mul_right _ (by omega)
    obtain ⟨hb₁, hc₁⟩ := hput k (by omega) item List.mem_cons_self w w₁ hw hn₁ h₁
    -- the block is fresh, so the items still come from a world that is as it was
    have hw₁ : w₀.Undisturbed w₁ := by
      refine ⟨hw.toSteady.trans hs₁, fun x hx => ?_⟩
      by_cases hin : b ≤ x ∧ x < b + n * c.size
      · exact absurd (hfresh x hin.1 hin.2).1 (Nat.not_le.mpr hx)
      · rw [hb₁ x (Nat.lt_of_lt_of_le hx hw.next) (by omega), hw.bytes x hx]
    obtain ⟨hb₂, hc₂⟩ :=
      ih (fun i hi x hx => hput i hi x (List.mem_cons_of_mem _ hx)) (by omega) hw₁
      (fun x h1 h2 => ⟨(hfresh x h1 h2).1, Nat.lt_of_lt_of_le (hfresh x h1 h2).2 hs₁.next⟩) h₂
    constructor
    · intro x hx hout
      have hlen : (k + (rest.length + 1)) * c.size = (k + 1 + rest.length) * c.size := by
        rw [Nat.add_right_comm, Nat.add_assoc]
      have hmore : (k + 1) * c.size ≤ (k + 1 + rest.length) * c.size :=
        Nat.mul_le_mul_right _ (by omega)
      rw [List.length_cons, hlen] at hout
      rw [hb₂ x (Nat.lt_of_lt_of_le hx hs₁.next) (by omega), hb₁ x hx (by omega)]
    · intro i x hx shown
      cases i with
      | zero =>
        obtain rfl := Option.some.inj hx
        rw [Nat.add_zero, ← hc₁ shown]
        refine hc.content_congr fun j hj => hb₂ _ ?_ (Or.inl (by omega))
        exact Nat.lt_of_lt_of_le (hfresh _ (by omega) (by omega)).2 hs₁.next
      | succ i =>
        rw [List.getElem?_cons_succ] at hx
        have hi : i < rest.length := (List.getElem?_eq_some_iff.mp hx).1
        have hlow : (k + 1) * c.size ≤ (k + 1 + i) * c.size := Nat.mul_le_mul_right _ (by omega)
        have hhigh : (k + 1 + i + 1) * c.size ≤ n * c.size := Nat.mul_le_mul_right _ (by omega)
        rw [Nat.add_mul (k + 1 + i), Nat.one_mul] at hhigh
        rw [← Nat.add_assoc, Nat.add_right_comm, hc₂ i x hx shown]
        refine hc.stored_congr (fun j hj => hb₁ _ ?_ (Or.inr (by omega))) x
        exact (hfresh _ (by omega) (by omega)).2

/-- Filling a staged array. -/
theorem Staging.forM_stores {c : Ty} {n a : Nat} {staged : View} {w₀ w₁ w₂ : World}
    (hst : Staging w w₁ staged a (c.size * n)) (hc : c.Built) {put : Nat → Value → Act Unit}
    (hsteady : ∀ i x, (put i x).Steady) (hw : w₀.Undisturbed w) (items : List Value)
    (hput : ∀ i < n, ∀ x ∈ items, ∀ w w' : World, w₀.Undisturbed w →
      w'.memory.heap.next ≤ wordLimit → put i x w = (.ok (), w') →
      c.Stores false w₀ (staged.address + i * c.size) x w w')
    (hlen : items.length ≤ n) (h : (items.zipIdx.forM fun (x, i) => put i x) w₁ = (.ok (), w₂))
    (hn : w₂.memory.heap.next ≤ wordLimit) :
    (∀ x < w.memory.heap.next, w₂.memory.heap.get x = w.memory.heap.get x) ∧
    ∀ i < n, ∀ shown, c.content shown w₂.memory.heap (staged.address + i * c.size) =
      match items[i]? with
      | some x => c.stored shown false w₀ w.memory.heap (a + i * c.size) x
      | none => c.content shown w.memory.heap (a + i * c.size) := by
  have hfresh : ∀ x, staged.address ≤ x → x < staged.address + n * c.size →
      w.memory.heap.next ≤ x ∧ x < w₁.memory.heap.next := by
    rw [Nat.mul_comm n]
    exact hst.fresh
  have hw₁ : w₀.Undisturbed w₁ := hw.trans hst.old
  obtain ⟨hb, hitems⟩ := ForeignCall.forM_stores hc hsteady items hput (k := 0) (by omega) hw₁
    (fun x h1 h2 => ⟨Nat.le_trans hw.next (hfresh x h1 h2).1, (hfresh x h1 h2).2⟩) h hn
  rw [Nat.zero_mul, Nat.add_zero, Nat.zero_add] at hb
  constructor
  · intro x hx
    have hx₁ := Nat.lt_of_lt_of_le hx hst.old.next
    have hmul : items.length * c.size ≤ n * c.size := Nat.mul_le_mul_right _ hlen
    rw [← hst.old.bytes x hx]
    refine hb x hx₁ ?_
    by_cases hin : staged.address ≤ x ∧ x < staged.address + n * c.size
    · exact absurd (hfresh x hin.1 hin.2).1 (Nat.not_le.mpr hx)
    · omega
  · intro i hi shown
    have hmul : i * c.size + c.size ≤ c.size * n := element_le hi
    rw [Nat.mul_comm c.size] at hmul
    have hbytes : ∀ j < c.size, w₁.memory.heap.get (staged.address + i * c.size + j) =
        w.memory.heap.get (a + i * c.size + j) := by
      intro j hj
      rw [Nat.add_assoc, Nat.add_assoc]
      exact hst.bytes _ (by rw [Nat.mul_comm c.size]; omega)
    cases hx : items[i]? with
    | some x =>
      have hs := hitems i x hx shown
      rw [Nat.zero_add] at hs
      rw [hs]
      exact hc.stored_congr hbytes x
    | none =>
      have hi' : items.length * c.size ≤ i * c.size :=
        Nat.mul_le_mul_right _ (List.getElem?_eq_none_iff.mp hx)
      refine hc.content_congr fun j hj => ?_
      rw [← hbytes j hj]
      exact hb _ (hfresh _ (by omega) (by omega)).2 (Or.inr (by omega))

/-! ## Characters -/

theorem untilNul_append_zeros (bytes : List UInt8) (n : Nat) :
    Memory.untilNul (bytes ++ List.replicate n 0) = Memory.untilNul bytes := by
  cases n with
  | zero => rw [List.replicate_zero, List.append_nil]
  | succ n => exact untilNul_append_zero bytes _

/-- A string is put in a character array over zero bytes. -/
theorem Staging.putChars_stores {a n id : Nat} {staged : View} {w₁ w₂ : World}
    (hst : Staging w w₁ staged a n) (h : putChars staged n id w₁ = (.ok (), w₂)) :
    (∀ x < w.memory.heap.next, w₂.memory.heap.get x = w.memory.heap.get x) ∧
    Memory.untilNul (w₂.memory.heap.load staged.address n) =
      Memory.untilNul (w₁.stringBytes id) := by
  obtain ⟨bytes, wa, hbytes, h⟩ := Act.bind_eq_ok.mp h
  obtain ⟨rfl, rfl⟩ := Act.view_eq_ok.mp hbytes
  by_cases hl : n < (w₁.stringBytes id).length
  · rw [if_pos hl] at h
    obtain ⟨u, wb, hr, -⟩ := Act.bind_eq_ok.mp h
    exact absurd hr Act.refuse_ne_ok
  rw [if_neg hl] at h
  obtain ⟨⟨⟩, wb, hclear, hwrite⟩ := Act.bind_eq_ok.mp h
  obtain ⟨m, hm, rfl⟩ := Act.write_eq_ok.mp hclear
  obtain ⟨m', hm', rfl⟩ := Act.write_eq_ok.mp hwrite
  generalize hb : w₁.stringBytes id = bytes at *
  have hword := hst.word
  have he := Memory.clear_eq_ok hm (by rw [hst.length]; exact hword)
  rw [hst.length] at he
  subst he
  have he := Memory.writeBytes_store hm' (by omega)
  subst he
  have hzeros : (List.replicate n (0 : UInt8)).length = n := List.length_replicate
  constructor
  · intro x hx
    have hout : x < staged.address ∨ staged.address + n ≤ x := by
      by_cases hin : staged.address ≤ x ∧ x < staged.address + n
      · exact absurd (hst.fresh x hin.1 hin.2).1 (Nat.not_le.mpr hx)
      · omega
    refine (Heap.get_store_of_outside (by omega)).trans ?_
    exact (Heap.get_store_of_outside (by rw [hzeros]; exact hout)).trans (hst.old.bytes x hx)
  · have hsplit : n = bytes.length + (n - bytes.length) := by omega
    have hrest : (w₁.memory.heap.store staged.address (List.replicate n 0)).load
        (staged.address + bytes.length) (n - bytes.length) =
          List.replicate (n - bytes.length) 0 := by
      refine List.eq_replicate_iff.mpr ⟨Heap.length_load .., fun b hb => ?_⟩
      obtain ⟨i, hi⟩ := List.mem_iff_getElem?.mp hb
      have hlt : i < n - bytes.length := by
        have := (List.getElem?_eq_some_iff.mp hi).1
        rwa [Heap.length_load] at this
      rw [Heap.getElem?_load _ _ _ _ hlt, Option.some.injEq, Heap.get_store, hzeros,
        if_pos (by omega)] at hi
      rw [← hi, List.getD_eq_getElem?_getD, List.getElem?_replicate]
      split <;> rfl
    show Memory.untilNul (((w₁.memory.heap.store staged.address (List.replicate n 0)).store
      (staged.address + 0) bytes).load staged.address n) = _
    rw [Nat.add_zero, hsplit, Heap.load_add, Heap.load_store,
      Heap.load_store_of_disjoint (Or.inr (Nat.le_refl _)), ← hsplit, hrest, untilNul_append_zeros]

theorem content_char (h : Heap) (a : Nat) :
    Ty.char.content false h a = .int (IntKind.ofBits ⟨true, .w8⟩ (h.get a).toNat) := by
  simp [Ty.char, Ty.content, decodeIn, IntKind.bytes, Width.bytes, Heap.load, Bytes.toNat]

theorem ofBits_char_injective {x y : Nat} (hx : x < 256) (hy : y < 256)
    (h : IntKind.ofBits ⟨true, .w8⟩ x = IntKind.ofBits ⟨true, .w8⟩ y) : x = y := by
  simp only [IntKind.ofBits, IntKind.modulus, Width.modulus, true_and] at h
  split at h <;> split at h <;> omega

/-- The byte of a character that has been written. -/
theorem get_of_stored_char {h h' : Heap} {a a' : Nat} {x : Value} {w₀ : World}
    (hc : Ty.char.content false h a = Ty.char.stored false false w₀ h' a' x) :
    h.get a = x.charByte := by
  rw [content_char, Ty.char, Ty.stored] at hc
  cases hx : x.toInt ⟨true, .w8⟩ with
  | error e =>
    rw [hx] at hc
    cases hc
  | ok i =>
    have hb : decodeIn false (encodeIn false 1 (IntKind.toBits ⟨true, .w8⟩ i)) =
        IntKind.toBits ⟨true, .w8⟩ i % 256 := decodeIn_encodeIn ..
    rw [hx] at hc
    have hbits := Content.int.inj hc
    change _ = IntKind.ofBits _
      (decodeIn false (encodeIn false 1 (IntKind.toBits ⟨true, .w8⟩ i))) at hbits
    rw [hb] at hbits
    have hm := ofBits_char_injective (h.get a).toNat_lt (Nat.mod_lt _ (by decide)) hbits
    obtain ⟨rfl, -⟩ := Value.toInt_eq_ok hx
    refine UInt8.toNat_inj.mp ?_
    rw [hm, Value.charByte, UInt8.toNat_ofNat']

/-- The byte of a character that has stayed. -/
theorem get_of_content_char {h h' : Heap} {a a' : Nat}
    (hc : Ty.char.content false h a = Ty.char.content false h' a') : h.get a = h'.get a' := by
  rw [content_char, content_char] at hc
  exact UInt8.toNat_inj.mp (ofBits_char_injective (h.get a).toNat_lt (h'.get a').toNat_lt
    (Content.int.inj hc))

/-! ## Putting a value -/

theorem View.put_int_stores {k : IntKind} {value : Value} {w₀ : World}
    (hword : v.address + offset + k.bytes ≤ wordLimit)
    (h : v.put (.builtin (.int k)) offset value w = (.ok (), w')) :
    (Ty.builtin (.int k)).Stores v.swapped w₀ (v.address + offset) value w w' := by
  obtain ⟨i, w₁, hint, hwrite⟩ := Act.bind_eq_ok.mp h
  obtain ⟨hi, rfl⟩ := Act.ofChecked_eq_ok.mp hint
  obtain ⟨hc, hl⟩ := View.writeInt_stores hword hwrite
  refine ⟨hc, fun shown => ?_⟩
  rw [Ty.content, hl, Ty.stored, hi]

theorem putItems_eq_ok {length : Nat} {putItem : Nat → Value → Act Unit} {value : Value}
    (h : putItems length putItem value w = (.ok (), w')) :
    ∃ items, value = .array items ∧ items.length ≤ length ∧
      (items.zipIdx.forM fun (x, i) => putItem i x) w = (.ok (), w') := by
  cases value with
  | array items =>
    unfold putItems at h
    dsimp only at h
    by_cases hl : length < items.length
    · rw [if_pos hl] at h
      obtain ⟨a, w₁, hr, -⟩ := Act.bind_eq_ok.mp h
      exact absurd hr Act.refuse_ne_ok
    · rw [if_neg hl] at h
      exact ⟨items, rfl, Nat.le_of_not_lt hl, h⟩
  | _ => exact absurd h Act.refuse_ne_ok

theorem putStruct_eq_ok {layout : Layout} {value : Value}
    (h : putStruct v offset layout value w = (.ok (), w')) :
    ∃ s, value = .struct s ∧ s.size = layout.size ∧
      Act.write (fun m => m.copy v offset s.view layout.size) w = (.ok (), w') := by
  cases value with
  | struct s =>
    unfold putStruct at h
    dsimp only at h
    by_cases hl : s.size = layout.size ∧ s.layout.alignment = layout.alignment
    · rw [if_pos hl] at h
      exact ⟨s, rfl, hl.1, h⟩
    · rw [if_neg hl] at h
      exact absurd h Act.refuse_ne_ok
  | _ => exact absurd h Act.refuse_ne_ok

theorem elementOffset_eq_ok {c : Ty} {i o : Nat} (h : elementOffset v offset c i = .ok o) :
    o = i * c.size + offset := by
  unfold elementOffset at h
  split at h
  next o' ho =>
    obtain rfl := Except.ok.inj h
    obtain ⟨m, hm, ha⟩ := Option.bind_eq_some_iff.mp ho
    rw [(addWords_eq_some.mp ha).1, (mulWords_eq_some.mp hm).1]
  · cases h

/-- A truth value is read back in either order. -/
theorem decodeIn_bool (shown written b : Bool) :
    (decodeIn shown (encodeIn written 4 (IntKind.int32.toBits (if b then 1 else 0))) != 0) = b := by
  cases shown <;> cases written <;> cases b <;> decide

/-- The characters that have been put into a scratch buffer, and those that have stayed behind
them. -/
theorem Staging.putCharItems_stores {a n : Nat} {items : List Value} {staged : View}
    {w₀ w₁ w₂ : World} (hst : Staging w w₁ staged a n) (hw : w₀.Undisturbed w)
    (hlen : items.length ≤ n)
    (h : (items.zipIdx.forM fun (x, i) => staged.put Ty.char.kind i x) w₁ = (.ok (), w₂))
    (hn : w₂.memory.heap.next ≤ wordLimit) :
    (∀ x < w.memory.heap.next, w₂.memory.heap.get x = w.memory.heap.get x) ∧
      w₂.memory.heap.load staged.address n =
        items.map Value.charByte ++ (w.memory.heap.load a n).drop items.length := by
  have hst' : Staging w w₁ staged a (Ty.char.size * n) := by
    rw [show Ty.char.size = 1 from rfl, Nat.one_mul]
    exact hst
  obtain ⟨hold, hitems⟩ := hst'.forM_stores (.builtin _)
    (fun i x => staged.steady_put (.int _) i x) hw items (fun i hi x _ wa wb _ _ hput => by
      have hword := hst.word
      have hstores : Ty.char.Stores staged.swapped w₀ (staged.address + i) x wa wb :=
        View.put_int_stores (show staged.address + i + 1 ≤ wordLimit by omega) hput
      rw [hst.swapped] at hstores
      rw [show Ty.char.size = 1 from rfl, Nat.mul_one]
      exact hstores) hlen h hn
  refine ⟨hold, List.ext_getElem? fun i => ?_⟩
  by_cases hi : i < n
  · rw [Heap.getElem?_load _ _ _ _ hi, List.getElem?_append, List.length_map]
    have hc := hitems i hi false
    rw [show Ty.char.size = 1 from rfl, Nat.mul_one] at hc
    split
    next hi' =>
      rw [List.getElem?_eq_getElem hi'] at hc
      rw [get_of_stored_char hc, List.getElem?_map, List.getElem?_eq_getElem hi', Option.map_some]
    next hi' =>
      rw [List.getElem?_eq_none (Nat.le_of_not_lt hi')] at hc
      have he : items.length + (i - items.length) = i := by omega
      rw [get_of_content_char hc, List.getElem?_drop, he, Heap.getElem?_load _ _ _ _ hi]
  · rw [List.getElem?_eq_none (by rw [Heap.length_load]; omega),
      List.getElem?_eq_none (by
        rw [List.length_append, List.length_map, List.length_drop, Heap.length_load]; omega)]

/-- A character array shows the text that has been put into it, or the characters. -/
theorem Ty.charArray_stores {n retention : Nat} {value : Value} {w₀ : World}
    (hw : w₀.Undisturbed w) (hp : w₀.StringsPlaced)
    (hword : v.address + offset + n ≤ wordLimit) (hn : w'.memory.heap.next ≤ wordLimit)
    (h : (Ty.charArray n).putField v retention offset value w = (.ok (), w')) :
    (Ty.charArray n).Stores v.swapped w₀ (v.address + offset) value w w' := by
  obtain ⟨staged, w₁, w₂, -, hst, hfill, -, hn₂, hback, hout⟩ :=
    putStaged_eq_ok (fun staged => by
      split
      · exact (steady_putChars staged n _).rises
      · exact (steady_putItems n (fun i x => staged.steady_put (.int _) i x) _).rises) h hword hn
  have hload : w'.memory.heap.load (v.address + offset) n =
      w₂.memory.heap.load staged.address n := Heap.load_shift hback
  suffices hs : (∀ x < w.memory.heap.next, w₂.memory.heap.get x = w.memory.heap.get x) ∧
      ∀ shown, .text (Memory.untilNul (w₂.memory.heap.load staged.address n)) =
        (Ty.charArray n).stored shown v.swapped w₀ w.memory.heap (v.address + offset) value by
    refine ⟨fun x hx hxo => (hout x hxo).trans (hs.1 x hx), fun shown => ?_⟩
    rw [content, hload]
    exact hs.2 shown
  split at hfill
  next id =>
    obtain ⟨hold, hchars⟩ := hst.putChars_stores hfill
    refine ⟨hold, fun shown => ?_⟩
    rw [hchars, (hw.trans hst.old).stringBytes hp]
    rfl
  · obtain ⟨items, rfl, hlen, hforM⟩ := putItems_eq_ok hfill
    obtain ⟨hold, hload⟩ := hst.putCharItems_stores hw hlen hforM hn₂
    refine ⟨hold, fun shown => ?_⟩
    rw [hload]
    rfl

/-- A struct is copied as it was in the world that the value comes from. -/
theorem Ty.struct_stores {plan : LayoutPlan} {l : Layout} (hplan : plan.build = .ok l)
    (hf : ∀ f ∈ l.fields, f.ty.Built) {retention : Nat} {value : Value} {w₀ : World}
    (hw : w₀.Undisturbed w) (hs : ∀ s ∈ value.structs, s.address + s.size ≤ w₀.memory.heap.next)
    (hword : v.address + offset + l.size ≤ wordLimit) (hn : w'.memory.heap.next ≤ wordLimit)
    (h : (Ty.struct l).putField v retention offset value w = (.ok (), w')) :
    (Ty.struct l).Stores v.swapped w₀ (v.address + offset) value w w' := by
  obtain ⟨s, rfl, hsize, hcopy⟩ := putStruct_eq_ok h
  have hsrc := hs s (by simp [Value.structs])
  have hnext := ((Act.steady_write fun _ _ h => Memory.same_copy h).of_eq hcopy).next
  obtain ⟨m, hm, rfl⟩ := Act.write_eq_ok.mp hcopy
  have hsrcword : s.view.address + l.size ≤ wordLimit := by
    rw [← hsize]
    exact Nat.le_trans hsrc (Nat.le_trans hw.next (Nat.le_trans hnext hn))
  have he := Memory.copy_store hm hword hsrcword
  have hlen : (w.memory.heap.load s.view.address l.size).length = l.size := Heap.length_load ..
  subst he
  refine ⟨fun c _ hc => Heap.get_store_of_outside (by rw [hlen]; exact hc), fun shown => ?_⟩
  refine (Ty.Built.struct hplan hf).content_congr fun i hi => ?_
  -- the source is where it was in the world that the value comes from
  have hold : s.view.address + i < w₀.memory.heap.next :=
    Nat.lt_of_lt_of_le (Nat.add_lt_add_left (hsize ▸ hi) _) hsrc
  exact (Heap.get_store_load _ _ _ _ hi).trans (hw.bytes _ hold)

/-- A field shows what has been stored in it. -/
theorem Ty.Built.putField_stores {t : Ty} (ht : t.Built) (hplain : t.isPlain = true) {w₀ : World}
    {retention : Nat} {value : Value} (hw : w₀.Undisturbed w) (hp : w₀.StringsPlaced)
    (hs : ∀ s ∈ value.structs, s.address + s.size ≤ w₀.memory.heap.next)
    (hword : v.address + offset + t.size ≤ wordLimit) (hn : w'.memory.heap.next ≤ wordLimit)
    (h : t.putField v retention offset value w = (.ok (), w')) :
    t.Stores v.swapped w₀ (v.address + offset) value w w' := by
  induction ht generalizing v offset value w w' with
  | builtin b =>
    cases b with
    | int k => exact View.put_int_stores hword h
    | bool =>
      obtain ⟨b, w₁, hbool, hwrite⟩ := Act.bind_eq_ok.mp h
      obtain ⟨hb, rfl⟩ := Act.ofChecked_eq_ok.mp hbool
      obtain ⟨hc, hl⟩ := View.writeInt_stores (k := .int32) hword hwrite
      have hl' : w'.memory.heap.load (v.address + offset) 4 = _ := hl
      refine ⟨hc, fun shown => ?_⟩
      cases value with
      | bool b' =>
        obtain rfl := Except.ok.inj hb
        rw [content, hl', stored]
        exact congrArg Content.bool (decodeIn_bool shown v.swapped b')
      | _ => cases hb
    | _ => cases hplain
  | @array c n hc ih =>
    have hitem : ∀ (staged : View) i x, Act.Steady (do
        let o ← Act.ofChecked (elementOffset staged 0 c i)
        c.putField staged retention o x) := fun staged i x =>
      (Act.steady_ofChecked _).bind fun o => c.steady_putField retention staged o x
    obtain ⟨staged, w₁, w₂, -, hst, hfill, -, hn₂, hback, hout⟩ := putStaged_eq_ok
      (fun staged => (steady_putItems n (hitem staged) value).rises) h hword hn
    obtain ⟨items, rfl, hlen, hforM⟩ := putItems_eq_ok hfill
    obtain ⟨hold, hitems⟩ := hst.forM_stores hc (hitem staged) hw items
      (fun i hi x hx wa wb hwa hnb hput => by
        obtain ⟨o, wc, hoff, hfield⟩ := Act.bind_eq_ok.mp hput
        obtain ⟨ho, rfl⟩ := Act.ofChecked_eq_ok.mp hoff
        obtain rfl := elementOffset_eq_ok ho
        have hmul : i * c.size + c.size ≤ c.size * n := element_le hi
        have hstaged := hst.word
        have hx' : ∀ s ∈ x.structs, s.address + s.size ≤ w₀.memory.heap.next := fun s hsx =>
          hs s (Value.structs_subset hx hsx)
        have hstores := ih hplain hwa hx' (by omega) hnb hfield
        rw [hst.swapped] at hstores
        exact hstores) hlen hforM hn₂
    -- the raw bytes of the scratch buffer are what the field shows
    refine ⟨fun x hx hxo => (hout x hxo).trans (hold x hx), fun shown => ?_⟩
    have hback' : (Ty.array c n).content shown w'.memory.heap (v.address + offset) =
        (Ty.array c n).content shown w₂.memory.heap staged.address :=
      (Ty.Built.array n hc).content_congr hback
    rw [hback', content, stored]
    exact congrArg Content.array
      (List.map_congr_left fun i hi => hitems i (List.mem_range.mp hi) shown)
  | charArray n => exact charArray_stores hw hp hword hn h
  | enumeration _ =>
    obtain ⟨i, w₁, hint, hwrite⟩ := Act.bind_eq_ok.mp h
    obtain ⟨hi, rfl⟩ := Act.ofChecked_eq_ok.mp hint
    obtain ⟨hc, hl⟩ := View.writeInt_stores (k := .int32) hword hwrite
    have hl' : w'.memory.heap.load (v.address + offset) 4 = _ := hl
    refine ⟨hc, fun shown => ?_⟩
    rw [content, hl', stored, hi]
    rfl
  | callback s => cases hplain
  | @struct plan l hplan hf _ => exact struct_stores hplan hf hw hs hword hn h

end ForeignCall
