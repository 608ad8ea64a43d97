import ForeignCall.Proofs.Struct.Writing
import ForeignCall.Struct.Instance

/-!
# Putting and getting fields

A field reads back what has been put there exactly when every scalar of the value reads the same in
the order in which it has been written (`Instance.get_put`). A scalar field is written in the order
in which it is read. The items of an array are written in the host's order, and the members of a
struct in the order of the view that they come from: these two read back in the order of the struct
only where it is the same, or where it makes no difference.
-/

namespace ForeignCall

/-! ## What is wanted -/

/-- The integer whose bytes are those of another one in the opposite order. -/
def IntKind.mirror (k : IntKind) (i : Int) : Int :=
  k.ofBits (decodeIn true (encodeIn false k.bytes (k.toBits i)))

/--
What a field of a type is to show after a value has been put there, the field at `a` before: the
value itself, a string up to its first zero byte, an enumeration's value as its first symbol. In an
array the items that are not given stay, and a struct shows what its members show in its own view.
-/
def Ty.wanted (shown : Bool) (w : World) (a : Nat) (value : Value) : Ty → Content
  | .builtin (.int k) =>
    match value.toInt k with
    | .ok i => .int i
    | .error _ => .other
  | .builtin .bool =>
    match value with
    | .bool b => .bool b
    | _ => .other
  | .builtin _ => .other
  | .enumeration table =>
    match value.toEnum (some table) none with
    | .ok i => table.shown i
    | .error _ => .other
  | .charArray n =>
    match value with
    | .str id => .text (Memory.untilNul (w.stringBytes id))
    | .array items =>
      .text (Memory.untilNul
        (items.map Value.charByte ++ (w.memory.heap.load a n).drop items.length))
    | _ => .other
  | .array c n =>
    match value with
    | .array items => .array ((List.range n).map fun i =>
        match items[i]? with
        | some x => c.wanted shown w (a + i * c.size) x
        | none => c.content shown w.memory.heap (a + i * c.size))
    | _ => .other
  | .struct l =>
    match value with
    | .struct s => (Ty.struct l).content s.view.swapped w.memory.heap s.address
    | _ => .other
  | .callback _ => .other

/-- Whether every scalar of a value reads the same in one order after it has been written in
another. -/
def Ty.Agrees (shown written : Bool) (w : World) (value : Value) : Ty → Prop
  | .builtin (.int k) =>
    match value.toInt k with
    | .ok i => shown = written ∨ k.mirror i = i
    | .error _ => True
  | .enumeration table =>
    match value.toEnum (some table) none with
    | .ok i => shown = written ∨ table.shown (IntKind.int32.mirror i) = table.shown i
    | .error _ => True
  | .array c n =>
    match value with
    | .array items => ∀ x ∈ items.take n, c.Agrees shown false w x
    | _ => True
  | .struct l =>
    match value with
    | .struct s => (Ty.struct l).content shown w.memory.heap s.address =
        (Ty.struct l).content s.view.swapped w.memory.heap s.address
    | _ => True
  | _ => True

theorem decodeIn_of_ne {shown written : Bool} (h : shown ≠ written) (width bits : Nat) :
    decodeIn shown (encodeIn written width bits) = decodeIn true (encodeIn false width bits) := by
  cases shown <;> cases written <;> first | exact absurd rfl h | simp [decodeIn, encodeIn]

theorem IntKind.toBits_lt (k : IntKind) (i : Int) : k.toBits i < k.modulus := by
  have hm : (0 : Int) < k.modulus := by
    obtain ⟨signed, width⟩ := k
    cases width <;> simp [IntKind.modulus, Width.modulus]
  have h1 := Int.emod_nonneg i (Int.ne_of_gt hm)
  have h2 := Int.emod_lt_of_pos i hm
  unfold IntKind.toBits
  omega

theorem IntKind.toBits_lt_limit (k : IntKind) (i : Int) : k.toBits i < Bytes.limit k.bytes := by
  have hm : k.modulus = Bytes.limit k.bytes := k.width.modulus_eq
  rw [← hm]
  exact k.toBits_lt i

/-- An integer of a kind is read back in the order in which it has been written. -/
theorem IntKind.ofBits_decodeIn (k : IntKind) {i : Int} (h : k.min ≤ i ∧ i ≤ k.max)
    (shown written : Bool) : k.ofBits (decodeIn shown (encodeIn written k.bytes (k.toBits i))) =
      if shown = written then i else k.mirror i := by
  split
  next he =>
    rw [he, decodeIn_encodeIn, Nat.mod_eq_of_lt (k.toBits_lt_limit i), k.ofBits_toBits i h]
  next hne => rw [IntKind.mirror, decodeIn_of_ne hne]

theorem map_range_eq_iff {α : Type} {f g : Nat → α} {n : Nat} :
    (List.range n).map f = (List.range n).map g ↔ ∀ i < n, f i = g i := by
  rw [List.map_inj_left]
  simp only [List.mem_range]

/-- What is stored is what is wanted exactly when the orders agree. -/
theorem Ty.Built.stored_eq_wanted_iff {t : Ty} (ht : t.Built) (shown written : Bool) (w : World)
    (a : Nat) (value : Value) :
    t.stored shown written w w.memory.heap a value = t.wanted shown w a value ↔
      t.Agrees shown written w value := by
  induction ht generalizing written a value with
  | builtin b =>
    cases b with
    | int k =>
      unfold stored wanted Agrees
      cases hi : value.toInt k with
      | error e => simp
      | ok i =>
        simp only [k.ofBits_decodeIn (Value.toInt_eq_ok hi).2, Content.int.injEq]
        by_cases he : shown = written <;> simp [he]
    | bool => exact iff_of_true rfl trivial
    | _ => exact iff_of_true rfl trivial
  | @array c n _ ih =>
    unfold stored wanted Agrees
    -- items are staged in the host's order, whatever the order of the view
    cases value with
    | array items =>
      simp only [Content.array.injEq, map_range_eq_iff]
      constructor
      · intro h x hx
        obtain ⟨i, hi⟩ := List.mem_iff_getElem?.mp hx
        rw [List.getElem?_take] at hi
        split at hi
        next hlt =>
          have hs := h i hlt
          rw [hi] at hs
          exact (ih false _ x).mp hs
        · cases hi
      · intro h i hi
        cases hx : items[i]? with
        | none => rfl
        | some x =>
          refine (ih false _ x).mpr (h x (List.mem_iff_getElem?.mpr ⟨i, ?_⟩))
          rw [List.getElem?_take, if_pos hi, hx]
    | _ => exact iff_of_true rfl trivial
  | charArray n => exact iff_of_true rfl trivial
  | @enumeration table hr =>
    unfold stored wanted Agrees
    cases hi : value.toEnum (some table) none with
    | error e => simp
    | ok i =>
      have hrange := Value.toEnum_range (by simpa using hr) (by simp [Enums.InRange]) hi
      have hb := IntKind.ofBits_decodeIn .int32 hrange shown written
      have hb' : IntKind.int32.ofBits (decodeIn shown (encodeIn written 4
        (IntKind.int32.toBits i))) = _ := hb
      simp only [hb']
      by_cases he : shown = written <;> simp [he]
  | callback s => exact iff_of_true rfl trivial
  | struct _ _ _ =>
    unfold stored wanted Agrees
    cases value with
    | struct s => exact Iff.rfl
    | _ => exact iff_of_true rfl trivial

/-- In the host's order everything agrees. -/
theorem Ty.Built.agrees_of_host {t : Ty} (ht : t.Built) (w : World) {value : Value}
    (hv : ∀ s ∈ value.structs, s.view.swapped = false) : t.Agrees false false w value := by
  induction ht generalizing value with
  | builtin b =>
    cases b with
    | int k =>
      unfold Agrees
      cases value.toInt k with
      | error e => trivial
      | ok i => exact Or.inl rfl
    | _ => trivial
  | array n _ ih =>
    cases value with
    | array items =>
      intro x hx
      refine ih fun s hs => hv s ?_
      rw [Value.structs]
      exact List.mem_flatMap.mpr ⟨x, List.mem_of_mem_take hx, hs⟩
    | _ => trivial
  | charArray n => trivial
  | @enumeration table _ =>
    unfold Agrees
    cases value.toEnum (some table) none with
    | error e => trivial
    | ok i => exact Or.inl rfl
  | callback s => trivial
  | struct _ _ _ =>
    cases value with
    | struct s =>
      have hs : s.view.swapped = false := hv s (by simp [Value.structs])
      unfold Agrees
      dsimp only
      rw [hs]
    | _ => trivial

/-! ## The round trip -/

theorem Value.Shows.eq_ints {w : World} {x : Value} {is : List Int}
    (h : x.Shows w (.array (is.map Content.int))) : x = .array (is.map Value.int) := by
  cases h with
  | @array items _ hl hitems =>
    congr 1
    refine List.ext_getElem? fun i => ?_
    rw [List.getElem?_map]
    cases hx : items[i]? with
    | none =>
      rw [List.getElem?_eq_none_iff] at hx
      rw [List.length_map] at hl
      rw [List.getElem?_eq_none_iff.mpr (hl ▸ hx)]
      rfl
    | some x =>
      have hi : i < is.length := by
        rw [List.length_map] at hl
        exact hl ▸ (List.getElem?_eq_some_iff.mp hx).1
      have hc : (is.map Content.int)[i]? = some (.int is[i]) := by
        rw [List.getElem?_map, List.getElem?_eq_getElem hi]
        rfl
      rw [List.getElem?_eq_getElem hi]
      cases hitems i x _ hx hc
      rfl

/-- Integers are readable, and no other value shows them. -/
theorem World.Answers.eq_ints {w : World} {is : List Int} {r : Outcome Value × World}
    (h : w.Answers (.array (is.map Content.int)) r) : r.1 = .ok (.array (is.map Value.int)) := by
  rcases r with ⟨e | x, w'⟩
  · refine absurd (Content.Readable.array fun c hc => ?_) h
    obtain ⟨i, -, rfl⟩ := List.mem_map.mp hc
    exact .int i
  · rw [h.2.1.eq_ints]

namespace Instance

variable {s : Instance} {f : Field} {w w' : World}

theorem field_eq {name : String} (hf : s.layout.field? name = some f) : s.field name = pure f := by
  unfold field
  rw [hf]

/-- The place of a field of a struct that is there. -/
theorem covers_field (hb : Ty.Built (.struct s.layout)) (hf : f ∈ s.layout.fields)
    (hs : w.Covers s.view 0 s.size .read) : w.Covers s.view f.offset f.ty.size .read := by
  cases hb with
  | struct hplan _ =>
    have hin := LayoutPlan.field_inside hplan hf
    refine hs.part ?_
    rw [Nat.zero_add]
    exact hin

theorem built_field (hb : Ty.Built (.struct s.layout)) (hf : f ∈ s.layout.fields) : f.ty.Built := by
  cases hb with
  | struct _ hfields => exact hfields f hf

/-- Reading a field of a struct answers with what its bytes show. -/
theorem answers_get {name : String} (hb : Ty.Built (.struct s.layout))
    (hf : s.layout.field? name = some f) (hplain : f.ty.isPlain = true)
    (hs : w.Covers s.view 0 s.size .read) (hp : w.StringsPlaced) :
    w.Answers (f.ty.content s.view.swapped w.memory.heap (s.address + f.offset))
      (s.get name w) := by
  have hmem : f ∈ s.layout.fields := List.mem_of_find?_eq_some hf
  unfold get
  rw [field_eq hf, pure_bind]
  exact (built_field hb hmem).answers_getField hplain _ _ _ (covers_field hb hmem hs) hp

/-- After a value has been put the struct is still there, and its field shows what is stored. -/
theorem content_put {name : String} {value : Value} (hb : Ty.Built (.struct s.layout))
    (hf : s.layout.field? name = some f) (hplain : f.ty.isPlain = true)
    (hs : w.Covers s.view 0 s.size .read) (hp : w.StringsPlaced)
    (hsrc : ∀ src ∈ value.structs, src.address + src.size ≤ w.memory.heap.next)
    (hput : s.put name value w = (.ok (), w')) (hn : w'.memory.heap.next ≤ wordLimit) :
    w'.Covers s.view 0 s.size .read ∧ w'.StringsPlaced ∧
      f.ty.content s.view.swapped w'.memory.heap (s.address + f.offset) =
        f.ty.stored s.view.swapped s.view.swapped w w.memory.heap (s.address + f.offset) value := by
  have hmem : f ∈ s.layout.fields := List.mem_of_find?_eq_some hf
  have hcovers := covers_field hb hmem hs
  unfold put at hput
  rw [field_eq hf, pure_bind] at hput
  have hsteady := (f.ty.steady_putField s.retention s.view f.offset value).of_eq hput
  obtain ⟨-, hstored⟩ :=
    (built_field hb hmem).putField_stores hplain (.refl w) hp hsrc hcovers.word hn hput
  exact ⟨hs.mono hsteady.next hsteady.live, hp.steady hsteady, hstored s.view.swapped⟩

/-- After a value has been put, reading the field answers with what is stored. -/
theorem answers_stored {name : String} {value : Value} (hb : Ty.Built (.struct s.layout))
    (hf : s.layout.field? name = some f) (hplain : f.ty.isPlain = true)
    (hs : w.Covers s.view 0 s.size .read) (hp : w.StringsPlaced)
    (hsrc : ∀ src ∈ value.structs, src.address + src.size ≤ w.memory.heap.next)
    (hput : s.put name value w = (.ok (), w')) (hn : w'.memory.heap.next ≤ wordLimit) :
    w'.Answers (f.ty.stored s.view.swapped s.view.swapped w w.memory.heap (s.address + f.offset)
      value) (s.get name w') := by
  obtain ⟨hs', hp', hstored⟩ := content_put hb hf hplain hs hp hsrc hput hn
  rw [← hstored]
  exact answers_get hb hf hplain hs' hp'

/--
The round trip of a plain field, over memory that is there and in either byte order. When a value
has been put, reading the field answers with a content `shown`, which is the wanted one exactly when
the orders agree. In every struct the content of a member is what reading the member answers with.
-/
theorem get_put {name : String} {value : Value} (hb : Ty.Built (.struct s.layout))
    (hf : s.layout.field? name = some f) (hplain : f.ty.isPlain = true)
    (hs : w.Covers s.view 0 s.size .read) (hp : w.StringsPlaced)
    (hsrc : ∀ src ∈ value.structs, src.address + src.size ≤ w.memory.heap.next)
    (hput : s.put name value w = (.ok (), w')) (hn : w'.memory.heap.next ≤ wordLimit) :
    (∃ shown, w'.Answers shown (s.get name w') ∧
      (shown = f.ty.wanted s.view.swapped w (s.address + f.offset) value ↔
        f.ty.Agrees s.view.swapped s.view.swapped w value)) ∧
    ∀ (s₁ : Instance) (g : Field) (w₁ : World), Ty.Built (.struct s₁.layout) →
      s₁.layout.field? g.name = some g → g.ty.isPlain = true →
      w₁.Covers s₁.view 0 s₁.size .read → w₁.StringsPlaced →
      w₁.Answers (g.ty.content s₁.view.swapped w₁.memory.heap (s₁.address + g.offset))
        (s₁.get g.name w₁) := by
  refine ⟨⟨_, answers_stored hb hf hplain hs hp hsrc hput hn, ?_⟩,
    fun s₁ g w₁ hb₁ hg hplain₁ hs₁ hp₁ => answers_get hb₁ hg hplain₁ hs₁ hp₁⟩
  exact (built_field hb (List.mem_of_find?_eq_some hf)).stored_eq_wanted_iff _ _ _ _ _

/-! ## Three integers in a row -/

/-- Three integers in a row, at a fixed place, in a byte order. -/
def triple (swapped : Bool) : Instance :=
  ⟨⟨[⟨"a", 0, .array .int32 3⟩], 12, 4, false, true⟩, ⟨4096, 12, 1, .readWrite, swapped, none⟩, 0⟩

theorem built_triple (swapped : Bool) : Ty.Built (.struct (triple swapped).layout) := by
  have hplan : LayoutPlan.build (.ofFields
      [⟨"a", .descriptor ⟨.array .int32 3, Descriptor.firstFree⟩, none⟩] false) =
        .ok (triple swapped).layout := rfl
  refine .struct hplan fun f hf => ?_
  obtain rfl := List.mem_singleton.mp hf
  exact .array 3 (.builtin _)

theorem covers_triple (swapped : Bool) :
    World.start.Covers (triple swapped).view 0 (triple swapped).size .read where
  admits := ⟨(by decide : 4096 ≠ 0), rfl, rfl, (by decide : 0 + 12 < wordLimit), Nat.le_refl 12⟩
  word := (by decide : 4096 + 0 + 12 ≤ wordLimit)
  old := (by decide : 4096 + 0 + 12 ≤ World.heapBase)

theorem stringsPlaced_start : World.start.StringsPlaced := by
  intro id s hs
  simp [World.start] at hs

theorem load_start (a n : Nat) : World.start.memory.heap.load a n = List.replicate n 0 :=
  Heap.load_empty ..

theorem content_start (swapped : Bool) (a : Nat) :
    Ty.int32.content swapped World.start.memory.heap a = .int 0 := by
  show Content.int (IntKind.int32.ofBits
    (decodeIn swapped (World.start.memory.heap.load a 4))) = .int 0
  rw [load_start]
  cases swapped <;> rfl

theorem exists_put_triple (swapped : Bool) : ∃ w',
    (triple swapped).put "a" (.array [.int 1, .int 2]) World.start = (.ok (), w') ∧
      w'.memory.heap.next ≤ wordLimit := by
  refine ⟨_, rfl, ?_⟩
  show ((triple swapped).put "a" (.array [.int 1, .int 2]) World.start).2.memory.heap.next ≤
    wordLimit
  cases swapped <;> decide +kernel

/-- In the host's order two integers that are put read back, before the third one. -/
theorem get_put_host : ∃ w',
    (triple false).put "a" (.array [.int 1, .int 2]) World.start = (.ok (), w') ∧
      w'.Answers (.array [.int 1, .int 2, .int 0]) ((triple false).get "a" w') := by
  obtain ⟨w', hput, hn⟩ := exists_put_triple false
  refine ⟨w', hput, ?_⟩
  have hsrc : ∀ src ∈ (Value.array [.int 1, .int 2]).structs,
      src.address + src.size ≤ World.start.memory.heap.next := by simp [Value.structs]
  have hwanted : (Ty.array .int32 3).wanted false World.start 4096 (.array [.int 1, .int 2]) =
      .array [.int 1, .int 2, .int 0] := by
    show Content.array [.int 1, .int 2, Ty.int32.content false World.start.memory.heap _] = _
    rw [content_start]
  obtain ⟨⟨shown, hget, hiff⟩, -⟩ := get_put (f := ⟨"a", 0, .array .int32 3⟩) (built_triple false)
    rfl rfl (covers_triple false) stringsPlaced_start hsrc hput hn
  have hagrees : (Ty.array .int32 3).Agrees false false World.start (.array [.int 1, .int 2]) :=
    (Ty.Built.array 3 (.builtin _)).agrees_of_host _ (by simp [Value.structs])
  rw [hiff.mpr hagrees] at hget
  rw [← hwanted]
  exact hget

/-- In the opposite order every integer that is put as an item reads back with its bytes reversed.
-/
theorem get_put_swapped : ∃ w',
    (triple true).put "a" (.array [.int 1, .int 2]) World.start = (.ok (), w') ∧
      ((triple true).get "a" w').1 = .ok (.array [.int 16777216, .int 33554432, .int 0]) := by
  obtain ⟨w', hput, hn⟩ := exists_put_triple true
  refine ⟨w', hput, ?_⟩
  have hsrc : ∀ src ∈ (Value.array [.int 1, .int 2]).structs,
      src.address + src.size ≤ World.start.memory.heap.next := by simp [Value.structs]
  have hstored : (Ty.array .int32 3).stored true true World.start World.start.memory.heap 4096
      (.array [.int 1, .int 2]) =
        .array ([16777216, 33554432, 0].map Content.int) := by
    show Content.array [.int 16777216, .int 33554432,
      Ty.int32.content true World.start.memory.heap _] = _
    rw [content_start]
    rfl
  have hget := answers_stored (f := ⟨"a", 0, .array .int32 3⟩) (built_triple true)
    rfl rfl (covers_triple true) stringsPlaced_start hsrc hput hn
  have hget' : w'.Answers (.array ([16777216, 33554432, 0].map Content.int))
      ((triple true).get "a" w') := by
    rw [← hstored]
    exact hget
  exact hget'.eq_ints

end Instance

end ForeignCall
