import ForeignCall.Proofs.Struct.Confined

/-!
# Places inside a struct

Where types stand inside a type (`Ty.Has`), the function pointers that a struct has room for
(`Instance.slots`), and the structs and arrays inside a struct, which are written through views of
their own but share its map of kept callbacks (`Instance.Nested`, `Instance.NestedArray`). Reading a
nested field or element gives nothing but these (`Instance.Nested.get`, `Instance.NestedArray.get`).
A `StructWrite` is anything that is written through them.
-/

namespace ForeignCall

/-! ## Types inside types -/

/-- A type stands inside another one at an offset. -/
inductive Ty.Has : Ty → Nat → Ty → Prop where
  | self (t : Ty) : t.Has 0 t
  | field {l : Layout} {f : Field} {o : Nat} {u : Ty} (hf : f ∈ l.fields) (h : f.ty.Has o u) :
      (Ty.struct l).Has (f.offset + o) u
  | item {c : Ty} {n i o : Nat} {u : Ty} (hi : i < n) (h : c.Has o u) :
      (Ty.array c n).Has (i * c.size + o) u

namespace Ty

theorem Has.trans {t u r : Ty} {o p : Nat} (h : t.Has o u) (h' : u.Has p r) : t.Has (o + p) r := by
  induction h with
  | self _ => rw [Nat.zero_add]; exact h'
  | field hf _ ih => rw [Nat.add_assoc]; exact .field hf (ih h')
  | item hi _ ih => rw [Nat.add_assoc]; exact .item hi (ih h')

/-- What stands inside a type that has been built has been built. -/
theorem Built.of_has {t u : Ty} {o : Nat} (ht : t.Built) (h : t.Has o u) : u.Built := by
  induction h with
  | self _ => exact ht
  | field hf _ ih =>
    cases ht with
    | struct _ hfields => exact ih (hfields _ hf)
  | item _ _ ih =>
    cases ht with
    | array _ hc => exact ih hc

/-- What stands inside a type that has been built ends inside it. -/
theorem Built.has_inside {t u : Ty} {o : Nat} (ht : t.Built) (h : t.Has o u) :
    o + u.size ≤ t.size := by
  induction h with
  | self _ => exact Nat.le_of_eq (Nat.zero_add _)
  | @field l f o u hf h ih =>
    cases ht with
    | struct hplan hfields =>
      have hin := LayoutPlan.field_inside hplan hf
      have hu := ih (hfields f hf)
      show f.offset + o + u.size ≤ l.size
      omega
  | @item c n i o u hi h ih =>
    cases ht with
    | array _ hc =>
      have hmul : i * c.size + c.size ≤ c.size * n := element_le hi
      have hu := ih hc
      show i * c.size + o + u.size ≤ c.size * n
      omega

/-- The elements of an array fill it. -/
theorem size_arrayParts {t c : Ty} {n : Nat} (h : t.arrayParts? = some (c, n)) :
    c.size * n = t.size := by
  cases t with
  | array d m =>
    obtain ⟨rfl, rfl⟩ := Prod.mk.inj (Option.some.inj h)
    rfl
  | charArray m =>
    obtain ⟨rfl, rfl⟩ := Prod.mk.inj (Option.some.inj h)
    exact Nat.one_mul m
  | _ => cases h

theorem Built.of_arrayParts {t c : Ty} {n : Nat} (ht : t.Built)
    (h : t.arrayParts? = some (c, n)) : c.Built := by
  cases ht with
  | array m hc =>
    obtain ⟨rfl, rfl⟩ := Prod.mk.inj (Option.some.inj h)
    exact hc
  | charArray m =>
    obtain ⟨rfl, rfl⟩ := Prod.mk.inj (Option.some.inj h)
    exact .builtin _
  | _ => cases h

/-- An item of an array or of a character array. -/
theorem has_arrayParts {t u c : Ty} {n o i : Nat} (h : u.Has o t) (hp : t.arrayParts? = some (c, n))
    (hi : i < n) : u.Has (o + i * c.size) c ∨ c = .char := by
  cases t with
  | array d m =>
    obtain ⟨rfl, rfl⟩ := Prod.mk.inj (Option.some.inj hp)
    exact Or.inl (h.trans (.item hi (.self d)))
  | charArray m => exact Or.inr (Prod.mk.inj (Option.some.inj hp)).1.symm
  | _ => cases hp

end Ty

/-! ## Function pointers -/

mutual

/-- The addresses at which a type has function pointers when it stands at an address. -/
def Ty.slots (a : Nat) : Ty → List Nat
  | .callback _ => [a]
  | .array c n => (List.range n).flatMap fun i => c.slots (a + i * c.size)
  | .struct l => l.slots a
  | _ => []

/-- The addresses at which the fields of a layout have them. -/
def Layout.slots (a : Nat) : Layout → List Nat
  | ⟨fields, _, _, _, _⟩ => fieldSlots a fields

/-- The addresses at which a list of fields has them. -/
def fieldSlots (a : Nat) : List Field → List Nat
  | [] => []
  | ⟨_, offset, ty⟩ :: rest => ty.slots (a + offset) ++ fieldSlots a rest

end

theorem fieldSlots_eq (a : Nat) (fields : List Field) :
    fieldSlots a fields = fields.flatMap fun f => f.ty.slots (a + f.offset) := by
  induction fields with
  | nil => rfl
  | cons f rest ih =>
    obtain ⟨name, offset, ty⟩ := f
    rw [fieldSlots, ih, List.flatMap_cons]

theorem slots_struct (a : Nat) (l : Layout) :
    (Ty.struct l).slots a = l.fields.flatMap fun f => f.ty.slots (a + f.offset) := by
  obtain ⟨fields, size, alignment, isUnion, natural⟩ := l
  rw [Ty.slots, Layout.slots, fieldSlots_eq]

/-- A function pointer inside a type is one of its slots. -/
theorem Ty.Has.slots_subset {t u : Ty} {o a : Nat} (h : t.Has o u) :
    u.slots (a + o) ⊆ t.slots a := by
  induction h generalizing a with
  | self _ => exact List.Subset.refl _
  | @field l f o u hf h ih =>
    intro p hp
    rw [← Nat.add_assoc] at hp
    rw [slots_struct]
    exact List.mem_flatMap.mpr ⟨f, hf, ih hp⟩
  | @item c n i o u hi h ih =>
    intro p hp
    rw [← Nat.add_assoc] at hp
    rw [Ty.slots]
    exact List.mem_flatMap.mpr ⟨i, List.mem_range.mpr hi, ih hp⟩

theorem Ty.Has.mem_slots {t : Ty} {o a : Nat} {signature : Signature}
    (h : t.Has o (.callback signature)) : a + o ∈ t.slots a :=
  h.slots_subset (List.mem_singleton_self _)

/-- The addresses of the function pointers of a struct, those of structs and arrays inside it
included. -/
def Instance.slots (s : Instance) : List Nat := (Ty.struct s.layout).slots s.address

/-! ## Views inside a struct -/

namespace Instance

/-- A struct is `s` or stands inside it. It has the map of `s`. -/
structure Nested (s n : Instance) : Prop where
  retention : n.retention = s.retention
  place : ∃ o, (Ty.struct s.layout).Has o (.struct n.layout) ∧ n.address = s.address + o

/-- An array stands inside `s`. It has the map of `s`. -/
structure NestedArray (s : Instance) (a : InlineArray) : Prop where
  retention : a.retention = s.retention
  place : ∃ o t, (Ty.struct s.layout).Has o t ∧ t.arrayParts? = some (a.component, a.length) ∧
    a.view.address + a.offset = s.address + o

variable {s n : Instance} {w w' : World} {value : Value}

theorem Nested.self (s : Instance) : s.Nested s := ⟨rfl, 0, .self _, rfl⟩

/-- The place of a field of a nested struct. -/
theorem Nested.has_field (hn : s.Nested n) {f : Field} (hf : f ∈ n.layout.fields) :
    ∃ o, (Ty.struct s.layout).Has o f.ty ∧ n.address + f.offset = s.address + o := by
  obtain ⟨o, ho, ha⟩ := hn.place
  exact ⟨o + f.offset, ho.trans (.field hf (.self _)), by omega⟩

theorem Nested.inside (hb : Ty.Built (.struct s.layout)) (hn : s.Nested n) :
    s.address ≤ n.address ∧ n.address + n.size ≤ s.address + s.size := by
  obtain ⟨o, ho, ha⟩ := hn.place
  have hin : o + n.size ≤ s.size := hb.has_inside ho
  omega

theorem Nested.field_inside (hb : Ty.Built (.struct s.layout)) (hn : s.Nested n) {f : Field}
    (hf : f ∈ n.layout.fields) : s.address ≤ n.address + f.offset ∧
      n.address + f.offset + f.ty.size ≤ s.address + s.size := by
  obtain ⟨o, ho, ha⟩ := hn.has_field hf
  have hin : o + f.ty.size ≤ s.size := hb.has_inside ho
  omega

theorem NestedArray.element_inside (hb : Ty.Built (.struct s.layout)) {a : InlineArray}
    (ha : s.NestedArray a) {i : Nat} (hi : i < a.length) :
    s.address ≤ a.view.address + (i * a.component.size + a.offset) ∧
      a.view.address + (i * a.component.size + a.offset) + a.component.size ≤
        s.address + s.size := by
  obtain ⟨o, t, ho, hparts, hplace⟩ := ha.place
  have hin : o + t.size ≤ s.size := hb.has_inside ho
  have hmul := @element_le i a.length a.component.size hi
  rw [Ty.size_arrayParts hparts] at hmul
  omega

/-- The place of an element of a nested array that is no array of characters. -/
theorem NestedArray.has_element {a : InlineArray} (ha : s.NestedArray a) {i : Nat}
    (hi : i < a.length) : (∃ o, (Ty.struct s.layout).Has o a.component ∧
      a.view.address + (i * a.component.size + a.offset) = s.address + o) ∨
        a.component = .char := by
  obtain ⟨o, t, ho, hparts, hplace⟩ := ha.place
  exact (Ty.has_arrayParts ho hparts hi).imp_left fun h => ⟨_, h, by omega⟩

end Instance

/-! ## What reading answers with -/

theorem mapM_eq_ok_mem {α β : Type} {f : α → Act β} {l : List α} {ys : List β} {w w' : World}
    (h : l.mapM f w = (.ok ys, w')) {y : β} (hy : y ∈ ys) :
    ∃ x ∈ l, ∃ w₁ w₂, f x w₁ = (.ok y, w₂) := by
  obtain ⟨i, hi⟩ := List.mem_iff_getElem?.mp hy
  have hall : List.Forall₂ (fun y x => ∃ w₁ w₂, f x w₁ = (.ok y, w₂)) ys l :=
    (Act.forall₂_mapM h).flip
  obtain ⟨x, hx, hf⟩ := exists_of_forall₂ hall hi
  exact ⟨x, List.mem_of_getElem? hx, hf⟩

theorem structs_string {bytes : List UInt8} {w w' : World} {value : Value}
    (h : Act.string bytes w = (.ok value, w')) : value.structs = [] := by
  rw [← Except.ok.inj (Prod.mk.inj h).1]
  simp [Value.structs]

theorem structs_stringFrom {address : Nat} {w w' : World} {value : Value}
    (h : Act.stringFrom address w = (.ok value, w')) : value.structs = [] := by
  obtain ⟨text, w₁, -, h⟩ := Act.bind_eq_ok.mp h
  cases text with
  | none =>
    obtain ⟨rfl, -⟩ := Act.pure_eq_ok.mp h
    simp [Value.structs]
  | some bytes => exact structs_string h

/-- A value of a builtin kind has no struct in it. -/
theorem View.structs_get {v : View} {b : Builtin} {offset : Nat} {w w' : World} {value : Value}
    (h : v.get (.builtin b) offset w = (.ok value, w')) : value.structs = [] := by
  cases b with
  | string =>
    obtain ⟨address, w₁, -, h⟩ := Act.bind_eq_ok.mp h
    exact structs_stringFrom h
  | void => exact absurd h Act.refuse_ne_ok
  | varargs => exact absurd h Act.refuse_ne_ok
  | _ =>
    obtain ⟨x, w₁, -, h⟩ := Act.bind_eq_ok.mp h
    obtain ⟨rfl, -⟩ := Act.pure_eq_ok.mp h
    simp [Value.structs]

/-- Every struct in the value of a field stands inside the field, under a view of its size, and has
the map of the struct. -/
theorem Ty.structs_getField {v : View} {retention : Nat} {inner : Instance} {w w' : World} :
    ∀ (t : Ty) {name : String} {offset : Nat} {value : Value},
      t.getField v retention name offset w = (.ok value, w') → inner ∈ value.structs →
      inner.retention = retention ∧ inner.view.size = inner.size ∧
        ∃ o, t.Has o (.struct inner.layout) ∧ inner.address = v.address + offset + o
  | .builtin b, name, offset, value, h, hi => by
    have hnone : value.structs = [] := by
      cases b with
      | string =>
        obtain ⟨address, w₁, -, h⟩ := Act.bind_eq_ok.mp h
        exact structs_stringFrom h
      | _ => exact View.structs_get h
    rw [hnone] at hi
    cases hi
  | .array c n, name, offset, value, h, hi => by
    obtain ⟨items, w₁, hitems, h⟩ := Act.bind_eq_ok.mp h
    obtain ⟨rfl, -⟩ := Act.pure_eq_ok.mp h
    rw [Value.structs] at hi
    obtain ⟨x, hx, hi⟩ := List.mem_flatMap.mp hi
    obtain ⟨i, hr, wa, wb, hget⟩ := mapM_eq_ok_mem hitems hx
    obtain ⟨o, wc, ho, hget⟩ := Act.bind_eq_ok.mp hget
    obtain ⟨hoff, rfl⟩ := Act.ofChecked_eq_ok.mp ho
    obtain rfl := elementOffset_eq_ok hoff
    obtain ⟨hret, hsize, o, hhas, ha⟩ := c.structs_getField hget hi
    exact ⟨hret, hsize, _, .item (List.mem_range.mp hr) hhas, by omega⟩
  | .charArray n, name, offset, value, h, hi => by
    obtain ⟨bytes, w₁, -, h⟩ := Act.bind_eq_ok.mp h
    rw [structs_string h] at hi
    cases hi
  | .struct l, name, offset, value, h, hi => by
    obtain ⟨view, w₁, hview, h⟩ := Act.bind_eq_ok.mp h
    obtain ⟨rfl, -⟩ := Act.pure_eq_ok.mp h
    obtain ⟨hslice, -⟩ := Act.ofOutcome_eq_ok.mp hview
    obtain ⟨rfl, -⟩ := View.slice_eq_ok hslice
    rw [Value.structs] at hi
    obtain rfl := List.mem_singleton.mp hi
    exact ⟨rfl, rfl, 0, .self _, rfl⟩
  | .enumeration table, name, offset, value, h, hi => by
    obtain ⟨i, w₁, -, h⟩ := Act.bind_eq_ok.mp h
    cases hshown : Value.ofEnum? (some table) i with
    | none =>
      rw [hshown] at h
      exact absurd h Act.refuse_ne_ok
    | some x =>
      rw [hshown] at h
      obtain ⟨rfl, -⟩ := Act.pure_eq_ok.mp h
      obtain ⟨name, -, rfl⟩ := Option.map_eq_some_iff.mp hshown
      simp [Value.structs] at hi
  | .callback signature, name, offset, value, h, hi => by
    obtain ⟨address, w₁, -, h⟩ := Act.bind_eq_ok.mp h
    obtain ⟨rfl, -⟩ := Act.pure_eq_ok.mp h
    split at hi <;> simp [Value.structs] at hi

namespace Instance

variable {s n inner : Instance} {w w' : World} {value : Value} {name : String}

theorem field_eq_ok {f : Field} (h : n.field name w = (.ok f, w')) :
    n.layout.field? name = some f ∧ f ∈ n.layout.fields ∧ w = w' := by
  unfold field at h
  cases hf : n.layout.field? name with
  | none =>
    rw [hf] at h
    exact absurd h Act.refuse_ne_ok
  | some g =>
    rw [hf] at h
    obtain ⟨rfl, rfl⟩ := Act.pure_eq_ok.mp h
    exact ⟨rfl, List.mem_of_find?_eq_some hf, rfl⟩

/-- The array of a field is a view of the field. -/
theorem ofField_eq_ok {a : InlineArray} (h : InlineArray.ofField n name w = (.ok a, w')) :
    ∃ f, n.layout.field? name = some f ∧ f.ty.arrayParts? = some (a.component, a.length) ∧
      a.view = n.view ∧ a.offset = f.offset ∧ a.retention = n.retention := by
  obtain ⟨f, w₁, hf, hparts⟩ := Act.bind_eq_ok.mp h
  obtain ⟨hfield, -, rfl⟩ := field_eq_ok hf
  cases hty : f.ty.arrayParts? with
  | some parts =>
    rw [hty] at hparts
    obtain ⟨rfl, -⟩ := Act.pure_eq_ok.mp hparts
    exact ⟨f, hfield, hty, rfl, rfl, rfl⟩
  | none =>
    rw [hty] at hparts
    exact absurd hparts Act.refuse_ne_ok

/-- The structs in the value of a nested field are nested. -/
theorem Nested.get (hn : s.Nested n) (h : n.get name w = (.ok value, w'))
    (hi : inner ∈ value.structs) : s.Nested inner := by
  obtain ⟨f, w₁, hf, hget⟩ := Act.bind_eq_ok.mp h
  obtain ⟨-, hmem, rfl⟩ := field_eq_ok hf
  obtain ⟨hret, -, o, hhas, ha⟩ := f.ty.structs_getField hget hi
  obtain ⟨p, hp, hfield⟩ := hn.has_field hmem
  refine ⟨hret.trans hn.retention, p + o, hp.trans hhas, ?_⟩
  rw [ha, show n.view.address = n.address from rfl, hfield, Nat.add_assoc]

/-- The array of a nested field is nested. -/
theorem Nested.array (hn : s.Nested n) {a : InlineArray}
    (h : InlineArray.ofField n name w = (.ok a, w')) : s.NestedArray a := by
  obtain ⟨f, hf, hty, hview, hoffset, hret⟩ := ofField_eq_ok h
  obtain ⟨p, hp, hfield⟩ := hn.has_field (List.mem_of_find?_eq_some hf)
  refine ⟨hret.trans hn.retention, p, f.ty, hp, hty, ?_⟩
  rw [hview, hoffset]
  exact hfield

/-- The structs in an element of a nested array are nested. -/
theorem NestedArray.get {a : InlineArray} (ha : s.NestedArray a) {i : Nat} (hlt : i < a.length)
    (h : a.get i w = (.ok value, w')) (hi : inner ∈ value.structs) : s.Nested inner := by
  obtain ⟨o, w₁, ho, hget⟩ := Act.bind_eq_ok.mp h
  obtain ⟨hoff, rfl⟩ := Act.ofChecked_eq_ok.mp ho
  obtain rfl := elementOffset_eq_ok hoff
  rcases ha.has_element hlt with ⟨p, hp, hplace⟩ | hchar
  · obtain ⟨hret, -, o, hhas, haddr⟩ := a.component.structs_getField hget hi
    refine ⟨hret.trans ha.retention, p + o, hp.trans hhas, ?_⟩
    rw [haddr, hplace, Nat.add_assoc]
  · rw [hchar] at hget
    rw [View.structs_get hget] at hi
    cases hi

end Instance

/-! ## Writes through a struct -/

/-- A write through a struct or through the array of one of its fields. -/
inductive StructWrite where
  | put (n : Instance) (name : String) (value : Value)
  | element (a : InlineArray) (index : Nat) (value : Value)
  | clear (n : Instance)

namespace StructWrite

/-- What a write does. -/
def run : StructWrite → Act Unit
  | put n name value => n.put name value
  | element a index value => a.put index value
  | clear n => n.clear

/-- A write goes through `s`, or through a struct or an array inside it. -/
def Through (s : Instance) : StructWrite → Prop
  | put n _ _ => s.Nested n
  | element a index _ => s.NestedArray a ∧ index < a.length
  | clear n => s.Nested n

/-- A write puts a value into a type, at an offset of a view of a struct with a map. -/
inductive Puts : StructWrite → Ty → View → Nat → Nat → Value → Prop where
  | field {n : Instance} {name : String} {f : Field} (hf : n.layout.field? name = some f)
      (value : Value) : Puts (.put n name value) f.ty n.view n.retention f.offset value
  | element (a : InlineArray) (index : Nat) (value : Value) :
      Puts (.element a index value) a.component a.view a.retention
        (index * a.component.size + a.offset) value

/-- A write clears a struct, is refused before it has done anything, or puts a value. -/
theorem run_cases (op : StructWrite) :
    (∃ n, op = .clear n) ∨ (∃ f, op.run = Act.refuse f) ∨
      ∃ t v retention offset value, op.Puts t v retention offset value ∧
        op.run = t.putField v retention offset value := by
  cases op with
  | clear n => exact Or.inl ⟨n, rfl⟩
  | put n name value =>
    refine Or.inr ?_
    cases hf : n.layout.field? name with
    | none =>
      have hrun : ∃ f, n.put name value = Act.refuse f := by
        rw [Instance.put, Instance.field, hf]
        exact ⟨_, Act.refuse_bind _ _⟩
      exact Or.inl hrun
    | some f =>
      have hrun : n.put name value = f.ty.putField n.view n.retention f.offset value := by
        rw [Instance.put, Instance.field, hf, pure_bind]
      exact Or.inr ⟨_, _, _, _, _, .field hf value, hrun⟩
  | element a index value =>
    refine Or.inr ?_
    cases ho : elementOffset a.view a.offset a.component index with
    | error f =>
      have hrun : a.put index value = Act.refuse f := by
        rw [InlineArray.put, ho]
        rfl
      exact Or.inl ⟨_, hrun⟩
    | ok o =>
      obtain rfl := elementOffset_eq_ok ho
      have hrun : a.put index value = a.component.putField a.view a.retention
          (index * a.component.size + a.offset) value := by
        rw [InlineArray.put, ho]
        rfl
      exact Or.inr ⟨_, _, _, _, _, .element a index value, hrun⟩

/-- What is put stands inside the struct, unless it is a single character. -/
theorem Puts.place {op : StructWrite} {s : Instance} {t : Ty} {v : View} {retention offset : Nat}
    {value : Value} (h : op.Puts t v retention offset value) (hop : op.Through s) :
    retention = s.retention ∧ ((∃ o, (Ty.struct s.layout).Has o t ∧
      v.address + offset = s.address + o) ∨ t = .char) := by
  cases h with
  | field hf _ =>
    exact ⟨hop.retention, Or.inl (hop.has_field (List.mem_of_find?_eq_some hf))⟩
  | element a index _ => exact ⟨hop.1.retention, hop.1.has_element hop.2⟩

theorem Puts.inside {op : StructWrite} {s : Instance} {t : Ty} {v : View} {retention offset : Nat}
    {value : Value} (h : op.Puts t v retention offset value) (hb : Ty.Built (.struct s.layout))
    (hop : op.Through s) : s.address ≤ v.address + offset ∧
      v.address + offset + t.size ≤ s.address + s.size := by
  cases h with
  | field hf _ => exact Instance.Nested.field_inside hb hop (List.mem_of_find?_eq_some hf)
  | element a index _ => exact hop.1.element_inside hb hop.2

/-- A write that succeeds has put its value. -/
theorem Puts.putField_eq_ok {op : StructWrite} {t : Ty} {v : View} {retention offset : Nat}
    {value : Value} (hputs : op.Puts t v retention offset value) {w w' : World}
    (h : op.run w = (.ok (), w')) : t.putField v retention offset value w = (.ok (), w') := by
  cases hputs with
  | @field n name f hf value =>
    obtain ⟨g, w₁, hfield, hput⟩ := Act.bind_eq_ok.mp h
    obtain ⟨hg, -, rfl⟩ := Instance.field_eq_ok hfield
    obtain rfl := Option.some.inj (hf.symm.trans hg)
    exact hput
  | element a index value =>
    obtain ⟨o, w₁, ho, hput⟩ := Act.bind_eq_ok.mp h
    obtain ⟨hoff, rfl⟩ := Act.ofChecked_eq_ok.mp ho
    obtain rfl := elementOffset_eq_ok hoff
    exact hput

/-- The map of the struct that a write goes through. -/
def map : StructWrite → Nat
  | put n _ _ => n.retention
  | element a _ _ => a.retention
  | clear n => n.retention

/-- The references that the value of a write holds. -/
def refs : StructWrite → List Ref
  | put _ _ value => value.refs
  | element _ _ value => value.refs
  | clear _ => []

theorem Puts.map_eq {op : StructWrite} {t : Ty} {v : View} {retention offset : Nat} {value : Value}
    (h : op.Puts t v retention offset value) : op.map = retention ∧ op.refs = value.refs := by
  cases h <;> exact ⟨rfl, rfl⟩

theorem Through.map_eq {op : StructWrite} {s : Instance} (h : op.Through s) :
    op.map = s.retention := by
  cases op with
  | put n name value => exact Instance.Nested.retention h
  | element a index value => exact h.1.retention
  | clear n => exact Instance.Nested.retention h

end StructWrite

/-- The address that a value stands for as a function pointer, and the callback that has to be kept
as long as it is stored. -/
def pointee (signature : Signature) : Value → Act (Nat × Option Nat)
  | .proc closure => do
    let id ← makeCallback signature closure
    let address ← Act.view fun w => w.callbackAddress id
    pure (address, some id)
  | .function f => pure (f.address, f.callback)
  | other => do
    let address ← Act.ofChecked other.toAddress
    pure (address, none)

theorem putFunction_eq (v : View) (retention offset : Nat) (signature : Signature) (value : Value) :
    putFunction v retention offset signature value = (do
      let (address, callback) ← pointee signature value
      Act.write fun m => m.writeAddress v offset address
      retain retention (wrap (v.address + offset)) callback) := by
  cases value <;> simp only [putFunction, pointee, bind_assoc, pure_bind]

/-- A function pointer is refused before the map has changed, or put and seen to in the map. -/
theorem putFunction_cases {v : View} {retention offset : Nat} {signature : Signature}
    {value : Value} {w w' : World} {o : Outcome Unit}
    (h : putFunction v retention offset signature value w = (o, w')) :
    (∃ e r, o = .error e ∧ pointee signature value w = (r, w')) ∨
      ∃ p w₁ w₂, pointee signature value w = (.ok p, w₁) ∧
        Act.write (fun m => m.writeAddress v offset p.1) w₁ = (.ok (), w₂) ∧ o = .ok () ∧
        w' = (retain retention (wrap (v.address + offset)) p.2 w₂).2 := by
  rw [putFunction_eq] at h
  rcases hp : pointee signature value w with ⟨e | p, w₁⟩
  · rw [Act.bind_error hp, Prod.mk.injEq] at h
    obtain ⟨rfl, rfl⟩ := h
    exact Or.inl ⟨e, _, rfl, rfl⟩
  rw [Act.bind_ok hp] at h
  dsimp only at h
  rcases hw : Act.write (fun m => m.writeAddress v offset p.1) w₁ with ⟨e | ⟨⟩, w₂⟩
  · rw [Act.bind_error hw, Prod.mk.injEq, Act.write_eq_error hw] at h
    obtain ⟨rfl, rfl⟩ := h
    exact Or.inl ⟨e, _, rfl, rfl⟩
  · rw [Act.bind_ok hw] at h
    obtain ⟨rfl, rfl⟩ := Prod.mk.inj h
    exact Or.inr ⟨p, w₁, w₂, rfl, hw, rfl, rfl⟩

end ForeignCall
