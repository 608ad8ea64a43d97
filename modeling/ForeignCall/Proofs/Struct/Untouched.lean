import ForeignCall.Proofs.Layout.Rule
import ForeignCall.Proofs.Struct.RoundTrip
import ForeignCall.Proofs.Struct.Slots

/-!
# Fields that a put does not touch

Two worlds are alike to a reader of some bytes when they have the same bytes there and the same
owners alive, and have made their strings in step (`World.Alike`). What reads nothing else comes to
the same in both (`Act.Within`), and a field reads nothing but its own bytes, apart from the texts
that the addresses in it point at (`Ty.within_getField`).

A put leaves the strings and the owners as they are, and all old bytes but those of its field. The
fields of a layout that keeps none at an offset of its own stand apart (`Layout.Sequential.apart`).

Main statement: `Instance.put_untouched`.
-/

namespace ForeignCall

/-! ## Worlds that look the same -/

/-- Two worlds that look the same to a reader of the `n` bytes from `a` on. Both have made as many
strings; if `texts` is set, the strings made since there were `count` of them have the same bytes.
-/
structure World.Alike (w u : World) (a n count : Nat) (texts : Bool) : Prop where
  bytes : ∀ c, a ≤ c → c < a + n → u.memory.heap.get c = w.memory.heap.get c
  old : a + n ≤ w.memory.heap.next ∧ a + n ≤ u.memory.heap.next
  live : ∀ o, u.memory.isLive o = w.memory.isLive o
  strings : u.strings.size = w.strings.size
  placed : ∀ (id : Nat) (s : ManagedString), count ≤ id →
    (w.strings[id]? = some s → s.address + s.length ≤ w.memory.heap.next) ∧
      (u.strings[id]? = some s → s.address + s.length ≤ u.memory.heap.next)
  texts : texts = true → ∀ id, count ≤ id → u.stringBytes id = w.stringBytes id

namespace World

variable {w u : World} {a n count : Nat} {texts : Bool}

/-- A string that is placed keeps its bytes while another one is made. -/
theorem stringBytes_newString_of_ne {bytes : List UInt8} {id : Nat} (hne : id ≠ w.strings.size)
    (hp : ∀ s, w.strings[id]? = some s → s.address + s.length ≤ w.memory.heap.next) :
    (w.newString bytes).2.stringBytes id = w.stringBytes id := by
  have hget : (w.newString bytes).2.strings[id]? = w.strings[id]? := by
    show (w.strings.push _)[id]? = _
    rw [Array.getElem?_push, if_neg hne]
  unfold stringBytes
  rw [hget]
  cases hs : w.strings[id]? with
  | none => rfl
  | some s => exact (w.extends_newString bytes).load (hp s hs)

theorem placed_newString {bytes : List UInt8} {id : Nat} {s : ManagedString}
    (hp : w.strings[id]? = some s → s.address + s.length ≤ w.memory.heap.next)
    (hs : (w.newString bytes).2.strings[id]? = some s) :
    s.address + s.length ≤ (w.newString bytes).2.memory.heap.next := by
  have hn := w.next_newString bytes
  change (w.strings.push _)[id]? = some s at hs
  rw [Array.getElem?_push] at hs
  split at hs
  · rw [← Option.some.inj hs]
    exact Nat.le_of_lt hn
  · exact Nat.le_trans (hp hs) (by omega)

/-- Worlds stay alike while both make a string, which has to be the same one if texts count. -/
theorem Alike.newString (h : w.Alike u a n count texts) {bytes bytes' : List UInt8}
    (hb : texts = true → bytes' = bytes) :
    (w.newString bytes).2.Alike (u.newString bytes').2 a n count texts where
  bytes := by
    intro c hc hc'
    rw [(u.extends_newString bytes').bytes c (by have := h.old; omega),
      (w.extends_newString bytes).bytes c (by have := h.old; omega)]
    exact h.bytes c hc hc'
  old := ⟨Nat.le_trans h.old.1 (w.extends_newString bytes).next,
    Nat.le_trans h.old.2 (u.extends_newString bytes').next⟩
  live := h.live
  strings := by
    show (u.strings.push _).size = (w.strings.push _).size
    rw [Array.size_push, Array.size_push, h.strings]
  placed := fun id s hid =>
    ⟨placed_newString (h.placed id s hid).1, placed_newString (h.placed id s hid).2⟩
  texts := by
    intro ht id hid
    by_cases hne : id = w.strings.size
    · have hw := w.stringBytes_newString bytes
      have hu := u.stringBytes_newString bytes'
      rw [show (w.newString bytes).1 = w.strings.size from rfl, ← hne] at hw
      rw [show (u.newString bytes').1 = u.strings.size from rfl, h.strings, ← hne] at hu
      rw [hw, hu, hb ht]
    · rw [stringBytes_newString_of_ne (by rw [h.strings]; exact hne)
          fun s => (h.placed id s hid).2,
        stringBytes_newString_of_ne hne fun s => (h.placed id s hid).1]
      exact h.texts ht id hid

/-! ## Reading what is alike -/

variable {v : View} {offset size : Nat}

theorem Alike.check (h : w.Alike u a n count texts) (mode : Mode) :
    u.memory.check v offset size mode = w.memory.check v offset size mode := by
  unfold Memory.check
  simp only [h.live]

/-- Bytes that are the same are read as the same. -/
theorem Alike.readBytes (h : w.Alike u a n count texts) (hword : a + n ≤ wordLimit)
    (hlow : a ≤ v.address + offset) (hhigh : v.address + offset + size ≤ a + n) :
    u.memory.readBytes v offset size = w.memory.readBytes v offset size := by
  unfold Memory.readBytes
  rw [h.check]
  cases hc : w.memory.check v offset size .read with
  | error f => rfl
  | ok address =>
    have hload : u.memory.heap.load address size = w.memory.heap.load address size := by
      rw [(Memory.check_eq_ok hc).2]
      cases size with
      | zero => rfl
      | succ size =>
        rw [wrap, Nat.mod_eq_of_lt (by omega)]
        exact Heap.load_congr fun c h1 h2 => h.bytes c (by omega) (by omega)
    show Except.ok _ = Except.ok _
    rw [hload]

end World

/-! ## Operations that read a place -/

namespace Act

variable {α β : Type} {a n : Nat} {texts : Bool}

/-- An operation that looks at nothing but the `n` bytes from `a` on. If `texts` is set, neither
does it for the strings that it makes. -/
def Within (x : Act α) (a n : Nat) (texts : Bool) : Prop :=
  ∀ (w u : World) (count : Nat), w.Alike u a n count texts →
    (x u).1 = (x w).1 ∧ (x w).2.Alike (x u).2 a n count texts

theorem Within.bind {x : Act α} {f : α → Act β} (hx : x.Within a n texts)
    (hf : ∀ r, (f r).Within a n texts) : (x >>= f).Within a n texts := by
  intro w u count h
  obtain ⟨heq, hr⟩ := hx w u count h
  rcases hw : x w with ⟨o, w'⟩
  rcases hu : x u with ⟨o', u'⟩
  rw [hw, hu] at heq hr
  obtain rfl : o' = o := heq
  cases o' with
  | error e =>
    rw [bind_error hw, bind_error hu]
    exact ⟨rfl, hr⟩
  | ok r =>
    rw [bind_ok hw, bind_ok hu]
    exact hf r w' u' count hr

theorem within_pure (r : α) : (pure r : Act α).Within a n texts := fun _ _ _ h => ⟨rfl, h⟩

theorem within_refuse (f : Fault) : (refuse f : Act α).Within a n texts := fun _ _ _ h => ⟨rfl, h⟩

theorem within_ofOutcome (o : Outcome α) : (ofOutcome o).Within a n texts :=
  fun _ _ _ h => ⟨rfl, h⟩

theorem within_read {f : Memory → Checked α}
    (hf : ∀ (w u : World) (count : Nat), w.Alike u a n count texts → f u.memory = f w.memory) :
    (read f).Within a n texts :=
  fun w u count h => ⟨congrArg Checked.outcome (hf w u count h), h⟩

theorem within_mapM {l : List α} {f : α → Act β} (hf : ∀ r ∈ l, (f r).Within a n texts) :
    (l.mapM f).Within a n texts := by
  induction l with
  | nil =>
    rw [List.mapM_nil]
    exact within_pure []
  | cons r rest ih =>
    rw [List.mapM_cons]
    exact (hf r List.mem_cons_self).bind fun _ =>
      (ih fun r' hr => hf r' (List.mem_cons_of_mem _ hr)).bind fun _ => within_pure _

/-- A string is made in step. -/
theorem within_string (bytes : List UInt8) : (string bytes).Within a n texts := by
  intro w u count h
  refine ⟨?_, h.newString fun _ => rfl⟩
  show Except.ok (Value.str u.strings.size) = Except.ok (Value.str w.strings.size)
  rw [h.strings]

/-- The text at an address need not be the same. -/
theorem within_stringFrom (address : Nat) : (stringFrom address).Within a n false := by
  intro w u count h
  by_cases h0 : address = 0
  · subst h0
    exact ⟨rfl, h⟩
  · rw [stringFrom_of_ne_zero h0, stringFrom_of_ne_zero h0]
    refine ⟨?_, h.newString fun ht => by cases ht⟩
    show Except.ok (Value.str u.strings.size) = Except.ok (Value.str w.strings.size)
    rw [h.strings]

end Act

/-! ## Reading a field -/

/-- Whether reading a type follows an address to a text. -/
def Ty.followsText : Ty → Bool
  | .builtin .string => true
  | .array c _ => c.followsText
  | _ => false

section

variable {a n : Nat} {texts : Bool} {v : View} {offset : Nat}

theorem within_readBits {α : Type} {width : Nat} {f : Nat → Checked α} (hword : a + n ≤ wordLimit)
    (hlow : a ≤ v.address + offset) (hhigh : v.address + offset + width ≤ a + n) :
    (Act.read fun m => m.readBits v offset width >>= f).Within a n texts := by
  refine Act.within_read fun w u count h => ?_
  simp only [Memory.readBits, h.readBytes hword hlow hhigh]

theorem within_plainBits {width : Nat} (hword : a + n ≤ wordLimit) (hlow : a ≤ v.address + offset)
    (hhigh : v.address + offset + width ≤ a + n) :
    (Act.read fun m => m.readBits v offset width).Within a n texts := by
  have hread : (Act.read fun m => m.readBits v offset width >>= pure).Within a n texts :=
    within_readBits hword hlow hhigh
  simp only [bind_pure] at hread
  exact hread

/-- A field looks at nothing but its own bytes, unless texts are behind the addresses in it. -/
theorem Ty.within_getField (hword : a + n ≤ wordLimit) (v : View) (retention : Nat) :
    ∀ (t : Ty) (name : String) (offset : Nat), a ≤ v.address + offset →
      v.address + offset + t.size ≤ a + n →
      (t.getField v retention name offset).Within a n (!t.followsText)
  | .builtin b, name, offset, hlow, hhigh => by
    cases b with
    | int k => exact (within_readBits hword hlow hhigh).bind fun _ => Act.within_pure _
    | float k => exact (within_plainBits hword hlow hhigh).bind fun _ => Act.within_pure _
    | bool => exact (within_readBits hword hlow hhigh).bind fun _ => Act.within_pure _
    | pointer r => exact (within_readBits hword hlow hhigh).bind fun _ => Act.within_pure _
    | string =>
      exact (within_plainBits hword hlow hhigh).bind fun address => Act.within_stringFrom address
    | void => exact Act.within_refuse _
    | varargs => exact Act.within_refuse _
  | .array c k, name, offset, hlow, hhigh => by
    refine (Act.within_mapM fun i hi => ?_).bind fun _ => Act.within_pure _
    have hmul : i * c.size + c.size ≤ c.size * k := element_le (List.mem_range.mp hi)
    change v.address + offset + c.size * k ≤ a + n at hhigh
    cases ho : elementOffset v offset c i with
    | error f => exact Act.within_refuse f
    | ok o =>
      obtain rfl := elementOffset_eq_ok ho
      exact c.within_getField hword v retention _ _ (by omega) (by omega)
  | .charArray k, name, offset, hlow, hhigh => by
    refine Act.Within.bind (Act.within_read fun w u count h => ?_) fun bytes =>
      Act.within_string bytes
    change v.address + offset + k ≤ a + n at hhigh
    simp only [Memory.readString, Memory.stringLimit]
    rw [h.readBytes hword hlow hhigh]
  | .struct l, name, offset, _, _ =>
    (Act.within_ofOutcome _).bind fun _ => Act.within_pure _
  | .enumeration table, name, offset, hlow, hhigh => by
    refine (within_readBits hword hlow hhigh).bind fun i => ?_
    split
    · exact Act.within_pure _
    · exact Act.within_refuse _
  | .callback signature, name, offset, hlow, hhigh =>
    (within_plainBits hword hlow hhigh).bind fun _ => Act.within_pure _

end

/-! ## Strings that a reading makes -/

/-- The strings in a value. -/
def Value.strings : Value → List Nat
  | .str id => [id]
  | .array items => items.flatMap Value.strings
  | _ => []

/-- A step from which only strings can come that were not there before. -/
def Act.MakesStrings (x : Act Value) : Prop :=
  ∀ (w w' : World) (value : Value), x w = (.ok value, w') →
    w.strings.size ≤ w'.strings.size ∧ ∀ id ∈ value.strings, w.strings.size ≤ id

namespace Act

variable {α : Type}

theorem makesStrings_string (bytes : List UInt8) : (string bytes).MakesStrings := by
  intro w w' value h
  obtain ⟨rfl, rfl⟩ : Value.str w.strings.size = value ∧ (w.newString bytes).2 = w' := by
    have h' := Prod.mk.inj h
    exact ⟨Except.ok.inj h'.1, h'.2⟩
  refine ⟨?_, ?_⟩
  · show _ ≤ (w.strings.push _).size
    rw [Array.size_push]
    exact Nat.le_succ _
  · intro id hid
    rw [Value.strings, List.mem_singleton] at hid
    exact Nat.le_of_eq hid.symm

/-- What leaves the world as it is and answers with no string. -/
theorem makesStrings_of_eq {x : Act Value}
    (h : ∀ w w' value, x w = (.ok value, w') → w' = w ∧ value.strings = []) : x.MakesStrings := by
  intro w w' value hx
  obtain ⟨rfl, hs⟩ := h w w' value hx
  rw [hs]
  exact ⟨Nat.le_refl _, by simp⟩

theorem makesStrings_stringFrom (address : Nat) : (stringFrom address).MakesStrings := by
  intro w w' value h
  obtain ⟨text, w₁, htext, h⟩ := bind_eq_ok.mp h
  obtain ⟨-, rfl⟩ := view_eq_ok.mp htext
  cases text with
  | none =>
    obtain ⟨rfl, rfl⟩ := pure_eq_ok.mp h
    exact ⟨Nat.le_refl _, by simp [Value.strings]⟩
  | some bytes => exact makesStrings_string bytes w w' value h

/-- A look at memory before it makes no difference. -/
theorem MakesStrings.after_read {f : Memory → Checked α} {g : α → Act Value}
    (hg : ∀ r, (g r).MakesStrings) : (read f >>= g).MakesStrings := by
  intro w w' value h
  obtain ⟨r, w₁, hr, h⟩ := bind_eq_ok.mp h
  obtain ⟨-, rfl⟩ := read_eq_ok.mp hr
  exact hg r w w' value h

/-- An answer that is no string. -/
theorem makesStrings_pure {value : Value} (h : value.strings = []) :
    (pure value : Act Value).MakesStrings :=
  makesStrings_of_eq fun w w' v hv => by
    obtain ⟨rfl, rfl⟩ := pure_eq_ok.mp hv
    exact ⟨rfl, h⟩

theorem makesStrings_mapM {l : List α} {f : α → Act Value} (hf : ∀ r ∈ l, (f r).MakesStrings)
    {w w' : World} {values : List Value} (h : l.mapM f w = (.ok values, w')) :
    w.strings.size ≤ w'.strings.size ∧
      ∀ value ∈ values, ∀ id ∈ value.strings, w.strings.size ≤ id := by
  induction l generalizing w values with
  | nil =>
    rw [List.mapM_nil] at h
    obtain ⟨rfl, rfl⟩ := pure_eq_ok.mp h
    exact ⟨Nat.le_refl _, by simp⟩
  | cons r rest ih =>
    rw [List.mapM_cons] at h
    obtain ⟨value, w₁, hvalue, h⟩ := bind_eq_ok.mp h
    obtain ⟨others, w₂, hothers, h⟩ := bind_eq_ok.mp h
    obtain ⟨rfl, rfl⟩ := pure_eq_ok.mp h
    obtain ⟨hsize, hids⟩ := hf r List.mem_cons_self w w₁ value hvalue
    obtain ⟨hsize', hids'⟩ := ih (fun r' hr => hf r' (List.mem_cons_of_mem _ hr)) hothers
    refine ⟨Nat.le_trans hsize hsize', ?_⟩
    intro v hv id hid
    rcases List.mem_cons.mp hv with rfl | hv
    · exact hids id hid
    · exact Nat.le_trans hsize (hids' v hv id hid)

end Act

/-- Every string in the value of a field has been made by reading it. -/
theorem Ty.makesStrings_getField (v : View) (retention : Nat) : ∀ (t : Ty) (name : String)
    (offset : Nat), (t.getField v retention name offset).MakesStrings
  | .builtin b, name, offset => by
    cases b with
    | int k => exact .after_read fun _ => Act.makesStrings_pure (by simp [Value.strings])
    | float k => exact .after_read fun _ => Act.makesStrings_pure (by simp [Value.strings])
    | bool => exact .after_read fun _ => Act.makesStrings_pure (by simp [Value.strings])
    | pointer r => exact .after_read fun _ => Act.makesStrings_pure (by simp [Value.strings])
    | string => exact .after_read fun address => Act.makesStrings_stringFrom address
    | void => exact fun w w' value h => absurd h Act.refuse_ne_ok
    | varargs => exact fun w w' value h => absurd h Act.refuse_ne_ok
  | .array c k, name, offset => by
    intro w w' value h
    obtain ⟨items, w₁, hitems, h⟩ := Act.bind_eq_ok.mp h
    obtain ⟨rfl, rfl⟩ := Act.pure_eq_ok.mp h
    obtain ⟨hsize, hids⟩ := Act.makesStrings_mapM (fun i _ wa wb x hx => by
      obtain ⟨o, wc, ho, hx⟩ := Act.bind_eq_ok.mp hx
      obtain ⟨-, rfl⟩ := Act.ofChecked_eq_ok.mp ho
      exact c.makesStrings_getField v retention _ o wa wb x hx) hitems
    refine ⟨hsize, ?_⟩
    intro id hid
    rw [Value.strings] at hid
    obtain ⟨x, hx, hid⟩ := List.mem_flatMap.mp hid
    exact hids x hx id hid
  | .charArray k, name, offset => .after_read fun bytes => Act.makesStrings_string bytes
  | .struct l, name, offset => Act.makesStrings_of_eq fun w w' value h => by
    obtain ⟨view, w₁, hview, h⟩ := Act.bind_eq_ok.mp h
    obtain ⟨-, rfl⟩ := Act.ofOutcome_eq_ok.mp hview
    obtain ⟨rfl, rfl⟩ := Act.pure_eq_ok.mp h
    exact ⟨rfl, by simp [Value.strings]⟩
  | .enumeration table, name, offset => by
    refine .after_read fun i => ?_
    cases hshown : Value.ofEnum? (some table) i with
    | none => exact fun w w' value h => absurd h Act.refuse_ne_ok
    | some x =>
      obtain ⟨symbol, -, rfl⟩ := Option.map_eq_some_iff.mp hshown
      exact Act.makesStrings_pure (by simp [Value.strings])
  | .callback signature, name, offset => by
    refine .after_read fun address => Act.makesStrings_pure ?_
    split <;> simp [Value.strings]

/-- Reading a value of a type comes to the same in two worlds. The strings in the value have the
same bytes as well, unless they are texts behind addresses. -/
structure Act.ReadsSame (x : Act Value) (t : Ty) (w u : World) : Prop where
  outcome : (x u).1 = (x w).1
  texts : t.followsText = false → ∀ (value : Value) (w' : World), x w = (.ok value, w') →
    ∀ id ∈ value.strings, (x u).2.stringBytes id = w'.stringBytes id

/-- A field whose bytes are the same reads the same. -/
theorem Ty.readsSame_getField {v : View} {retention offset : Nat} {name : String} {w u : World}
    (t : Ty) (hword : v.address + offset + t.size ≤ wordLimit)
    (hold : v.address + offset + t.size ≤ w.memory.heap.next) (hu : w.Steady u)
    (hb : ∀ i < t.size, u.memory.heap.get (v.address + offset + i) =
      w.memory.heap.get (v.address + offset + i)) :
    (t.getField v retention name offset).ReadsSame t w u := by
  have hnone : ∀ id, w.strings.size ≤ id → w.strings[id]? = none := fun id hid =>
    Array.getElem?_eq_none hid
  have halike : w.Alike u (v.address + offset) t.size w.strings.size (!t.followsText) := by
    refine ⟨fun c h1 h2 => ?_, ⟨hold, Nat.le_trans hold hu.next⟩, hu.live, by rw [hu.strings],
      fun id s hid => ?_, fun _ id hid => ?_⟩
    · have hc := hb (c - (v.address + offset)) (by omega)
      rwa [Nat.add_sub_cancel' h1] at hc
    · rw [hu.strings, hnone id hid]
      simp
    · unfold World.stringBytes
      rw [hu.strings, hnone id hid]
  obtain ⟨heq, hafter⟩ := t.within_getField hword v retention name offset (Nat.le_refl _)
    (Nat.le_refl _) w u _ halike
  refine ⟨heq, fun hf value w' hx id hid => ?_⟩
  have hnew := (t.makesStrings_getField v retention name offset w w' value hx).2 id hid
  have htexts := hafter.texts (by rw [hf]; rfl) id hnew
  rwa [hx] at htexts

/-! ## Fields that stand apart -/

/-- A layout that comes from a plan of a struct that keeps no field at an offset of its own. -/
def Layout.Sequential (l : Layout) : Prop :=
  ∃ plan : LayoutPlan, plan.build = .ok l ∧ plan.isUnion = false ∧
    ∀ d ∈ plan.declarations, d.offset = none

/-- Two fields of such a layout have no byte in common. -/
theorem Layout.Sequential.apart {l : Layout} (h : l.Sequential)
    (hpos : ∀ f ∈ l.fields, 0 < f.ty.alignment) {name other : String} {f g : Field}
    (hf : l.field? name = some f) (hg : l.field? other = some g) (hne : other ≠ name) :
    f.offset + f.ty.size ≤ g.offset ∨ g.offset + g.ty.size ≤ f.offset := by
  obtain ⟨plan, hbuild, hu, hnone⟩ := h
  have hd := (plan.scansTo_of_build (plan.aligned_of_build hbuild hpos) hbuild).describes
  have hname : f.name ≠ g.name := by
    have hf' := List.find?_some hf
    have hg' := List.find?_some hg
    rw [beq_iff_eq] at hf' hg'
    rw [hf', hg']
    exact hne.symm
  obtain ⟨i, hi, rfl⟩ := List.getElem_of_mem (List.mem_of_find?_eq_some hf)
  obtain ⟨j, hj, rfl⟩ := List.getElem_of_mem (List.mem_of_find?_eq_some hg)
  have hlen := hd.length
  rcases Nat.lt_trichotomy i j with hij | rfl | hij
  · exact Or.inl (hd.apart hu i j hij (by omega) hj (hnone _ (List.getElem_mem _)))
  · exact absurd rfl hname
  · exact Or.inr (hd.apart hu j i hij (by omega) hi (hnone _ (List.getElem_mem _)))

/-! ## What a put leaves as it is -/

namespace Instance

/-- A step has left alone every old byte but `n` bytes of the struct from `o` on. -/
structure TouchesOnly (s : Instance) (o n : Nat) (w w' : World) : Prop where
  inside : o + n ≤ s.size
  keeps : w.Keeps w' (Act.Outside (s.address + o) n)

/-- The part of a type at an offset of the struct has kept its bytes, and reading it comes to what
it came to. -/
structure Unchanged (s : Instance) (o : Nat) (t : Ty) (x : Act Value) (w w' : World) : Prop where
  bytes : w'.memory.heap.load (s.address + o) t.size = w.memory.heap.load (s.address + o) t.size
  reads : x.ReadsSame t w w'

/-- Every field but the one of a name is unchanged. -/
def KeepsOthers (s : Instance) (name : String) (w w' : World) : Prop :=
  ∀ (other : String) (g : Field), other ≠ name → s.layout.field? other = some g →
    s.Unchanged g.offset g.ty (s.get other) w w'

variable {s : Instance} {w w' : World}

/-- What stands outside of the bytes that a put has touched is unchanged. -/
theorem TouchesOnly.unchanged {o n p : Nat} {t : Ty} (h : s.TouchesOnly o n w w')
    (hold : s.address + s.size ≤ w.memory.heap.next) (hn : w'.memory.heap.next ≤ wordLimit)
    (hsteady : w.Steady w') (hp : p + t.size ≤ s.size) (ha : p + t.size ≤ o ∨ o + n ≤ p)
    (name : String) : s.Unchanged p t (t.getField s.view s.retention name p) w w' := by
  have hbytes : ∀ i < t.size, w'.memory.heap.get (s.address + p + i) =
      w.memory.heap.get (s.address + p + i) := by
    intro i hi
    refine h.keeps _ (Or.inl (by omega)) ?_
    rcases ha with ha | ha
    · exact Or.inl (by omega)
    · exact Or.inr (by omega)
  have hnext := hsteady.next
  have hview : s.view.address = s.address := rfl
  exact ⟨Heap.load_shift hbytes, t.readsSame_getField (by omega) (by omega) hsteady hbytes⟩

/-- In a layout without offsets of its own the other fields are outside. -/
theorem TouchesOnly.keepsOthers {o n : Nat} {name : String} {f : Field}
    (h : s.TouchesOnly o n w w') (hb : Ty.Built (.struct s.layout)) (hseq : s.layout.Sequential)
    (hold : s.address + s.size ≤ w.memory.heap.next) (hn : w'.memory.heap.next ≤ wordLimit)
    (hsteady : w.Steady w') (hf : s.layout.field? name = some f) (ho : f.offset ≤ o)
    (hend : o + n ≤ f.offset + f.ty.size) : s.KeepsOthers name w w' := by
  intro other g hne hg
  have hmem : g ∈ s.layout.fields := List.mem_of_find?_eq_some hg
  have hin : g.offset + g.ty.size ≤ s.size := by
    cases hb with
    | struct hplan _ => exact LayoutPlan.field_inside hplan hmem
  have hapart := hseq.apart (fun f hm => (built_field hb hm).alignment_pos) hf hg hne
  have hget : s.get other = g.ty.getField s.view s.retention g.name g.offset := by
    unfold get
    rw [field_eq hg, pure_bind]
    rfl
  rw [hget]
  exact h.unchanged hold hn hsteady hin (by omega) g.name

/-- An element of the array of a field, and where it stands. -/
structure HasElement (s : Instance) (a : InlineArray) (f : Field) (i : Nat) : Prop where
  inside : f.offset + f.ty.size ≤ s.size
  element : i * a.component.size + a.component.size ≤ f.ty.size
  offset : elementOffset a.view a.offset a.component i = .ok (i * a.component.size + f.offset)

theorem hasElement (hb : Ty.Built (.struct s.layout)) {name : String} {a : InlineArray} {f : Field}
    (hf : s.layout.field? name = some f) (hparts : f.ty.arrayParts? = some (a.component, a.length))
    (hoffset : a.offset = f.offset) {i : Nat} (hi : i < a.length) : s.HasElement a f i := by
  have hin : f.offset + f.ty.size ≤ s.size ∧ s.size < wordLimit := by
    cases hb with
    | struct hplan hfields =>
      exact ⟨LayoutPlan.field_inside hplan (List.mem_of_find?_eq_some hf),
        LayoutPlan.size_lt_of_build hplan hfields⟩
  have hmul := @element_le i a.length a.component.size hi
  rw [Ty.size_arrayParts hparts] at hmul
  refine ⟨hin.1, hmul, ?_⟩
  rw [elementOffset_eq (by omega), hoffset]

/-- Two elements of an array have no byte in common. -/
theorem element_apart (size : Nat) {i j : Nat} (hne : j ≠ i) :
    j * size + size ≤ i * size ∨ i * size + size ≤ j * size := by
  rw [← Nat.succ_mul, ← Nat.succ_mul]
  rcases Nat.lt_or_gt_of_ne hne with h | h
  · exact Or.inl (Nat.mul_le_mul_right _ h)
  · exact Or.inr (Nat.mul_le_mul_right _ h)

/-- What holds after one field has been put. -/
theorem put_eq_ok (hb : Ty.Built (.struct s.layout)) (hs : s.address + s.size ≤ wordLimit)
    {name : String} {value : Value} (h : s.put name value w = (.ok (), w'))
    (hn : w'.memory.heap.next ≤ wordLimit) : ∃ f, s.layout.field? name = some f ∧
      s.TouchesOnly f.offset f.ty.size w w' ∧ w.Steady w' := by
  obtain ⟨f, w₁, hf, hput⟩ := Act.bind_eq_ok.mp h
  obtain ⟨hfield, hmem, rfl⟩ := field_eq_ok hf
  have hin := (Nested.self s).field_inside hb hmem
  have hview : s.view.address = s.address := rfl
  refine ⟨f, hfield, ⟨by omega, ?_⟩, (f.ty.steady_putField s.retention s.view _ value).of_eq hput⟩
  exact (f.ty.spares_putField s.retention s.view f.offset value).of_eq (by omega) hput hn

/-- What holds after one element has been put. -/
theorem put_element_eq_ok (hs : s.address + s.size ≤ wordLimit) {a : InlineArray} {f : Field}
    {i : Nat} (he : s.HasElement a f i) (hview : a.view = s.view) {value : Value}
    (h : a.put i value w = (.ok (), w')) (hn : w'.memory.heap.next ≤ wordLimit) :
    s.TouchesOnly (f.offset + i * a.component.size) a.component.size w w' ∧ w.Steady w' := by
  have hin := he.inside
  have hele := he.element
  have hput : a.put i value =
      a.component.putField a.view a.retention (i * a.component.size + f.offset) value := by
    rw [InlineArray.put, he.offset]
    rfl
  rw [hput] at h
  have hplace : a.view.address + (i * a.component.size + f.offset) =
      s.address + (f.offset + i * a.component.size) := by
    rw [hview, Nat.add_comm f.offset]
    rfl
  have hspares := a.component.spares_putField a.retention a.view
    (i * a.component.size + f.offset) value
  rw [hplace] at hspares
  exact ⟨⟨by omega, hspares.of_eq (by omega) h hn⟩,
    (a.component.steady_putField a.retention a.view _ value).of_eq h⟩

/--
A put touches its field and nothing else, and an element put its element. So all other elements of
the array are unchanged, and in a layout that keeps no field at an offset of its own all other
fields.
-/
theorem put_untouched {s : Instance} (hb : Ty.Built (.struct s.layout))
    (hs : s.address + s.size ≤ wordLimit) :
    (∀ (name : String) (value : Value) (w w' : World), s.put name value w = (.ok (), w') →
      w'.memory.heap.next ≤ wordLimit →
      ∃ f, s.layout.field? name = some f ∧ s.TouchesOnly f.offset f.ty.size w w' ∧
        (s.address + s.size ≤ w.memory.heap.next → s.layout.Sequential →
          s.KeepsOthers name w w')) ∧
    ∀ (name : String) (a : InlineArray) (i : Nat) (value : Value) (w₀ w₁ w w' : World),
      InlineArray.ofField s name w₀ = (.ok a, w₁) → i < a.length →
      a.put i value w = (.ok (), w') → w'.memory.heap.next ≤ wordLimit →
      s.TouchesOnly (a.offset + i * a.component.size) a.component.size w w' ∧
        (s.address + s.size ≤ w.memory.heap.next →
          (∀ j < a.length, j ≠ i →
            s.Unchanged (a.offset + j * a.component.size) a.component (a.get j) w w') ∧
          (s.layout.Sequential → s.KeepsOthers name w w')) := by
  constructor
  · intro name value w w' h hn
    obtain ⟨f, hf, htouches, hsteady⟩ := put_eq_ok hb hs h hn
    refine ⟨f, hf, htouches, fun hold hseq => ?_⟩
    exact htouches.keepsOthers hb hseq hold hn hsteady hf (Nat.le_refl _) (Nat.le_refl _)
  · intro name a i value w₀ w₁ w w' ha hi h hn
    obtain ⟨f, hf, hparts, hview, hoffset, hret⟩ := ofField_eq_ok ha
    have he := hasElement hb hf hparts hoffset hi
    have helement := he.element
    obtain ⟨htouches, hsteady⟩ := put_element_eq_ok hs he hview h hn
    rw [hoffset]
    refine ⟨htouches, fun hold => ⟨fun j hj hne => ?_, fun hseq => ?_⟩⟩
    · have he' := hasElement hb hf hparts hoffset hj
      have hin := he'.inside
      have helement' := he'.element
      have hget : a.get j = a.component.getField s.view s.retention (elementName j)
          (f.offset + j * a.component.size) := by
        rw [InlineArray.get, he'.offset, hview, hret, Nat.add_comm f.offset]
        rfl
      rw [hget]
      refine htouches.unchanged hold hn hsteady (by omega) ?_ (elementName j)
      have hapart := element_apart a.component.size hne
      omega
    · exact htouches.keepsOthers hb hseq hold hn hsteady hf (by omega) (by omega)

/-! ## A row with a label -/

/-- The plan of three integers and a label of four characters. -/
def labelledPlan : LayoutPlan :=
  .ofFields [⟨"row", .descriptor ⟨.array .int32 3, Descriptor.firstFree⟩, none⟩,
    ⟨"label", .descriptor ⟨.charArray 4, Descriptor.firstFree + 1⟩, none⟩] false

/-- Three integers and a label, at a fixed place. -/
def labelled : Instance :=
  ⟨⟨[⟨"row", 0, .array .int32 3⟩, ⟨"label", 12, .charArray 4⟩], 16, 4, false, true⟩,
    ⟨4096, 16, 1, .readWrite, false, none⟩, 0⟩

theorem built_labelled : Ty.Built (.struct labelled.layout) := by
  refine @Ty.Built.struct labelledPlan _ rfl ?_
  simp only [labelled, List.forall_mem_cons, List.not_mem_nil, false_implies, implies_true,
    and_true]
  exact ⟨.array 3 (.builtin _), .charArray 4⟩

theorem sequential_labelled : labelled.layout.Sequential :=
  ⟨labelledPlan, rfl, rfl, by simp [labelledPlan, LayoutPlan.ofFields]⟩

/-- The label stays while the row is put, and the rest of the row while its second integer is. -/
theorem put_untouched_labelled :
    (∃ w', labelled.put "row" (.array [.int 1, .int 2]) World.start = (.ok (), w') ∧
      labelled.TouchesOnly 0 12 World.start w' ∧
      labelled.Unchanged 12 (.charArray 4) (labelled.get "label") World.start w') ∧
    ∃ a w', InlineArray.ofField labelled "row" World.start = (.ok a, World.start) ∧
      a.put 1 (.int 7) World.start = (.ok (), w') ∧ labelled.TouchesOnly 4 4 World.start w' ∧
      labelled.Unchanged 8 .int32 (a.get 2) World.start w' := by
  have hword : labelled.address + labelled.size ≤ wordLimit := by decide
  have hold : labelled.address + labelled.size ≤ World.start.memory.heap.next := by decide
  obtain ⟨hput, helement⟩ := put_untouched built_labelled hword
  constructor
  · have hrun : labelled.put "row" (.array [.int 1, .int 2]) World.start =
        (.ok (), (labelled.put "row" (.array [.int 1, .int 2]) World.start).2) := rfl
    refine ⟨_, hrun, ?_⟩
    obtain ⟨f, hf, htouches, hothers⟩ := hput _ _ _ _ hrun (by decide +kernel)
    obtain rfl := Option.some.inj hf
    exact ⟨htouches, hothers hold sequential_labelled "label" ⟨"label", 12, .charArray 4⟩
      (by decide) rfl⟩
  · have hrun : InlineArray.put ⟨labelled.view, 0, .int32, 3, false, 0⟩ 1 (.int 7) World.start =
        (.ok (), (InlineArray.put ⟨labelled.view, 0, .int32, 3, false, 0⟩ 1 (.int 7)
          World.start).2) := rfl
    refine ⟨⟨labelled.view, 0, .int32, 3, false, 0⟩, _, rfl, hrun, ?_⟩
    obtain ⟨htouches, hothers⟩ := helement "row" _ 1 _ World.start World.start _ _ rfl
      (show (1 : Nat) < 3 by decide) hrun (by decide +kernel)
    exact ⟨htouches, (hothers hold).1 2 (show (2 : Nat) < 3 by decide) (by decide)⟩

end Instance

end ForeignCall
