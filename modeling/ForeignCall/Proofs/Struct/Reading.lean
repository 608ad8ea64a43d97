import ForeignCall.Proofs.Memory.Growth
import ForeignCall.Proofs.Struct.Content
import ForeignCall.Struct.Field

/-!
# Reading fields

Reading a field of a plain type answers with a value that shows the content of its bytes, and fails
exactly when an integer without a symbol is in the way (`Ty.Built.answers_getField`). Reading makes
strings for the texts it finds, so the world grows; what was there before stays.
-/

namespace ForeignCall

/-- Places that have been handed out show what they have shown. -/
theorem World.Extends.content {w w' : World} (h : w.Extends w') {t : Ty} (ht : t.Built) {a : Nat}
    (ha : a + t.size ≤ w.memory.heap.next) (swapped : Bool) :
    t.content swapped w'.memory.heap a = t.content swapped w.memory.heap a :=
  ht.content_congr fun _ hi => h.bytes _ (Nat.lt_of_lt_of_le (Nat.add_lt_add_left hi a) ha)

/-! ## Values that show contents -/

/-- A content without integers that have no symbol. The members of a struct are not looked at: a
struct is read as a live view. -/
inductive Content.Readable : Content → Prop where
  | int (i : Int) : Readable (.int i)
  | bool (b : Bool) : Readable (.bool b)
  | symbol (name : String) : Readable (.symbol name)
  | text (bytes : List UInt8) : Readable (.text bytes)
  | array {items : List Content} (h : ∀ c ∈ items, Readable c) : Readable (.array items)
  | struct (members : List Content) : Readable (.struct members)

/-- A value that shows a content. -/
inductive Value.Shows (w : World) : Value → Content → Prop where
  | int (i : Int) : Shows w (.int i) (.int i)
  | bool (b : Bool) : Shows w (.bool b) (.bool b)
  | symbol (name : String) : Shows w (.symbol name) (.symbol name)
  /-- A string with these bytes. -/
  | text {id : Nat} {s : ManagedString} (hs : w.strings[id]? = some s)
      (hp : s.address + s.length ≤ w.memory.heap.next) :
      Shows w (.str id) (.text (w.stringBytes id))
  | array {items : List Value} {contents : List Content} (hl : items.length = contents.length)
      (h : ∀ (i : Nat) (x : Value) (c : Content), items[i]? = some x → contents[i]? = some c →
        Shows w x c) : Shows w (.array items) (.array contents)
  /-- A struct whose members show these. -/
  | struct {s : Instance} (hb : Ty.Built (.struct s.layout))
      (hp : s.address + s.size ≤ w.memory.heap.next) :
      Shows w (.struct s)
        ((Ty.struct s.layout).content s.view.swapped w.memory.heap s.address)

/-- What is shown stays shown while the world grows. -/
theorem Value.Shows.mono {w w' : World} {x : Value} {c : Content} (h : x.Shows w c)
    (hw : w.Extends w') : x.Shows w' c := by
  induction h with
  | int i => exact .int i
  | bool b => exact .bool b
  | symbol name => exact .symbol name
  | @text id s hs hp =>
    have hb : w'.stringBytes id = w.stringBytes id := by
      unfold World.stringBytes
      rw [hs, hw.strings id s hs]
      exact hw.load hp
    rw [← hb]
    exact .text (hw.strings id s hs) (Nat.le_trans hp hw.next)
  | array hl _ ih => exact .array hl ih
  | @struct s hb hp =>
    have hc : (Ty.struct s.layout).content s.view.swapped w.memory.heap s.address =
        (Ty.struct s.layout).content s.view.swapped w'.memory.heap s.address :=
      hb.content_congr fun i hi =>
        (hw.bytes _ (Nat.lt_of_lt_of_le (Nat.add_lt_add_left hi _) hp)).symm
    rw [hc]
    exact .struct hb (Nat.le_trans hp hw.next)

theorem Value.Shows.newString (w : World) (bytes : List UInt8) :
    (Value.str (w.newString bytes).1).Shows (w.newString bytes).2 (.text bytes) := by
  have h := Value.Shows.text (w.getElem?_strings_newString bytes)
    (Nat.le_of_lt (w.next_newString bytes))
  rw [World.stringBytes_newString] at h
  exact h

/-- What reading a content leads to. -/
def World.Answers (w : World) (content : Content) (r : Outcome Value × World) : Prop :=
  match r with
  | (.ok x, w') => content.Readable ∧ x.Shows w' content ∧ w.Extends w' ∧ w'.StringsPlaced
  | (.error _, _) => ¬content.Readable

/-- What reading a list of contents leads to. -/
def World.AnswersAll (w : World) (contents : List Content) (r : Outcome (List Value) × World) :
    Prop :=
  match r with
  | (.ok xs, w') => (∀ c ∈ contents, c.Readable) ∧ (Value.array xs).Shows w' (.array contents) ∧
      w.Extends w' ∧ w'.StringsPlaced
  | (.error _, _) => ∃ c ∈ contents, ¬c.Readable

theorem Value.Shows.nil (w : World) : (Value.array []).Shows w (.array []) :=
  .array rfl fun i x c hx => by simp at hx

theorem Value.Shows.cons {w : World} {x : Value} {c : Content} {xs : List Value}
    {cs : List Content} (h : x.Shows w c) (hs : (Value.array xs).Shows w (.array cs)) :
    (Value.array (x :: xs)).Shows w (.array (c :: cs)) := by
  cases hs with
  | array hl hs =>
    refine .array (by rw [List.length_cons, List.length_cons, hl]) fun i y d hy hd => ?_
    cases i with
    | zero =>
      rw [List.getElem?_cons_zero, Option.some.injEq] at hy hd
      exact hy ▸ hd ▸ h
    | succ i => exact hs i y d hy hd

theorem World.AnswersAll.array {w : World} {contents : List Content} {x : Act (List Value)}
    (h : w.AnswersAll contents (x w)) :
    w.Answers (.array contents) ((x >>= fun items => pure (Value.array items)) w) := by
  rcases hx : x w with ⟨e | items, w'⟩
  · rw [hx] at h
    rw [Act.bind_error hx]
    obtain ⟨c, hc, hn⟩ := h
    intro hread
    cases hread with
    | array hall => exact hn (hall c hc)
  · rw [hx] at h
    rw [Act.bind_ok hx]
    exact ⟨.array h.1, h.2⟩

/-- An element that starts below the end of the address space has its place. -/
theorem elementOffset_eq {v : View} {c : Ty} {offset i : Nat}
    (h : i * c.size + offset < wordLimit) :
    elementOffset v offset c i = .ok (i * c.size + offset) := by
  unfold elementOffset
  rw [mulWords_eq_some.mpr ⟨rfl, by omega⟩, Option.bind_some, addWords_eq_some.mpr ⟨rfl, h⟩]

/-! ## Places that a view covers -/

/-- A view that admits an access to a place that has been handed out. -/
structure World.Covers (w : World) (v : View) (offset size : Nat) (mode : Mode) : Prop where
  admits : w.memory.Admits v offset size mode
  word : v.address + offset + size ≤ wordLimit
  old : v.address + offset + size ≤ w.memory.heap.next

namespace World

variable {w w' : World} {v : View} {offset size : Nat} {mode : Mode}

/-- A place that ends inside one that is covered. -/
theorem Covers.part (h : w.Covers v offset size mode) {o n : Nat}
    (hn : o + n ≤ offset + size) : w.Covers v o n mode where
  admits := ⟨h.admits.address, h.admits.live, h.admits.mode,
    Nat.lt_of_le_of_lt hn h.admits.word, Nat.le_trans hn h.admits.inside⟩
  word := by have := h.word; omega
  old := by have := h.old; omega

theorem Covers.mono (h : w.Covers v offset size mode)
    (hn : w.memory.heap.next ≤ w'.memory.heap.next)
    (hl : ∀ o, w'.memory.isLive o = w.memory.isLive o) : w'.Covers v offset size mode where
  admits := ⟨h.admits.address, by
    have hlive := h.admits.live
    simp only [hl]
    exact hlive, h.admits.mode, h.admits.word, h.admits.inside⟩
  word := h.word
  old := Nat.le_trans h.old hn

/-- The bytes of a place that is covered are read where they stand. -/
theorem Covers.readBytes (h : w.Covers v offset size .read) :
    w.memory.readBytes v offset size = .ok (w.memory.heap.load (v.address + offset) size) := by
  rw [h.admits.readBytes]
  cases size with
  | zero => rfl
  | succ n =>
    have hw := h.word
    rw [wrap, Nat.mod_eq_of_lt (by omega)]

theorem Covers.readBits (h : w.Covers v offset size .read) :
    w.memory.readBits v offset size =
      .ok (decodeIn v.swapped (w.memory.heap.load (v.address + offset) size)) := by
  unfold Memory.readBits
  rw [h.readBytes]
  rfl

theorem Covers.readInt {k : IntKind} (h : w.Covers v offset k.bytes .read) :
    w.memory.readInt v offset k =
      .ok (k.ofBits (decodeIn v.swapped (w.memory.heap.load (v.address + offset) k.bytes))) := by
  unfold Memory.readInt
  rw [h.readBits]
  rfl

theorem Covers.readString (h : w.Covers v offset size .read) :
    w.memory.readString v offset (some size) =
      .ok (Memory.untilNul (w.memory.heap.load (v.address + offset) size)) := by
  show (do let bytes ← w.memory.readBytes v offset size; return Memory.untilNul bytes) = _
  rw [h.readBytes]
  rfl

theorem Covers.slice (h : w.Covers v offset size mode) (hs : 0 < size) :
    v.slice offset size = .ok (v.derive (v.address + offset) size) := by
  have hw := h.word
  have ha : addWords v.address offset = some (v.address + offset) :=
    addWords_eq_some.mpr ⟨rfl, by omega⟩
  unfold View.slice
  rw [if_pos ⟨h.admits.word, h.admits.inside⟩, ha]
  rfl

/-- An element of an array that is covered. -/
theorem Covers.element {c : Ty} {n i : Nat} (h : w.Covers v offset (c.size * n) mode) (hi : i < n) :
    elementOffset v offset c i = .ok (i * c.size + offset) ∧
      w.Covers v (i * c.size + offset) c.size mode := by
  have hs : i * c.size + c.size ≤ c.size * n := element_le hi
  have hw := h.admits.word
  exact ⟨elementOffset_eq (by omega), h.part (by omega)⟩

end World

/-! ## Reading -/

namespace Ty.Built

variable {w : World} {v : View}

/-- The items of a list are read one after another, while the world grows. -/
theorem answersAll_mapM {α : Type} {f : α → Act Value} {g : α → Content} (l : List α)
    (hr : ∀ x ∈ l, ∀ w', w.Extends w' → w'.StringsPlaced → w'.Answers (g x) (f x w'))
    (hp : w.StringsPlaced) : w.AnswersAll (l.map g) (l.mapM f w) := by
  induction l generalizing w with
  | nil =>
    rw [List.mapM_nil]
    exact ⟨fun c hc => (by cases hc), .nil w, .refl w, hp⟩
  | cons a rest ih =>
    rw [List.mapM_cons, List.map_cons]
    have ha := hr a List.mem_cons_self w (.refl w) hp
    rcases hra : f a w with ⟨e | x, w₁⟩
    · rw [hra] at ha
      rw [Act.bind_error hra]
      exact ⟨_, List.mem_cons_self, ha⟩
    · rw [hra] at ha
      obtain ⟨hread, hx, hw₁, hp₁⟩ := ha
      rw [Act.bind_ok hra]
      have hrest := ih (fun y hy w' hw' hp' =>
        hr y (List.mem_cons_of_mem _ hy) w' (hw₁.trans hw') hp') hp₁
      rcases hrr : rest.mapM f w₁ with ⟨e | xs, w₂⟩
      · rw [hrr] at hrest
        obtain ⟨c, hc, hn⟩ := hrest
        rw [Act.bind_error hrr]
        exact ⟨c, List.mem_cons_of_mem _ hc, hn⟩
      · rw [hrr] at hrest
        obtain ⟨hall, hxs, hw₂, hp₂⟩ := hrest
        rw [Act.bind_ok hrr]
        exact ⟨List.forall_mem_cons.mpr ⟨hread, hall⟩, .cons (hx.mono hw₂) hxs, hw₁.trans hw₂, hp₂⟩

/-- Reading a field answers with what its bytes show. -/
theorem answers_getField {t : Ty} (ht : t.Built) (hplain : t.isPlain = true) (retention : Nat)
    (name : String) (offset : Nat) (hv : w.Covers v offset t.size .read) (hp : w.StringsPlaced) :
    w.Answers (t.content v.swapped w.memory.heap (v.address + offset))
      (t.getField v retention name offset w) := by
  induction ht generalizing w name offset with
  | builtin b =>
    cases b with
    | int k =>
      have hr : (Act.read fun m => m.readInt v offset k) w = _ :=
        Act.read_eq_ok.mpr ⟨World.Covers.readInt hv, rfl⟩
      have hg : Ty.getField v retention name offset (.builtin (.int k)) w = _ := Act.bind_ok hr
      rw [hg]
      exact ⟨.int _, .int _, .refl w, hp⟩
    | bool =>
      have hr : (Act.read fun m => m.readInt v offset .int32) w = _ :=
        Act.read_eq_ok.mpr ⟨World.Covers.readInt (k := .int32) hv, rfl⟩
      have hg : Ty.getField v retention name offset (.builtin .bool) w = _ := Act.bind_ok hr
      -- a C int is zero exactly when its bits are, whatever its sign
      have hz := IntKind.ofBits_eq_zero .int32 (Nat.lt_of_lt_of_le (decodeIn_lt v.swapped
        (w.memory.heap.load (v.address + offset) 4)) (by rw [Heap.length_load]; decide))
      have hb : (IntKind.int32.ofBits (decodeIn v.swapped
          (w.memory.heap.load (v.address + offset) 4)) != 0) =
          (decodeIn v.swapped (w.memory.heap.load (v.address + offset) 4) != 0) := by
        rw [Bool.eq_iff_iff, bne_iff_ne, bne_iff_ne, Ne, Ne, hz]
      rw [hg]
      refine ⟨.bool _, ?_, .refl w, hp⟩
      show (Value.bool (IntKind.int32.ofBits (decodeIn v.swapped
        (w.memory.heap.load (v.address + offset) 4)) != 0)).Shows w _
      rw [hb]
      exact .bool _
    | _ => cases hplain
  | @array c n hc ih =>
    have hitems := answersAll_mapM (w := w)
      (f := fun i => do
        let o ← Act.ofChecked (elementOffset v offset c i)
        c.getField v retention (elementName i) o)
      (g := fun i => c.content v.swapped w.memory.heap (v.address + offset + i * c.size))
      (List.range n) (fun i hi w' hw' hp' => by
        obtain ⟨ho, hi'⟩ := hv.element (List.mem_range.mp hi)
        rw [Act.bind_ok (Act.ofChecked_eq_ok.mpr ⟨ho, rfl⟩)]
        -- what has been read so far has not touched the item
        rw [Nat.add_assoc, Nat.add_comm offset, ← hw'.content hc hi'.old]
        exact ih hplain _ _ (hi'.mono hw'.next hw'.live) hp') hp
    rw [content]
    exact hitems.array
  | charArray n =>
    have hr : (Act.read fun m => m.readString v offset (some n)) w = _ :=
      Act.read_eq_ok.mpr ⟨World.Covers.readString hv, rfl⟩
    have hg : Ty.getField v retention name offset (.charArray n) w = _ := Act.bind_ok hr
    rw [hg]
    exact ⟨.text _, .newString w _, w.extends_newString _, hp.newString _⟩
  | @enumeration table _ =>
    have hr : (Act.read fun m => m.readInt v offset .int32) w = _ :=
      Act.read_eq_ok.mpr ⟨World.Covers.readInt (k := .int32) hv, rfl⟩
    have hg : Ty.getField v retention name offset (.enumeration table) w = _ := Act.bind_ok hr
    rw [hg]
    show w.Answers (table.shown (IntKind.int32.ofBits (decodeIn v.swapped
      (w.memory.heap.load (v.address + offset) IntKind.int32.bytes)))) _
    generalize IntKind.int32.ofBits _ = i
    unfold Enumeration.shown Value.ofEnum?
    rw [Option.bind_some]
    cases table.symbol? i with
    | none =>
      intro hread
      cases hread
    | some symbol => exact ⟨.symbol _, .symbol _, .refl w, hp⟩
  | callback s => cases hplain
  | @struct plan l hplan hf _ =>
    have hs := hv.slice (LayoutPlan.size_pos hplan)
    have hg : Ty.getField v retention name offset (.struct l) w = _ :=
      Act.bind_ok (Act.ofOutcome_eq_ok.mpr ⟨hs, rfl⟩)
    rw [hg]
    refine ⟨?_, ?_, .refl w, hp⟩
    · rw [content_struct]
      exact .struct _
    · exact .struct (s := ⟨l, v.derive (v.address + offset) l.size, retention⟩)
        (.struct hplan hf) hv.old

end Ty.Built

end ForeignCall
