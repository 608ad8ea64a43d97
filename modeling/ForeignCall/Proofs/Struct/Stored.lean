import ForeignCall.Proofs.Memory.Custody
import ForeignCall.Proofs.Memory.Refusal
import ForeignCall.Proofs.Struct.Upkeep

/-!
# Closures that are stored in a struct

A function pointer of a struct that has been given a closure enters it as long as the struct is held
and nothing else has been put there, whatever has become of the closure, of the function that was
made of it, and of anything else (`Instance.stored_callable`). A struct that is put into another one
is copied byte by byte, and the other one keeps nothing for it: `Instance.stored_copied` is a
function pointer that enters nothing any more.
-/

namespace ForeignCall

/-! ## Function pointers that enter a closure -/

namespace World

/-- A value stands for a closure: it is the closure, or a function that was made of a callback of
it. -/
def StandsFor (w : World) : Value → Nat → Prop
  | .proc closure, k => closure = k
  | .function f, k => ∃ id c, f.callback = some id ∧ w.callbacks[id]? = some c ∧
      f.address = c.code ∧ c.closure = k
  | _, _ => False

/-- A function pointer holds the code address of a callback, in a byte order, and a map keeps the
callback for an address. -/
structure Holds (w : World) (map key id : Nat) (c : Callback) (swapped : Bool) (p : Nat) :
    Prop where
  retained : w.Retains map key id
  callback : w.callbacks[id]? = some c
  bytes : w.memory.heap.load p addressSize = encodeIn swapped addressSize c.code
  placed : p + addressSize ≤ w.memory.heap.next
  keyed : key < w.memory.heap.next

variable {w w' : World} {map key id k p a n : Nat} {c : Callback} {swapped : Bool} {value : Value}
  {held : List Ref}

theorem StandsFor.mono (h : w.StandsFor value k)
    (hc : ∀ (id : Nat) (c : Callback), w.callbacks[id]? = some c → w'.callbacks[id]? = some c) :
    w'.StandsFor value k := by
  cases value with
  | proc closure => exact h
  | function f =>
    obtain ⟨id, c, hf, hid, ha, hk⟩ := h
    exact ⟨id, c, hf, hc id c hid, ha, hk⟩
  | _ => exact h

/-- What a function pointer holds is held by a place that its bytes are copied to, as long as it is
kept. -/
theorem Holds.copied {q : Nat} (h : w.Holds map key id c swapped q)
    (hnext : w.memory.heap.next ≤ w'.memory.heap.next) (hr : w'.Retains map key id)
    (hc : w'.callbacks[id]? = some c) (hp : p + addressSize ≤ w'.memory.heap.next)
    (hb : ∀ i < addressSize, w'.memory.heap.get (p + i) = w.memory.heap.get (q + i)) :
    w'.Holds map key id c swapped p where
  retained := hr
  callback := hc
  bytes := (Heap.load_shift hb).trans h.bytes
  placed := hp
  keyed := Nat.lt_of_lt_of_le h.keyed hnext

theorem Holds.mono (h : w.Holds map key id c swapped p)
    (hnext : w.memory.heap.next ≤ w'.memory.heap.next) (hr : w'.Retains map key id)
    (hc : w'.callbacks[id]? = some c)
    (hb : ∀ i < addressSize, w'.memory.heap.get (p + i) = w.memory.heap.get (p + i)) :
    w'.Holds map key id c swapped p :=
  h.copied hnext hr hc (Nat.le_trans h.placed hnext) hb

theorem Holds.upheld (h : w.Holds map key id c swapped p) {α : Type} {x : Act α} {other : Nat}
    {refs : List Ref} (hx : x.Upholds other refs a n) {o : Outcome α} (hrun : x w = (o, w'))
    (hn : w'.memory.heap.next ≤ wordLimit)
    (hkey : map = other → a + n ≤ wordLimit ∧ Act.Outside a n key)
    (hb : ∀ i < addressSize, w'.memory.heap.get (p + i) = w.memory.heap.get (p + i)) :
    w'.Holds map key id c swapped p := by
  have hr := hx.retains w map key id
  rw [hrun] at hr
  exact h.mono (hx.rises.of_eq hrun) (hr hn h.keyed hkey h.retained)
    (hx.callbacks_of_eq hrun h.callback) hb

end World

/-! ## Putting a closure -/

section

variable {w w' : World} {held : List Ref} {signature : Signature} {value : Value} {v : View}
  {retention offset k : Nat}

/-- A value that stands for a closure has the code address of a callback of the closure. -/
theorem pointee_stands (hw : w.Sound held) (hrefs : value.refs ⊆ held) (hs : w.StandsFor value k)
    {q : Nat × Option Nat} (h : pointee signature value w = (.ok q, w')) :
    ∃ id c, q = (c.code, some id) ∧ w'.callbacks[id]? = some c ∧ c.closure = k := by
  cases value with
  | proc closure =>
    obtain rfl : closure = k := hs
    obtain ⟨id, w₁, hm, h⟩ := Act.bind_eq_ok.mp h
    obtain ⟨address, w₂, hview, h⟩ := Act.bind_eq_ok.mp h
    obtain ⟨rfl, rfl⟩ := Act.view_eq_ok.mp hview
    obtain ⟨rfl, rfl⟩ := Act.pure_eq_ok.mp h
    have hheld : w.isHeld held (.proc closure) = true :=
      World.isHeld_of_mem (hrefs (by simp [Value.refs]))
    obtain ⟨-, c, hc, hk, -⟩ := hw.makeCallback hheld hm
    exact ⟨id, c, by rw [World.callbackAddress_eq hc], hc, hk⟩
  | function f =>
    obtain ⟨id, c, hf, hc, ha, hk⟩ := hs
    obtain ⟨rfl, rfl⟩ := Act.pure_eq_ok.mp h
    exact ⟨id, c, by rw [hf, ha], hc, hk⟩
  | _ => exact hs.elim

/-- A function pointer that is given a closure holds its address, and keeps it. -/
theorem putFunction_holds (hw : w.Sound held) (hmap : Ref.retention retention ∈ held)
    (hrefs : value.refs ⊆ held) (hs : w.StandsFor value k)
    (hplace : v.address + offset + addressSize ≤ w.memory.heap.next)
    (h : putFunction v retention offset signature value w = (.ok (), w'))
    (hn : w'.memory.heap.next ≤ wordLimit) :
    ∃ id c, c.closure = k ∧
      w'.Holds retention (v.address + offset) id c v.swapped (v.address + offset) := by
  have hnext := (spares_putFunction v retention offset signature value).rises.of_eq h
  have hsize : addressSize = 8 := rfl
  have hword : wrap (v.address + offset) = v.address + offset := Nat.mod_eq_of_lt (by omega)
  rcases putFunction_cases h with ⟨e, r, he, -⟩ | ⟨q, w₁, w₂, hp, hwrite, -, rfl⟩
  · cases he
  obtain ⟨id, c, rfl, hc, hk⟩ := pointee_stands hw hrefs hs hp
  refine ⟨id, c, hk, ?_, ?_, ?_, Nat.le_trans hplace hnext, by omega⟩
  · -- the map of a struct that is held is in the table
    have hknown : retention < w.retentions.size := (hw.root _ hmap).1
    have hmaps : w₂.retentions = w.retentions :=
      ((Act.inert_write _).maps hwrite).1.trans (maps_pointee hp).1
    refine ⟨w.retentions[retention].set (v.address + offset) (some id), ?_, ?_⟩
    · rw [World.retain_eq, hword, hmaps, Array.getElem?_modify, if_pos rfl,
        Array.getElem?_eq_getElem hknown]
      rfl
    · rw [Retention.set_eq]
      exact List.mem_append_right _ (List.mem_singleton_self _)
  · rw [World.retain_eq, ((Act.inert_write _).of_eq hwrite).callbacks]
    exact hc
  · obtain ⟨m, hm, rfl⟩ := Act.write_eq_ok.mp hwrite
    have he := Memory.writeBytes_store hm (by rw [View.length_encode]; omega)
    have hl := w₁.memory.heap.load_store (v.address + offset)
      (v.encode addressSize c.code)
    rw [View.length_encode] at hl
    rw [World.retain_eq]
    subst he
    exact hl

/-! ## Rows of function pointers -/

/-- A function pointer that is put into a row, where the element of its index stands. -/
def putRowItem (staged : View) (retention : Nat) (signature : Signature) (i : Nat) (x : Value) :
    Act Unit := do
  let o ← Act.ofChecked (elementOffset staged 0 (.callback signature) i)
  (Ty.callback signature).putField staged retention o x

variable {staged : View}

theorem upholds_putRowItem (i : Nat) (x : Value) :
    (putRowItem staged retention signature i x).Upholds
    retention x.refs (staged.address + i * addressSize) addressSize :=
  upholds_putElement staged (.callback signature) i x fun o =>
    upholds_putFunction staged retention o signature x

theorem spares_putRowItem (i : Nat) (x : Value) : (putRowItem staged retention signature i x).Spares
    (staged.address + i * addressSize) addressSize :=
  spares_putElement retention staged (.callback signature) i x fun o =>
    spares_putFunction staged retention o signature x

theorem putRowItem_holds {i : Nat} {x : Value} (hw : w.Sound held)
    (hmap : Ref.retention retention ∈ held) (hrefs : x.refs ⊆ held) (hs : w.StandsFor x k)
    (hplace : staged.address + (i + 1) * addressSize ≤ w.memory.heap.next)
    (h : putRowItem staged retention signature i x w = (.ok (), w'))
    (hn : w'.memory.heap.next ≤ wordLimit) :
    ∃ id c, c.closure = k ∧ w'.Holds retention (staged.address + i * addressSize) id c
      staged.swapped (staged.address + i * addressSize) := by
  obtain ⟨o, w₁, hoff, h⟩ := Act.bind_eq_ok.mp h
  obtain ⟨ho, rfl⟩ := Act.ofChecked_eq_ok.mp hoff
  obtain rfl := elementOffset_eq_ok ho
  rw [Nat.add_mul, Nat.one_mul] at hplace
  exact putFunction_holds hw hmap hrefs hs (by rw [Nat.add_assoc]; exact hplace) h hn

/-- An element of a row stands in the part that items from an index on are put into. -/
theorem row_part (a : Nat) {first i n : Nat} (h : first ≤ i) (h' : i < first + n) :
    a + first * addressSize ≤ a + i * addressSize ∧
      a + i * addressSize + addressSize ≤ a + first * addressSize + n * addressSize := by
  have hsize : addressSize = 8 := rfl
  rw [hsize]
  omega

theorem upholds_putRow (first : Nat) {items : List Value} (hrefs : ∀ x ∈ items, x.refs ⊆ held) :
    ((items.zipIdx first).forM fun (x, i) => putRowItem staged retention signature i x).Upholds
      retention held (staged.address + first * addressSize) (items.length * addressSize) := by
  refine Act.upholds_forM fun r hr => ?_
  obtain ⟨hle, hlt, -⟩ := List.mem_zipIdx hr
  obtain ⟨hlow, hhigh⟩ := row_part staged.address hle hlt
  exact (upholds_putRowItem r.2 r.1).mono (hrefs _ (List.fst_mem_of_mem_zipIdx hr)) hlow hhigh

theorem spares_putRow (first : Nat) (items : List Value) :
    ((items.zipIdx first).forM fun (x, i) => putRowItem staged retention signature i x).Spares
      (staged.address + first * addressSize) (items.length * addressSize) := by
  refine Act.spares_forM fun r hr => ?_
  obtain ⟨hle, hlt, -⟩ := List.mem_zipIdx hr
  obtain ⟨hlow, hhigh⟩ := row_part staged.address hle hlt
  exact (spares_putRowItem r.2 r.1).mono hlow hhigh

/-- Each item of a row that is given a closure holds its address, whatever the other items are. -/
theorem putRow_holds {n : Nat} (hmap : Ref.retention retention ∈ held) (items : List Value)
    (hrefs : ∀ x ∈ items, x.refs ⊆ held) {first : Nat} (hlen : first + items.length ≤ n)
    (hw : w.Sound held) (hplace : staged.address + n * addressSize ≤ w.memory.heap.next)
    (h : ((items.zipIdx first).forM fun (x, i) => putRowItem staged retention signature i x) w =
      (.ok (), w'))
    (hn : w'.memory.heap.next ≤ wordLimit) {i : Nat} {x : Value} (hx : items[i]? = some x)
    (hs : w.StandsFor x k) :
    ∃ id c, c.closure = k ∧ w'.Holds retention (staged.address + (first + i) * addressSize) id c
      staged.swapped (staged.address + (first + i) * addressSize) := by
  have hsize : addressSize = 8 := rfl
  induction items generalizing first w i with
  | nil => cases hx
  | cons item rest ih =>
    rw [List.length_cons] at hlen
    obtain ⟨⟨⟩, w₁, h₁, h₂⟩ := Act.bind_eq_ok.mp h
    change putRowItem staged retention signature first item w = (.ok (), w₁) at h₁
    have hitem : item.refs ⊆ held := hrefs _ List.mem_cons_self
    have hrest : ∀ x ∈ rest, x.refs ⊆ held := fun x hx => hrefs x (List.mem_cons_of_mem _ hx)
    have hfirst : (putRowItem staged retention signature first item).Upholds _ _ _ _ :=
      upholds_putRowItem first item
    have hothers : Act.Upholds ((rest.zipIdx (first + 1)).forM fun (x, i) =>
        putRowItem staged retention signature i x) _ _ _ _ := upholds_putRow (first + 1) hrest
    have hrise := hfirst.rises.of_eq h₁
    have hrise' := hothers.rises.of_eq h₂
    rw [hsize] at hplace
    cases i with
    | zero =>
      obtain rfl := Option.some.inj hx
      obtain ⟨id, c, hk, hholds⟩ := putRowItem_holds hw hmap hitem hs
        (by rw [hsize]; omega) h₁ (Nat.le_trans hrise' hn)
      refine ⟨id, c, hk, ?_⟩
      -- the other items stand behind the first one
      have hend : staged.address + (first + 1) * addressSize + rest.length * addressSize ≤
          wordLimit := by
        rw [hsize]
        omega
      refine hholds.upheld hothers h₂ hn (fun _ => ⟨hend, Or.inl ?_⟩) fun j hj => ?_
      · rw [hsize]
        omega
      · refine (spares_putRow (first + 1) rest).of_eq hend h₂ hn _ (Or.inl ?_) (Or.inl ?_)
        · rw [hsize] at hj ⊢
          omega
        · rw [hsize] at hj ⊢
          omega
    | succ i =>
      rw [show first + (i + 1) = first + 1 + i by omega]
      exact ih hrest (by omega) (hfirst.sound_of_eq h₁ hmap hitem hw) (by rw [hsize]; omega) h₂ hx
        (hs.mono fun id c hc => hfirst.callbacks_of_eq h₁ hc)

/-- A row that is put as a whole: each item that is given a closure holds its address, which is kept
under a fresh address. -/
theorem putArray_holds {n : Nat} {items : List Value} (hmap : Ref.retention retention ∈ held)
    (hrefs : ∀ x ∈ items, x.refs ⊆ held) (hw : w.Sound held)
    (hplace : v.address + offset + n * addressSize ≤ w.memory.heap.next)
    (h : (Ty.array (.callback signature) n).putField v retention offset (.array items) w =
      (.ok (), w'))
    (hn : w'.memory.heap.next ≤ wordLimit) {i : Nat} {x : Value} (hx : items[i]? = some x)
    (hs : w.StandsFor x k) : ∃ key id c, c.closure = k ∧ w.memory.heap.next ≤ key ∧
      w'.Holds retention key id c false (v.address + offset + i * addressSize) := by
  have hsize : addressSize = 8 := rfl
  have hty : (Ty.callback signature).size * n = n * addressSize := Nat.mul_comm _ _
  have hrise := ((Ty.array (.callback signature) n).spares_putField retention v offset
    (.array items)).rises.of_eq h
  have hword : v.address + offset + (Ty.callback signature).size * n ≤ wordLimit := by
    rw [hty]
    omega
  obtain ⟨staged, w₁, w₂, hstage, hst, hfill, hwrite, hn₂, hback, -⟩ := putStaged_eq_ok
    (fun staged => (spares_fillItems (c := .callback signature) retention n
      ((Ty.callback signature).spares_putField retention) staged (.array items)).rises) h hword hn
  obtain ⟨items', hitems, hlen, hforM⟩ := putItems_eq_ok hfill
  obtain rfl := Value.array.inj hitems
  rw [hty] at hst hback
  have hsame := (inert_stage v offset _).of_eq hstage
  have hi : i < items.length := (List.getElem?_eq_some_iff.mp hx).1
  -- the scratch buffer is at fresh addresses
  have hfresh := hst.fresh
  have hstaged : staged.address + n * addressSize ≤ w₁.memory.heap.next := by
    rw [hsize] at hfresh ⊢
    have hlast := hfresh (staged.address + (n * 8 - 1)) (by omega) (by omega)
    omega
  obtain ⟨id, c, hk, hholds⟩ := putRow_holds hmap items hrefs (by omega)
    (hw.congr hsame) hstaged hforM hn₂ hx
    (hs.mono fun id c hc => by rw [hsame.callbacks]; exact hc)
  rw [Nat.zero_add, hst.swapped] at hholds
  -- its bytes are copied back, and nothing else is changed
  have hsame' := (Act.inert_write _).of_eq hwrite
  have hnext := (v.spares_copy offset staged _).rises.of_eq hwrite
  have hkey : i * addressSize < n * addressSize := by
    rw [hsize]
    omega
  rw [hsize] at hplace
  refine ⟨_, id, c, hk, (hfresh _ (Nat.le_add_right ..) (Nat.add_lt_add_left hkey _)).1,
    hholds.copied hnext (hholds.retained.congr hsame'.retentions) ?_ ?_ fun j hj => ?_⟩
  · rw [hsame'.callbacks]
    exact hholds.callback
  · rw [hsize]
    omega
  · rw [Nat.add_assoc (v.address + offset), Nat.add_assoc staged.address]
    refine hback (i * addressSize + j) ?_
    rw [hsize] at hj ⊢
    omega

end

/-! ## What happens later -/

namespace Holdings

/-- What the managed side does, with callbacks and what holds them and through structs. -/
inductive Move : Holdings → Holdings → Prop where
  | managed {t u : Holdings} (h : Step t u) : Move t u
  /-- A struct that is held is written, with a value that is held. -/
  | write {op : StructWrite} {w w' : World} {held : List Ref} {o : Outcome Unit}
      (hmap : Ref.retention op.map ∈ held) (hrefs : op.refs ⊆ held) (h : op.run w = (o, w')) :
      Move ⟨w, held⟩ ⟨w', held⟩

/-- What can be obtained from nothing. -/
def Obtained (t : Holdings) : Prop := ∃ setup, Relation.ReflTransGen Move (start setup) t

theorem Move.sound {t u : Holdings} (h : Move t u) (ht : t.world.Sound t.held) :
    u.world.Sound u.held := by
  cases h with
  | managed h => exact h.sound ht
  | @write op _ _ _ _ hmap hrefs h =>
    obtain ⟨a, n, hup, -⟩ := op.upholds_run
    exact hup.sound_of_eq h hmap hrefs ht

theorem Obtained.sound {t : Holdings} (h : t.Obtained) : t.world.Sound t.held := by
  obtain ⟨setup, hrun⟩ := h
  induction hrun with
  | refl => exact sound_start setup
  | tail _ hmove ih => exact hmove.sound ih

end Holdings

/-- A type at an address is given an item for a function pointer: by itself, or as an item of a
row. -/
inductive Ty.Fills : Ty → Nat → Value → Nat → Value → Bool → Prop where
  | alone (signature : Signature) (a : Nat) (x : Value) :
      Fills (.callback signature) a x a x true
  | item (signature : Signature) (n a : Nat) {items : List Value} {i : Nat} {x : Value}
      (hx : items[i]? = some x) :
      Fills (.array (.callback signature) n) a (.array items) (a + i * addressSize) x false

theorem StructWrite.careful_run (op : StructWrite) : op.run.Careful := by
  cases op with
  | put n name value => exact n.careful_put name value
  | element a index value => exact a.careful_put index value
  | clear n => exact n.careful_clear

/-- A write that is refused leaves what is kept for old addresses in place. -/
theorem StructWrite.retains_refused {op : StructWrite} {s : Instance}
    (hbuilt : Ty.Built (.struct s.layout)) (hop : op.Through s) {w w' : World} {e : Failure}
    (h : op.run w = (.error e, w')) (hend : s.address + s.size ≤ wordLimit)
    (hn : w'.memory.heap.next ≤ wordLimit) {key id : Nat} (hkey : key < w.memory.heap.next)
    (hr : w.Retains s.retention key id) : w'.Retains s.retention key id := by
  rcases op.run_cases with ⟨n, rfl⟩ | ⟨f, hrun⟩ | ⟨t, v, retention, offset, value, hputs, hrun⟩
  · rcases Instance.clear_outcome h with ⟨-, -, hmaps, -⟩ | ⟨ho, -⟩
    · exact hr.congr hmaps
    · cases ho
  · rw [hrun] at h
    obtain ⟨-, rfl⟩ := Prod.mk.inj h
    exact hr
  · have hin := hputs.inside hbuilt hop
    rw [hrun] at h
    have hup := t.upholds_putField retention v offset value
    have hkeep := hup.retains w s.retention key id
    rw [h] at hkeep
    cases t with
    | callback signature =>
      rcases putFunction_cases h with ⟨-, r, -, hp⟩ | ⟨-, -, -, -, -, ho, -⟩
      · exact hr.congr (maps_pointee hp).1
      · cases ho
    | _ =>
      refine hkeep hn hkey (fun _ => ⟨?_, Nat.lt_or_ge key (v.address + offset)⟩) hr
      exact Nat.le_trans (Nat.le_add_right ..) (Nat.le_trans hin.2 hend)

namespace Instance

variable {s : Instance}

/--
What may happen while the function pointer at an address stays as it is. An item that was put with
others is kept for an address of a buffer that is not there any more, so no function pointers may
go through a further buffer then.
-/
inductive Later (s : Instance) (p : Nat) (alone : Bool) : Holdings → Holdings → Prop where
  /-- A write through the struct or through one inside it, to other places. -/
  | written {op : StructWrite} {w w' : World} {held : List Ref} (hop : op.Through s)
      (hmap : Ref.retention s.retention ∈ held) (hrefs : op.refs ⊆ held)
      (hkeep : ∀ i < addressSize, ¬ op.Overwrites (p + i)) (hsingly : alone = true ∨ op.Singly)
      (h : op.run w = (.ok (), w')) : Later s p alone ⟨w, held⟩ ⟨w', held⟩
  /-- A write that is refused, to any place. -/
  | refused {op : StructWrite} {w w' : World} {held : List Ref} {f : Fault} (hop : op.Through s)
      (hmap : Ref.retention s.retention ∈ held) (hrefs : op.refs ⊆ held)
      (hsingly : alone = true ∨ op.Singly) (h : op.run w = (.error (.fault f), w')) :
      Later s p alone ⟨w, held⟩ ⟨w', held⟩
  /-- A write through another struct. -/
  | elsewhere {op : StructWrite} {w w' : World} {held : List Ref} {o : Outcome Unit}
      (hother : op.map ≠ s.retention) (hmap : Ref.retention op.map ∈ held) (hrefs : op.refs ⊆ held)
      (hbytes : ∀ i < addressSize, w'.memory.heap.get (p + i) = w.memory.heap.get (p + i))
      (h : op.run w = (o, w')) : Later s p alone ⟨w, held⟩ ⟨w', held⟩
  /-- Any handles are dropped, of closures, of functions and of structs. -/
  | dropped {w : World} {held refs rest : List Ref} (hp : held.Perm (refs ++ rest)) :
      Later s p alone ⟨w, held⟩ ⟨{ w with dropped := w.dropped ++ refs }.collect rest, rest⟩
  /-- Closures, functions and structs made, compiled and cloned, and anything else that leaves the
  map of the struct and the bytes of the function pointer alone. -/
  | other {t u : Holdings} (hmap : u.world.retentions[s.retention]? =
        t.world.retentions[s.retention]?)
      (hbytes : ∀ i < addressSize,
        u.world.memory.heap.get (p + i) = t.world.memory.heap.get (p + i))
      (hnext : t.world.memory.heap.next ≤ u.world.memory.heap.next) (h : Holdings.Step t u) :
      Later s p alone t u

/-- A function pointer of a struct holds the address of a callback of a closure, which is kept. -/
structure Stores (s : Instance) (t : Holdings) (p k : Nat) (swapped : Bool) : Prop where
  sound : t.world.Sound t.held
  place : s.address + s.size ≤ t.world.memory.heap.next
  holds : ∃ key id c, (key = p ∨ s.address + s.size ≤ key) ∧ c.closure = k ∧
    t.world.Holds s.retention key id c swapped p

variable {t u : Holdings} {p k : Nat} {swapped alone : Bool}

theorem Later.next (h : s.Later p alone t u) :
    t.world.memory.heap.next ≤ u.world.memory.heap.next := by
  cases h with
  | written _ _ _ _ _ h => exact (StructWrite.rises_run _).of_eq h
  | refused _ _ _ _ h => exact (StructWrite.rises_run _).of_eq h
  | elsewhere _ _ _ _ h => exact (StructWrite.rises_run _).of_eq h
  | dropped _ => exact Nat.le_of_eq (by rw [World.heap_collect])
  | other _ _ hnext _ => exact hnext

theorem Later.stores (hbuilt : Ty.Built (.struct s.layout)) (h : s.Later p alone t u)
    (hn : u.world.memory.heap.next ≤ wordLimit) (ht : s.Stores t p k swapped) :
    s.Stores u p k swapped := by
  have hnext := h.next
  obtain ⟨hsound, hplace, key, id, c, hkey, hk, hholds⟩ := ht
  have hend : s.address + s.size ≤ wordLimit :=
    Nat.le_trans hplace (Nat.le_trans hnext hn)
  have hslot : ∀ i < addressSize, p + i < t.world.memory.heap.next := fun i hi =>
    Nat.lt_of_lt_of_le (Nat.add_lt_add_left hi p) hholds.placed
  cases h with
  | @written op w w' held hop hmap hrefs hkeep _ h =>
    obtain ⟨a, n, hup, hover, hinside⟩ := op.upholds_run
    have hle := hinside s hbuilt hop
    refine ⟨hup.sound_of_eq h (hop.map_eq ▸ hmap) hrefs hsound, Nat.le_trans hplace hnext, key, id,
      c, hkey, hk, hholds.upheld hup h hn (fun _ => ⟨Nat.le_trans hle hend, ?_⟩) fun i hi => ?_⟩
    · rcases hkey with rfl | hkey
      · exact hover key (hkeep 0 (by decide))
      · exact Or.inr (Nat.le_trans hle hkey)
    · exact StructWrite.get_run hbuilt hop hend h hn (hslot i hi) (hkeep i hi)
  | @refused op w w' held f hop hmap hrefs _ h =>
    obtain ⟨a, n, hup, -⟩ := op.upholds_run
    refine ⟨hup.sound_of_eq h (hop.map_eq ▸ hmap) hrefs hsound, Nat.le_trans hplace hnext, key, id,
      c, hkey, hk, hholds.mono hnext ?_ (hup.callbacks_of_eq h hholds.callback) fun i hi => ?_⟩
    · exact StructWrite.retains_refused hbuilt hop h hend hn hholds.keyed hholds.retained
    · exact op.careful_run w w' f h hn (p + i) (Or.inl (hslot i hi)) trivial
  | @elsewhere op w w' held o hother hmap hrefs hbytes h =>
    obtain ⟨a, n, hup, -⟩ := op.upholds_run
    exact ⟨hup.sound_of_eq h hmap hrefs hsound, Nat.le_trans hplace hnext, key, id, c, hkey, hk,
      hholds.upheld hup h hn (fun he => absurd he.symm hother) hbytes⟩
  | @dropped w held refs rest hp =>
    have htables := World.sameTables_collect { w with dropped := w.dropped ++ refs } rest
    refine ⟨(Holdings.Step.drop hp).sound hsound, Nat.le_trans hplace hnext, key, id, c, hkey, hk,
      hholds.mono hnext (hholds.retained.congr htables.retentions) ?_ fun i _ => ?_⟩
    · exact (Holdings.Step.drop hp).getElem?_callbacks hholds.callback
    · dsimp only
      rw [World.heap_collect]
  | other hmap hbytes _ h =>
    refine ⟨h.sound hsound, Nat.le_trans hplace hnext, key, id, c, hkey, hk, hholds.mono hnext ?_
      (h.getElem?_callbacks hholds.callback) hbytes⟩
    obtain ⟨r, hr, hmem⟩ := hholds.retained
    exact ⟨r, hmap.trans hr, hmem⟩

theorem Later.run_next (h : Relation.ReflTransGen (s.Later p alone) t u) :
    t.world.memory.heap.next ≤ u.world.memory.heap.next := by
  induction h with
  | refl => exact Nat.le_refl _
  | tail _ hstep ih => exact Nat.le_trans ih hstep.next

theorem Later.run_stores (hbuilt : Ty.Built (.struct s.layout))
    (h : Relation.ReflTransGen (s.Later p alone) t u)
    (hn : u.world.memory.heap.next ≤ wordLimit) (ht : s.Stores t p k swapped) :
    s.Stores u p k swapped := by
  induction h with
  | refl => exact ht
  | tail _ hstep ih =>
    exact hstep.stores hbuilt hn (ih (Nat.le_trans hstep.next hn))

/-- Native code that enters the address in the function pointer of a struct that is held enters the
closure. -/
theorem Stores.enters (h : s.Stores t p k swapped)
    (halive : t.world.isHeld t.held (.retention s.retention) = true) :
    ∃ id c, t.world.trampoline? id = some c ∧ c.closure = k ∧
      t.world.memory.heap.load p addressSize =
        encodeIn swapped addressSize c.code ∧
      t.world.Enters c.code c.signature k := by
  obtain ⟨hsound, -, key, id, c, -, hk, hholds⟩ := h
  obtain ⟨r, hr, hmem⟩ := hholds.retained
  have hmap := hsound.toClosed.alive_of_isHeld halive
  -- the map holds the callback
  have hheld : t.world.isHeld t.held (.callback id) = true := by
    refine World.isHeld_eq_true.mpr (Or.inr ⟨_, hmap, ?_⟩)
    rw [World.children, hr]
    exact List.mem_map_of_mem (f := fun e : Nat × Nat => Ref.callback e.2) hmem
  obtain ⟨c', hc'⟩ := hsound.trampoline_of_isHeld hheld
  have he := (World.trampoline?_eq_some.mp hc').1
  rw [hholds.callback, Option.some.injEq] at he
  subst he
  have henters := hsound.enters hc'
  rw [World.callbackAddress_eq (World.trampoline?_eq_some.mp hc').1, hk] at henters
  exact ⟨id, c, hc', hk, hholds.bytes, henters⟩

/-- A put of a closure stores it. -/
theorem stores_of_fills {op : StructWrite} {w w' : World} {held : List Ref} {t : Ty} {v : View}
    {retention offset : Nat} {value x : Value} (hw : w.Sound held)
    (hbuilt : Ty.Built (.struct s.layout)) (hplace : s.address + s.size ≤ w.memory.heap.next)
    (hop : op.Through s) (hmap : Ref.retention s.retention ∈ held) (hrefs : op.refs ⊆ held)
    (hputs : op.Puts t v retention offset value)
    (hfills : t.Fills (v.address + offset) value p x alone) (hstands : w.StandsFor x k)
    (h : op.run w = (.ok (), w')) (hn : w'.memory.heap.next ≤ wordLimit) :
    s.Stores ⟨w', held⟩ p k (alone && v.swapped) := by
  obtain ⟨a, n, hup, -⟩ := op.upholds_run
  have hnext := op.rises_run.of_eq h
  have hin := hputs.inside hbuilt hop
  obtain ⟨rfl, -⟩ := hputs.place hop
  refine ⟨hup.sound_of_eq h (hop.map_eq ▸ hmap) hrefs hw, Nat.le_trans hplace hnext, ?_⟩
  rw [hputs.map_eq.2] at hrefs
  have hrun := hputs.putField_eq_ok h
  cases hfills with
  | alone signature _ _ =>
    obtain ⟨id, c, hk, hholds⟩ := putFunction_holds hw hmap hrefs hstands
      (Nat.le_trans hin.2 hplace) hrun hn
    exact ⟨_, id, c, Or.inl rfl, hk, hholds⟩
  | @item signature n _ items i _ hx =>
    have hitems : ∀ x ∈ items, x.refs ⊆ held := fun x hx ref href => hrefs (by
      rw [Value.refs]
      exact List.mem_flatMap.mpr ⟨x, hx, href⟩)
    have hrow : v.address + offset + n * addressSize ≤ w.memory.heap.next := by
      rw [Nat.mul_comm]
      exact Nat.le_trans hin.2 hplace
    obtain ⟨key, id, c, hk, hfresh, hholds⟩ :=
      putArray_holds hmap hitems hw hrow hrun hn hx hstands
    exact ⟨key, id, c, Or.inr (Nat.le_trans hplace hfresh), hk, hholds⟩

/--
A closure is put into a function pointer of a struct, by itself or as an item of a row: as a
closure, or as a function that was made of a callback. Whatever happens later, as long as nothing
else is put there and something holds the struct, the function pointer has a code address that
enters the closure. It need not be held by anything else. An item of a row is written in the host's
byte order, anything else in the order of the view.
-/
theorem stored_callable {op : StructWrite} {w w₁ w' : World} {held held' : List Ref} {t : Ty}
    {v : View} {retention offset : Nat} {value x : Value} (hobtained : Holdings.Obtained ⟨w, held⟩)
    (hbuilt : Ty.Built (.struct s.layout)) (hplace : s.address + s.size ≤ w.memory.heap.next)
    (hop : op.Through s) (hmap : Ref.retention s.retention ∈ held) (hrefs : op.refs ⊆ held)
    (hputs : op.Puts t v retention offset value)
    (hfills : t.Fills (v.address + offset) value p x alone) (hstands : w.StandsFor x k)
    (h : op.run w = (.ok (), w₁))
    (hlater : Relation.ReflTransGen (s.Later p alone) ⟨w₁, held⟩ ⟨w', held'⟩)
    (hn : w'.memory.heap.next ≤ wordLimit)
    (halive : w'.isHeld held' (.retention s.retention) = true) :
    ∃ id c, w'.trampoline? id = some c ∧ c.closure = k ∧
      w'.memory.heap.load p addressSize =
        encodeIn (alone && v.swapped) addressSize c.code ∧
      w'.Enters c.code c.signature k := by
  have hstores := stores_of_fills hobtained.sound hbuilt hplace hop hmap hrefs hputs hfills hstands
    h (Nat.le_trans (Later.run_next hlater) hn)
  exact (Later.run_stores hbuilt hlater hn hstores).enters halive

/-! ### A closure that only a struct holds -/

theorem built_pointers : Ty.Built (.struct pointers.layout) := by
  have hplan : LayoutPlan.build (.ofFields
      [⟨"f", .descriptor ⟨.callback thunk, Descriptor.firstFree⟩, none⟩,
        ⟨"row", .descriptor ⟨.array (.callback thunk) 2, Descriptor.firstFree⟩, none⟩] false) =
          .ok pointers.layout := rfl
  refine .struct hplan fun f hf => ?_
  rcases List.mem_cons.mp hf with rfl | hf
  · exact .callback _
  · obtain rfl := List.mem_singleton.mp hf
    exact .array 2 (.callback _)

/-- A closure and a struct are held. -/
theorem obtained_withPointers :
    Holdings.Obtained ⟨withPointers, [.retention 0, .proc 0]⟩ := by
  have hclosure : Holdings.Step (Holdings.start ⟨.consecutive, some 1, 0⟩) _ :=
    .closure "p" [] fun r hr => by cases hr
  exact ⟨⟨.consecutive, some 1, 0⟩, .tail (.single (.managed hclosure)) (.managed (.struct rfl))⟩

/-- The function pointer has been given the closure. -/
def withStored : World := (pointers.put "f" (.proc 0) withPointers).2

/-- The row has been given nil after that. -/
def withRow : World := (pointers.row.put 0 .nil withStored).2

/-- The closure has been dropped at last. -/
def withDropped : World :=
  { withRow with dropped := withRow.dropped ++ [Ref.proc 0] }.collect [.retention 0]

/-- The row is not where the function pointer is. -/
theorem not_overwrites_row {b : Nat} (hb : b < 4104) :
    ¬ (StructWrite.element pointers.row 0 .nil).Overwrites b := by
  intro h
  cases h with
  | put h hle _ =>
    cases h with
    | element _ _ _ =>
      have hle' : 4104 ≤ b := hle
      omega

theorem later_withStored : Relation.ReflTransGen (pointers.Later 4096 true)
    ⟨withStored, [.retention 0, .proc 0]⟩ ⟨withDropped, [.retention 0]⟩ := by
  have hrow : pointers.Later 4096 true ⟨withStored, [.retention 0, .proc 0]⟩
      ⟨withRow, [.retention 0, .proc 0]⟩ := by
    have hrun : pointers.row.put 0 .nil withStored = (.ok (), withRow) := by
      refine Prod.ext ?_ rfl
      decide +kernel
    have hsize : addressSize = 8 := rfl
    let op := StructWrite.element pointers.row 0 .nil
    have hthrough : op.Through pointers := ⟨nestedArray_row, by decide⟩
    exact .written hthrough List.mem_cons_self (by simp [op, StructWrite.refs, Value.refs])
      (fun i hi => not_overwrites_row (by omega)) (Or.inl rfl) hrun
  exact .tail (.single hrow) (.dropped (.swap _ _ _))

/-- A closure that has been put into the function pointer is entered when only the struct is left.
-/
theorem stored_callable_dropped : ∃ id c, withDropped.trampoline? id = some c ∧ c.closure = 0 ∧
    withDropped.memory.heap.load 4096 addressSize =
      encodeIn false addressSize c.code ∧
    withDropped.Enters c.code c.signature 0 := by
  let op := StructWrite.put pointers "f" (.proc 0)
  have hput : op.run withPointers = (.ok (), withStored) := by
    refine Prod.ext ?_ rfl
    decide +kernel
  have hstands : withPointers.StandsFor (.proc 0) 0 := rfl
  have hthrough : op.Through pointers := Nested.self pointers
  exact stored_callable obtained_withPointers built_pointers (by decide) hthrough
    List.mem_cons_self (by simp [op, StructWrite.refs, Value.refs])
    (.field (f := ⟨"f", 0, .callback thunk⟩) rfl _) (.alone thunk 4096 (.proc 0)) hstands hput
    later_withStored (by decide +kernel) (by decide +kernel)

/-! ### A struct that is copied into another one -/

/-- A function pointer, at a fixed place. -/
def single : Instance :=
  ⟨⟨[⟨"f", 0, .callback thunk⟩], 8, 8, false, true⟩, ⟨4096, 8, 1, .readWrite, false, none⟩, 0⟩

/-- A struct with such a struct inside. -/
def wrapped : Instance :=
  ⟨⟨[⟨"s", 0, .struct single.layout⟩], 8, 8, false, true⟩, ⟨4104, 8, 1, .readWrite, false, none⟩, 1⟩

/-- A world with one closure and two structs. -/
def withStructs : World :=
  { World.start with
    pool := .start .consecutive (some 1) 0
    closures := #[⟨"p", [], []⟩]
    retentions := #[[], []] }

/-- The closure is in the first struct. -/
def withSingle : World := (single.put "f" (.proc 0) withStructs).2

/-- The first struct is in the second one, too. -/
def withWrapped : World := (wrapped.put "s" (.struct single) withSingle).2

/-- Only the second struct is left. -/
def withCopy : World :=
  { withWrapped with dropped := withWrapped.dropped ++ [Ref.proc 0, .retention 0] }.collect
    [.retention 1]

/-- A struct that has been put into another one does not make it keep the closure: when nothing but
the other one is left, its function pointer has the address of a slot that is not bound. -/
theorem stored_copied : single.put "f" (.proc 0) withStructs = (.ok (), withSingle) ∧
    wrapped.put "s" (.struct single) withSingle = (.ok (), withWrapped) ∧
    (withWrapped.pool.bindingAt 0).map Binding.closure = some 0 ∧
    withCopy.isHeld [.retention 1] (.retention 1) = true ∧
    withCopy.memory.heap.load 4104 addressSize =
      encodeIn false addressSize (CodeMemory.nthCode 0) ∧
    withCopy.pool.bindingAt 0 = none := by
  have hcopied : withWrapped.memory.heap.load 4104 addressSize =
      withSingle.memory.heap.load 4096 addressSize :=
    Heap.load_store withSingle.memory.heap 4104 (withSingle.memory.heap.load 4096 8)
  have hstored : withSingle.memory.heap.load 4096 addressSize =
      encodeIn false addressSize (CodeMemory.nthCode 0) :=
    Heap.load_store _ 4096 (encodeIn false 8 (CodeMemory.nthCode 0))
  refine ⟨Prod.ext ?_ rfl, Prod.ext ?_ rfl, ?_, ?_, ?_, ?_⟩
  · decide +kernel
  · decide +kernel
  · decide +kernel
  · decide +kernel
  · rw [withCopy, World.heap_collect]
    exact hcopied.trans hstored
  · decide +kernel

end Instance

end ForeignCall
