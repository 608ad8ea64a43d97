import ForeignCall.Proofs.Struct.Confined

/-!
# Refused writes

Every operation that writes checks all there is to check before its first old byte, so one that is
refused changes no byte of any region (`WriteOp.bytes_of_fault`).
-/

namespace ForeignCall

/-- An operation that writes into memory. -/
inductive WriteOp where
  /-- A number of a width, in the order of the view. -/
  | number (v : View) (offset width bits : Nat)
  | numbers (v : View) (offset width : Nat) (values : List Nat)
  /-- The addresses of values. -/
  | pointers (v : View) (offset : Nat) (values : List Value)
  | bytes (v : View) (offset : Nat) (data : List UInt8)
  /-- Bytes with a zero byte behind them. -/
  | string (v : View) (offset : Nat) (data : List UInt8)
  /-- A value of a kind; a single pointer among them. -/
  | value (v : View) (kind : Kind) (offset : Nat) (x : Value)
  | callback (v : View) (offset closure : Nat) (signature : Signature)
  | zero (v : View)
  | copy (dst : View) (offset : Nat) (src : View) (length : Nat)
  | field (s : Instance) (name : String) (x : Value)
  | element (a : InlineArray) (index : Nat) (x : Value)
  | clear (s : Instance)

/-- What an operation that writes does. -/
def WriteOp.run : WriteOp → Act Unit
  | number v offset width bits => Act.write fun m => m.writeBits v offset width bits
  | numbers v offset width values => Act.write fun m => m.writeBitsArray v offset width values
  | pointers v offset values => v.putPointers offset values
  | bytes v offset data => Act.write fun m => m.writeBytes v offset data
  | string v offset data => Act.write fun m => m.writeString v offset data
  | value v kind offset x => v.put kind offset x
  | callback v offset closure signature => do
    let _ ← putCallback v offset closure signature
  | zero v => Act.write fun m => m.clear v
  | copy dst offset src length => Act.write fun m => m.copy dst offset src length
  | field s name x => s.put name x
  | element a index x => a.put index x
  | clear s => s.clear

variable {w w' : World}

theorem Act.total_pure {α : Type} (r : α) : (pure r : Act α).Total := fun w => ⟨r, w, rfl⟩

/-- A closure is compiled before its address is written, and compiling writes nothing. -/
theorem careful_putCallback (v : View) (offset closure : Nat) (signature : Signature) :
    (putCallback v offset closure signature).Careful := by
  have hwrite : ∀ id address : Nat, Act.Rises (do
      Act.write fun m => m.writeAddress v offset address
      return id) := fun id address =>
    (v.spares_writeBits offset addressSize address).rises.bind fun _ => Act.rises_pure id
  exact .after (quiet_makeCallback signature closure _)
    (fun id => .after (Act.quiet_view _)
      (fun address => .before (Act.careful_write _) fun _ => Act.total_pure id)
      fun address => hwrite id address)
    fun id => (Act.quiet_view _).rises.bind fun address => hwrite id address

namespace Instance

variable (s : Instance)

theorem quiet_field (name : String) : (s.field name).Quiet := by
  unfold field
  split
  · exact Act.quiet_pure _
  · exact Act.quiet_refuse _

theorem careful_put (name : String) (value : Value) : (s.put name value).Careful :=
  .after (s.quiet_field name) (fun f => f.ty.careful_putField s.retention s.view f.offset value)
    fun f => (f.ty.spares_putField s.retention s.view f.offset value).rises

/-- Nothing is refused any more once the bytes of a struct have been made zero. -/
theorem careful_clear : s.clear.Careful := by
  intro w w' f h hn
  unfold clear at h
  rcases hslice : Act.ofOutcome (s.view.slice 0 s.size) w with ⟨e | whole, w₁⟩
  · rw [Act.bind_error hslice, Prod.mk.injEq] at h
    obtain ⟨-, rfl⟩ := h
    exact (Act.quiet_ofOutcome _).of_eq hslice hn
  obtain rfl : w = w₁ := congrArg Prod.snd hslice
  rw [Act.bind_ok hslice] at h
  rcases hwrite : Act.write (fun m => m.clear whole) w with ⟨e | ⟨⟩, w₁⟩
  · rw [Act.bind_error hwrite, Prod.mk.injEq] at h
    rw [← h.2, Act.write_eq_error hwrite]
    exact .refl w
  · -- the sum of address and size can only be abandoned, not refused
    rw [Act.bind_ok hwrite] at h
    cases hsum : addWords s.address s.size <;> rw [hsum] at h <;> cases (Prod.mk.inj h).1

end Instance

theorem InlineArray.careful_put (a : InlineArray) (index : Nat) (value : Value) :
    (a.put index value).Careful :=
  .after (Act.quiet_ofChecked _) (fun o => a.component.careful_putField a.retention a.view o value)
    fun o => (a.component.spares_putField a.retention a.view o value).rises

theorem rises_writeBitsArray (v : View) (offset width : Nat) (values : List Nat) :
    (Act.write fun m => m.writeBitsArray v offset width values).Rises := by
  refine Act.rises_write fun m m' h => ?_
  unfold Memory.writeBitsArray at h
  cases hs : Memory.arrayWidth width values.length with
  | error f => rw [hs] at h; cases h
  | ok size =>
    cases hc : m.check v offset size .write with
    | error f => simp [hs, hc, bind, Except.bind] at h
    | ok address =>
      simp only [hs, hc, bind, Except.bind, pure, Except.pure, Except.ok.injEq] at h
      rw [← h]
      exact Nat.le_of_eq (Heap.next_storeEach ..).symm

theorem WriteOp.careful_run (op : WriteOp) : op.run.Careful := by
  cases op with
  | number v offset width bits => exact Act.careful_write fun m => m.writeBits v offset width bits
  | numbers v offset width values =>
    exact Act.careful_write fun m => m.writeBitsArray v offset width values
  | pointers v offset values =>
    exact .after (Act.quiet_ofChecked _) (fun _ => Act.careful_write _)
      fun _ => rises_writeBitsArray v offset _ _
  | bytes v offset data => exact Act.careful_write fun m => m.writeBytes v offset data
  | string v offset data => exact Act.careful_write fun m => m.writeString v offset data
  | value v kind offset x => exact v.careful_put offset kind x
  | callback v offset closure signature =>
    exact (careful_putCallback v offset closure signature).before fun _ => Act.total_pure ()
  | zero v => exact Act.careful_write fun m => m.clear v
  | copy dst offset src length => exact Act.careful_write fun m => m.copy dst offset src length
  | field s name x => exact s.careful_put name x
  | element a index x => exact a.careful_put index x
  | clear s => exact s.careful_clear

/--
An operation that is refused changes no byte of any region, whichever element, nested element or
check refuses it. Only scratch buffers that it has been handed for itself may have been written.
-/
theorem WriteOp.bytes_of_fault {op : WriteOp} {f : Fault}
    (h : op.run w = (.error (.fault f), w')) (hn : w'.memory.heap.next ≤ wordLimit) {c : Nat}
    (hc : c < w.memory.heap.next ∨ w'.memory.heap.next ≤ c) :
    w'.memory.heap.get c = w.memory.heap.get c :=
  op.careful_run w w' f h hn c hc trivial

/-! ## Two rows of integers -/

/-- Two rows of two integers each, at a fixed place. -/
def rows : Instance :=
  ⟨⟨[⟨"a", 0, .array (.array .int32 2) 2⟩], 16, 4, false, true⟩,
    ⟨4096, 16, 1, .readWrite, false, none⟩, 0⟩

/-- A world in which the first byte of the rows is 7. -/
def World.marked : World :=
  { start with memory := { start.memory with heap := start.memory.heap.set 4096 7 } }

/-- A first row that can be written, and a second one whose last item is no integer. -/
def putRows : WriteOp :=
  .field rows "a" (.array [.array [.int 1, .int 2], .array [.int 3, .bool true]])

/-- The first byte stays, although the first row could be written. -/
theorem WriteOp.bytes_of_fault_rows : ∃ w',
    putRows.run World.marked = (.error (.fault (.type "integer" "bool")), w') ∧
      w'.memory.heap.next ≤ wordLimit ∧ w'.memory.heap.get 4096 = 7 := by
  have hout : (putRows.run World.marked).1 = .error (.fault (.type "integer" "bool")) := by
    decide +kernel
  have hrun : putRows.run World.marked =
      (.error (.fault (.type "integer" "bool")), (putRows.run World.marked).2) := by rw [← hout]
  have hn : (putRows.run World.marked).2.memory.heap.next ≤ wordLimit := by decide +kernel
  have hold : 4096 < World.marked.memory.heap.next := by decide
  refine ⟨_, hrun, hn, ?_⟩
  rw [WriteOp.bytes_of_fault hrun hn (Or.inl hold)]
  exact (Heap.get_set _ _ _ _).trans (if_pos rfl)

end ForeignCall
