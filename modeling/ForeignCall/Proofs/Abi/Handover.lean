import ForeignCall.Proofs.Abi.Words

/-!
# Handing arguments over

What is pushed for a call is what is popped from it (`Call.popAll_pushAll`), and a result comes back
as it has been returned (`Returned.toBytes_ofBytes`): every record keeps its own bytes, in whatever
registers or part of the stack they travel. The induction is on the arguments. Each of them appends
to the registers and the stack exactly what its `pop` takes from the front of them, and counts the
same registers.
-/

namespace ForeignCall.Abi

/-! ## Lanes -/

theorem Record.length_lanes {r : Record} {lanes : List Lane} (h : r.lanes = some lanes) :
    lanes.length = (r.size + 7) / 8 := by
  unfold Record.lanes at h
  split at h
  · rw [← Option.some.inj h]
    simp
  · cases h

/-- The eightbytes that go to one kind of register. -/
def sorted (lane : Lane) (words : List (Lane × Eightbyte)) : List Eightbyte :=
  (words.filter fun p => p.1 = lane).map Prod.snd

theorem sorted_cons_self (lane : Lane) (word : Eightbyte) (rest : List (Lane × Eightbyte)) :
    sorted lane ((lane, word) :: rest) = word :: sorted lane rest := by
  simp [sorted]

theorem sorted_cons_of_ne {lane lane' : Lane} (h : lane' ≠ lane) (word : Eightbyte)
    (rest : List (Lane × Eightbyte)) : sorted lane ((lane', word) :: rest) = sorted lane rest := by
  simp [sorted, h]

theorem length_sorted_zip (lane : Lane) {lanes : List Lane} {words : List Eightbyte}
    (h : lanes.length = words.length) :
    (sorted lane (lanes.zip words)).length = lanes.count lane := by
  induction lanes generalizing words with
  | nil => rfl
  | cons l lanes ih =>
    cases words with
    | nil => cases h
    | cons word words =>
      rw [List.zip_cons_cons]
      by_cases hl : l = lane
      · subst hl
        rw [sorted_cons_self, List.length_cons, List.count_cons_self, ih (Nat.succ.inj h)]
      · rw [sorted_cons_of_ne hl, List.count_cons_of_ne hl, ih (Nat.succ.inj h)]

theorem Call.fill_eq (c : Call) (words : List (Lane × Eightbyte)) :
    c.fill words =
      ⟨c.general ++ sorted .general words, c.float ++ sorted .float words, c.stack⟩ := by
  induction words generalizing c with
  | nil => simp [Call.fill, sorted]
  | cons p words ih =>
    obtain ⟨lane, word⟩ := p
    cases lane with
    | general =>
      rw [Call.fill, ih, sorted_cons_self, sorted_cons_of_ne (by decide)]
      simp
    | float =>
      rw [Call.fill, ih, sorted_cons_self, sorted_cons_of_ne (by decide)]
      simp

theorem Returned.fill_eq (r : Returned) (words : List (Lane × Eightbyte)) :
    r.fill words =
      ⟨r.general ++ sorted .general words, r.float ++ sorted .float words, r.memory⟩ := by
  induction words generalizing r with
  | nil => simp [Returned.fill, sorted]
  | cons p words ih =>
    obtain ⟨lane, word⟩ := p
    cases lane with
    | general =>
      rw [Returned.fill, ih, sorted_cons_self, sorted_cons_of_ne (by decide)]
      simp
    | float =>
      rw [Returned.fill, ih, sorted_cons_self, sorted_cons_of_ne (by decide)]
      simp

/-- The eightbytes come out of the registers of their lanes in the order in which they went in. -/
theorem Cursor.drain_fill {lanes : List Lane} {words : List Eightbyte}
    (h : lanes.length = words.length) (g f stack : List Eightbyte) (m n : Nat) :
    (Cursor.mk (sorted .general (lanes.zip words) ++ g) (sorted .float (lanes.zip words) ++ f)
      stack m n).drain lanes =
      (words.flatten, ⟨g, f, stack, m + lanes.count .general, n + lanes.count .float⟩) := by
  -- each lane takes the head of its own kind of register and leaves the other kind alone
  induction lanes generalizing words m n with
  | nil =>
    cases words with
    | nil => rfl
    | cons word words => cases h
  | cons lane lanes ih =>
    cases words with
    | nil => cases h
    | cons word words =>
      have h' := Nat.succ.inj h
      cases lane with
      | general =>
        rw [List.zip_cons_cons, sorted_cons_self, sorted_cons_of_ne (by decide), drain]
        simp only [List.cons_append, List.tail_cons, List.headD_cons]
        rw [ih h', List.count_cons_self, List.count_cons_of_ne (by decide), List.flatten_cons]
        simp only [Prod.mk.injEq, Cursor.mk.injEq, true_and, and_true]
        omega
      | float =>
        rw [List.zip_cons_cons, sorted_cons_self, sorted_cons_of_ne (by decide), drain]
        simp only [List.cons_append, List.tail_cons, List.headD_cons]
        rw [ih h', List.count_cons_self, List.count_cons_of_ne (by decide), List.flatten_cons]
        simp only [Prod.mk.injEq, Cursor.mk.injEq, true_and]
        omega

/-! ## One argument -/

/-- A cursor that has taken a call, in front of what is still to be taken. -/
def Call.taken (c : Call) (g f s : List Eightbyte) : Cursor :=
  ⟨g, f, s, c.general.length, c.float.length⟩

theorem Cursor.takeStack_append {words : List Eightbyte} {size : Nat}
    (h : words.length = (size + 7) / 8) (c : Call) (g f s : List Eightbyte) :
    (c.taken g f (words ++ s)).takeStack size = (words.flatten, c.taken g f s) := by
  unfold takeStack Call.taken
  simp only [← h, List.take_left', List.drop_left']

section

variable {r : Record} {lanes : List Lane} (hl : r.lanes = some lanes)

include hl

theorem Cursor.pop_of_room {c : Cursor}
    (h : c.usedGeneral + (Call.demand lanes).1 ≤ generalRegisters ∧
      c.usedFloat + (Call.demand lanes).2 ≤ floatRegisters) :
    c.pop r = (Bytes.fit r.size (c.drain lanes).1, (c.drain lanes).2) := by
  simp only [pop, hl, Bool.and_eq_true, decide_eq_true_eq, if_pos h]

theorem Cursor.pop_of_full {c : Cursor}
    (h : ¬(c.usedGeneral + (Call.demand lanes).1 ≤ generalRegisters ∧
      c.usedFloat + (Call.demand lanes).2 ≤ floatRegisters)) :
    c.pop r = (Bytes.fit r.size (c.takeStack r.size).1, (c.takeStack r.size).2) := by
  simp only [pop, hl, Bool.and_eq_true, decide_eq_true_eq, if_neg h]

end

/-- An argument appends what its `pop` takes out again. -/
theorem Call.pop_push (c : Call) (r : Record) (bytes : List UInt8) : ∃ g f s,
    c.push r bytes = ⟨c.general ++ g, c.float ++ f, c.stack ++ s⟩ ∧
      ∀ g' f' s', (c.taken (g ++ g') (f ++ f') (s ++ s')).pop r =
        (Bytes.fit r.size bytes, (c.push r bytes).taken g' f' s') := by
  have hlen := r.length_eightbytes bytes
  have hfit := r.fit_eightbytes bytes
  have hstack : ∀ g' f' s',
      (c.taken g' f' (r.eightbytes bytes ++ s')).takeStack r.size =
        ((r.eightbytes bytes).flatten, c.taken g' f' s') := fun g' f' s' =>
    Cursor.takeStack_append hlen c g' f' s'
  cases hl : r.lanes with
  | none =>
    refine ⟨[], [], r.eightbytes bytes, by simp [push, hl], fun g' f' s' => ?_⟩
    simp only [Cursor.pop, push, hl, List.nil_append, hstack, hfit]
    rfl
  | some lanes =>
    have hlanes : lanes.length = (r.eightbytes bytes).length := by
      rw [Record.length_lanes hl, hlen]
    by_cases hroom : c.general.length + (demand lanes).1 ≤ generalRegisters ∧
        c.float.length + (demand lanes).2 ≤ floatRegisters
    · -- both sides count the same registers, so they agree on whether there is room
      have hpush : c.push r bytes = c.fill (lanes.zip (r.eightbytes bytes)) := by
        simp only [push, hl, Bool.and_eq_true, decide_eq_true_eq, if_pos hroom]
      refine ⟨sorted .general (lanes.zip (r.eightbytes bytes)),
        sorted .float (lanes.zip (r.eightbytes bytes)), [],
        by rw [hpush, fill_eq, List.append_nil], fun g' f' s' => ?_⟩
      have hdrain := Cursor.drain_fill hlanes g' f' s' c.general.length c.float.length
      rw [Cursor.pop_of_room hl hroom, hpush, fill_eq, List.nil_append]
      unfold taken
      rw [hdrain, List.length_append, List.length_append,
        length_sorted_zip _ hlanes, length_sorted_zip _ hlanes, hfit]
    · have hpush : c.push r bytes = { c with stack := c.stack ++ r.eightbytes bytes } := by
        simp only [push, hl, Bool.and_eq_true, decide_eq_true_eq, if_neg hroom]
      refine ⟨[], [], r.eightbytes bytes, by simp [hpush], fun g' f' s' => ?_⟩
      rw [Cursor.pop_of_full hl hroom, List.nil_append, List.nil_append, hstack, hfit, hpush]
      rfl

/-! ## All arguments -/

theorem Call.popAll_foldl (c : Call) (arguments : List (Record × List UInt8)) : ∃ g f s,
    arguments.foldl (fun c a => c.push a.1 a.2) c =
        ⟨c.general ++ g, c.float ++ f, c.stack ++ s⟩ ∧
      ((c.taken g f s).popAll (arguments.map Prod.fst)).1 =
        arguments.map fun a => Bytes.fit a.1.size a.2 := by
  -- later arguments stand behind earlier ones: the induction needs any rest
  suffices h : ∃ g f s,
      arguments.foldl (fun c a => c.push a.1 a.2) c =
          ⟨c.general ++ g, c.float ++ f, c.stack ++ s⟩ ∧
        ∀ g' f' s', ((c.taken (g ++ g') (f ++ f') (s ++ s')).popAll (arguments.map Prod.fst)).1 =
          arguments.map fun a => Bytes.fit a.1.size a.2 by
    obtain ⟨g, f, s, hc, hp⟩ := h
    refine ⟨g, f, s, hc, ?_⟩
    have := hp [] [] []
    rwa [List.append_nil, List.append_nil, List.append_nil] at this
  induction arguments generalizing c with
  | nil => exact ⟨[], [], [], by simp, fun _ _ _ => rfl⟩
  | cons a arguments ih =>
    obtain ⟨g, f, s, hpush, hpop⟩ := c.pop_push a.1 a.2
    obtain ⟨g₁, f₁, s₁, hrest, hall⟩ := ih (c.push a.1 a.2)
    refine ⟨g ++ g₁, f ++ f₁, s ++ s₁, ?_, fun g' f' s' => ?_⟩
    · rw [List.foldl_cons, hrest, hpush]
      simp
    · rw [List.append_assoc, List.append_assoc, List.append_assoc, List.map_cons, List.map_cons,
        Cursor.popAll, hpop]
      show _ :: ((_ : Call).taken _ _ _ |>.popAll _).1 = _
      rw [hall]

/-- The bytes of arguments as they arrive, each cut or filled to the size of its record. -/
def handedOver (arguments : List (Record × List UInt8)) : List (List UInt8) :=
  arguments.map fun a => Bytes.fit a.1.size a.2

/-- The code that is entered with a call takes out the bytes of every argument. -/
theorem Call.popAll_pushAll (result : Record) (arguments : List (Record × List UInt8)) :
    (((pushAll result arguments).cursor result).popAll (arguments.map Prod.fst)).1 =
      handedOver arguments := by
  by_cases hr : result.inMemory = true
  · obtain ⟨g, f, s, hc, hp⟩ := Call.popAll_foldl ⟨[Bytes.zeros 8], [], []⟩ arguments
    have hpush : pushAll result arguments = ⟨[Bytes.zeros 8] ++ g, [] ++ f, [] ++ s⟩ := by
      unfold pushAll
      rw [if_pos hr]
      exact hc
    rw [hpush, cursor, if_pos hr]
    exact hp
  · obtain ⟨g, f, s, hc, hp⟩ := Call.popAll_foldl empty arguments
    have hpush : pushAll result arguments = ⟨[] ++ g, [] ++ f, [] ++ s⟩ := by
      unfold pushAll
      rw [if_neg hr]
      exact hc
    rw [hpush, cursor, if_neg hr]
    exact hp

/-! ## Results -/

/-- A result in registers comes back cut or filled to the size of its record, and one in memory as
it has been written there. -/
theorem Returned.toBytes_ofBytes (result : Record) (bytes : List UInt8) :
    (ofBytes result bytes).toBytes result =
      if result.inMemory then bytes else Bytes.fit result.size bytes := by
  unfold ofBytes toBytes Record.inMemory
  cases hl : result.lanes with
  | none => rfl
  | some lanes =>
    have hlanes : lanes.length = (result.eightbytes bytes).length := by
      rw [Record.length_lanes hl, result.length_eightbytes]
    have hdrain := Cursor.drain_fill hlanes [] [] [] 0 0
    rw [List.append_nil, List.append_nil] at hdrain
    simp only [fill_eq, List.nil_append, hdrain, result.fit_eightbytes]
    rfl

end ForeignCall.Abi
