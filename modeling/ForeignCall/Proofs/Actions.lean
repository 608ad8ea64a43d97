import ForeignCall.World
import Mathlib.Data.List.Forall2

/-!
# How operations succeed

An operation that succeeds has succeeded in each of its steps, one after another
(`Act.bind_eq_ok`). The other statements say the same of the steps that operations are made of.
-/

namespace ForeignCall

theorem exists_of_forall₂ {α β : Type} {R : α → β → Prop} {l : List α} {l' : List β}
    (h : List.Forall₂ R l l') {i : Nat} {x : α} (hx : l[i]? = some x) :
    ∃ y, l'[i]? = some y ∧ R x y := by
  induction h generalizing i with
  | nil => cases hx
  | cons hr _ ih =>
    cases i with
    | zero =>
      obtain rfl := Option.some.inj hx
      exact ⟨_, rfl, hr⟩
    | succ i => exact ih hx

theorem Checked.outcome_eq_ok {α : Type} {c : Checked α} {a : α} :
    c.outcome = .ok a ↔ c = .ok a := by
  cases c <;> simp [Checked.outcome]

/-- Two checks pass one after the other. -/
theorem Checked.bind_eq_ok {α β : Type} {c : Checked α} {f : α → Checked β} {b : β} :
    c >>= f = .ok b ↔ ∃ a, c = .ok a ∧ f a = .ok b := by
  cases c with
  | error e => exact iff_of_false nofun fun ⟨_, h, _⟩ => nomatch h
  | ok a => exact ⟨fun h => ⟨a, rfl, h⟩, fun ⟨a', h, hf⟩ => by rw [← hf, ← Except.ok.inj h]; rfl⟩

theorem Checked.map_eq_ok {α β : Type} {c : Checked α} {f : α → β} {b : β} :
    f <$> c = .ok b ↔ ∃ a, c = .ok a ∧ f a = b := by
  cases c <;> simp [Functor.map, Except.map]

/-- What only answers behind a check is refused as the check is. -/
theorem Checked.bind_pure_eq_error {α β : Type} {c : Checked α} {g : α → β} {f : Fault} :
    (c >>= fun a => pure (g a)) = .error f ↔ c = .error f := by
  cases c with
  | error e =>
    show Except.error e = _ ↔ _
    simp only [Except.error.injEq]
  | ok a => exact iff_of_false nofun nofun

/-- Checks that all pass, pass one after another. -/
theorem Checked.mapM_of_ok {α β : Type} {f : α → Checked β} {g : α → β} {l : List α}
    (h : ∀ a ∈ l, f a = .ok (g a)) : l.mapM f = .ok (l.map g) := by
  induction l with
  | nil => rfl
  | cons a l ih =>
    rw [List.mapM_cons, h a List.mem_cons_self, ih fun b hb => h b (List.mem_cons_of_mem a hb)]
    rfl

instance {α : Type} [DecidableEq α] : DecidableEq (Outcome α)
  | .ok a, .ok b => decidable_of_iff (a = b) (by simp)
  | .error e, .error f => decidable_of_iff (e = f) (by simp)
  | .ok _, .error _ => isFalse (by simp)
  | .error _, .ok _ => isFalse (by simp)

namespace Act

variable {α β : Type} {w w' : World}

/-! ## Sequences -/

theorem bind_ok {x : Act α} {f : α → Act β} {a : α} (h : x w = (.ok a, w')) :
    (x >>= f) w = f a w' := by
  show Act.bind x f w = f a w'
  rw [Act.bind, h]

theorem bind_error {x : Act α} {f : α → Act β} {e : Failure} (h : x w = (.error e, w')) :
    (x >>= f) w = (.error e, w') := by
  show Act.bind x f w = (.error e, w')
  rw [Act.bind, h]

/-- Two operations succeed one after the other. -/
theorem bind_eq_ok {x : Act α} {f : α → Act β} {b : β} :
    (x >>= f) w = (.ok b, w') ↔ ∃ a w₁, x w = (.ok a, w₁) ∧ f a w₁ = (.ok b, w') := by
  constructor
  · intro h
    rcases hx : x w with ⟨e | a, w₁⟩
    · rw [bind_error hx, Prod.mk.injEq] at h
      cases h.1
    · rw [bind_ok hx] at h
      exact ⟨a, w₁, rfl, h⟩
  · rintro ⟨a, w₁, hx, hf⟩
    rw [bind_ok hx, hf]

/-- What only answers behind an operation leaves the world as it is. -/
theorem snd_bind_pure {x : Act α} {f : α → β} : ((x >>= fun a => pure (f a)) w).2 = (x w).2 := by
  rcases h : x w with ⟨e | a, w'⟩
  · rw [bind_error h]
  · rw [bind_ok h]
    rfl

theorem map_ok {x : Act α} {f : α → β} {a : α} (h : x w = (.ok a, w')) :
    (f <$> x) w = (.ok (f a), w') :=
  bind_ok (f := fun a => Act.pure (f a)) h

theorem map_eq_ok {x : Act α} {f : α → β} {b : β} :
    (f <$> x) w = (.ok b, w') ↔ ∃ a, x w = (.ok a, w') ∧ f a = b := by
  show (x >>= fun a => Act.pure (f a)) w = _ ↔ _
  rw [bind_eq_ok]
  constructor
  · rintro ⟨a, w₁, hx, hp⟩
    obtain ⟨rfl, rfl⟩ : f a = b ∧ w₁ = w' := by
      simpa [Act.pure] using hp
    exact ⟨a, hx, rfl⟩
  · rintro ⟨a, hx, rfl⟩
    exact ⟨a, w', hx, rfl⟩

@[simp] theorem pure_eq_ok {a b : α} : (pure a : Act α) w = (.ok b, w') ↔ a = b ∧ w = w' := by
  show ((Except.ok a : Outcome α), w) = _ ↔ _
  simp

theorem ext {x y : Act α} (h : ∀ w, x w = y w) : x = y := funext h

instance : LawfulMonad Act := LawfulMonad.mk' Act
  (fun x => ext fun w => by
    rcases hx : x w with ⟨e | a, w'⟩
    · exact bind_error hx
    · exact bind_ok hx)
  (fun a f => rfl)
  (fun x f g => ext fun w => by
    rcases hx : x w with ⟨e | a, w'⟩
    · rw [bind_error (bind_error hx), bind_error hx]
    · rw [bind_ok hx]
      rcases hf : f a w' with ⟨e | b, w''⟩
      · rw [bind_error ((bind_ok hx).trans hf), bind_error hf]
      · rw [bind_ok ((bind_ok hx).trans hf), bind_ok hf])

/-! ## Single steps -/

@[simp] theorem refuse_ne_ok {f : Fault} {a : α} : (refuse f : Act α) w ≠ (.ok a, w') := by
  simp [refuse, fail]

@[simp] theorem view_eq_ok {f : World → α} {a : α} :
    view f w = (.ok a, w') ↔ f w = a ∧ w = w' := by
  simp [view]

@[simp] theorem modify_eq_ok {f : World → World} {u : Unit} :
    modify f w = (.ok u, w') ↔ f w = w' := by
  simp [modify]

@[simp] theorem ofOutcome_eq_ok {o : Outcome α} {a : α} :
    ofOutcome o w = (.ok a, w') ↔ o = .ok a ∧ w = w' := by
  simp [ofOutcome]

@[simp] theorem ofChecked_eq_ok {c : Checked α} {a : α} :
    ofChecked c w = (.ok a, w') ↔ c = .ok a ∧ w = w' := by
  cases c <;> simp [ofChecked, ofOutcome, Checked.outcome]

@[simp] theorem read_eq_ok {f : Memory → Checked α} {a : α} :
    read f w = (.ok a, w') ↔ f w.memory = .ok a ∧ w = w' := by
  unfold read
  cases f w.memory <;> simp [Checked.outcome]

@[simp] theorem write_eq_ok {f : Memory → Checked Memory} {u : Unit} :
    write f w = (.ok u, w') ↔ ∃ m, f w.memory = .ok m ∧ { w with memory := m } = w' := by
  unfold write
  cases f w.memory <;> simp

@[simp] theorem make_eq_ok {f : Memory → Outcome (α × Memory)} {a : α} :
    make f w = (.ok a, w') ↔ ∃ m, f w.memory = .ok (a, m) ∧ { w with memory := m } = w' := by
  unfold make
  rcases f w.memory with e | ⟨b, m⟩
  · simp
  · simp only [Prod.mk.injEq, Except.ok.injEq]
    constructor
    · rintro ⟨rfl, rfl⟩
      exact ⟨m, ⟨rfl, rfl⟩, rfl⟩
    · rintro ⟨m', ⟨rfl, rfl⟩, rfl⟩
      exact ⟨rfl, rfl⟩

/-- Operations on a list that have all succeeded have each succeeded. -/
theorem forall₂_mapM {f : α → Act β} {l : List α} {ys : List β} (h : l.mapM f w = (.ok ys, w')) :
    List.Forall₂ (fun x y => ∃ w₁ w₂, f x w₁ = (.ok y, w₂)) l ys := by
  induction l generalizing ys w with
  | nil =>
    rw [List.mapM_nil] at h
    obtain ⟨rfl, -⟩ := pure_eq_ok.mp h
    exact .nil
  | cons x rest ih =>
    rw [List.mapM_cons] at h
    obtain ⟨y, w₁, hy, h⟩ := bind_eq_ok.mp h
    obtain ⟨ys, w₂, hys, h⟩ := bind_eq_ok.mp h
    obtain ⟨rfl, rfl⟩ := pure_eq_ok.mp h
    exact .cons ⟨w, w₁, hy⟩ (ih hys)

/-- Operations on a list succeed one after another. -/
theorem mapM_cons_ok {f : α → Act β} {a : α} {l : List α} {b : β} {bs : List β} {w₁ : World}
    (h : f a w = (.ok b, w₁)) (hl : l.mapM f w₁ = (.ok bs, w')) :
    (a :: l).mapM f w = (.ok (b :: bs), w') := by
  rw [List.mapM_cons]
  exact bind_eq_ok.mpr ⟨b, w₁, h, bind_eq_ok.mpr ⟨bs, w', hl, rfl⟩⟩

/-- The C string at an address other than null becomes a new string. -/
theorem stringFrom_of_ne_zero {address : Nat} (h : address ≠ 0) (w : World) :
    stringFrom address w =
      (.ok (.str w.strings.size), (w.newString (w.memory.heap.cString address)).2) := by
  have hat : w.memory.stringAt address = some (w.memory.heap.cString address) := if_neg h
  exact bind_eq_ok.mpr ⟨_, w, view_eq_ok.mpr ⟨hat, rfl⟩, rfl⟩

/-- A look at memory that fails reports a fault and leaves everything as it is. -/
theorem fault_of_read {f : Memory → Checked α} {e : Failure} (h : read f w = (.error e, w')) :
    w' = w ∧ ∃ fault, e = .fault fault := by
  unfold read at h
  cases hf : f w.memory with
  | ok a => simp [hf, Checked.outcome] at h
  | error fault =>
    simp only [hf, Checked.outcome, Prod.mk.injEq, Except.error.injEq] at h
    exact ⟨h.2.symm, fault, h.1.symm⟩

/-- A change of memory that fails reports a fault and leaves everything as it is. -/
theorem fault_of_write {f : Memory → Checked Memory} {e : Failure}
    (h : write f w = (.error e, w')) : w' = w ∧ ∃ fault, e = .fault fault := by
  unfold write at h
  cases hf : f w.memory with
  | ok m => simp [hf] at h
  | error fault =>
    simp only [hf, Prod.mk.injEq, Except.error.injEq] at h
    exact ⟨h.2.symm, fault, h.1.symm⟩

end Act

end ForeignCall
