import ForeignCall.Memory.Table
import ForeignCall.Proofs.Actions
import ForeignCall.Proofs.Memory.Blocks

/-!
# Views derived from a view

A view is moved, cut, retyped, reordered or made read-only, step after step. What comes out lies
inside the view that the steps began with and has its origin, so it reaches nothing that the first
one does not, and goes dead together with it.

Main statement: `View.derivedBy_confined`. The permissions stay inside those of the first view too,
unless a view that may not be read is made read-only: that gives the permission to read
(`View.derivedBy_readable`).
-/

namespace ForeignCall

namespace View

/-! ## One step -/

/-- A way to make one view out of another. -/
inductive Derivation where
  | offset (delta : Int)
  | slice (offset size : Nat)
  | index (index : Nat)
  | typed (typeSize : Nat)
  | order (order : ByteOrder)
  | readOnly
  deriving DecidableEq, Repr

/-- The view that a step makes. -/
def Derivation.apply : Derivation → View → Outcome View
  | .offset delta, v => v.offset delta
  | .slice start length, v => v.slice start length
  | .index i, v => v.index i
  | .typed width, v => .ok (v.typed width)
  | .order o, v => .ok (v.order o)
  | .readOnly, v => .ok (v.readOnly)

/-- The permissions after a step. -/
def Derivation.access : Derivation → Access → Access
  | .readOnly, _ => Access.readOnly
  | _, a => a

/-- Whether the byte order is not the host's after a step. -/
def Derivation.swaps : Derivation → Bool → Bool
  | .order o, _ => o.resolve != Endian.host
  | _, swapped => swapped

/-- A view whose bytes are among those of another, kept alive by the same origin. -/
structure Within (w v : View) : Prop where
  start : v.address ≤ w.address
  stop : w.address + w.size ≤ v.address + v.size
  origin : w.origin = v.origin

theorem Within.of_eq {v w : View} (ha : w.address = v.address) (hs : w.size = v.size)
    (ho : w.origin = v.origin) : w.Within v :=
  ⟨Nat.le_of_eq ha.symm, Nat.le_of_eq (by rw [ha, hs]), ho⟩

theorem Within.trans {u v w : View} (h₁ : w.Within v) (h₂ : v.Within u) : w.Within u :=
  ⟨Nat.le_trans h₂.start h₁.start, Nat.le_trans h₁.stop h₂.stop, h₁.origin.trans h₂.origin⟩

theorem Within.size_le {v w : View} (h : w.Within v) : w.size ≤ v.size := by
  have h1 := h.start
  have h2 := h.stop
  omega

variable {v w : View}

theorem slice_eq_derive {offset size : Nat} (h : v.slice offset size = .ok w) :
    offset + size ≤ v.size ∧ w = v.derive (v.address + offset) size := by
  unfold slice at h
  split at h
  next hb =>
    unfold addWords at h
    split at h
    · exact ⟨hb.2, (Except.ok.inj h).symm⟩
    · cases h
  · cases h

theorem within_derive {address size : Nat} (h1 : v.address ≤ address)
    (h2 : address + size ≤ v.address + v.size) : (v.derive address size).Within v :=
  ⟨h1, h2, rfl⟩

/-- What a step does to a view with a known end. -/
theorem Derivation.apply_eq_ok {d : Derivation} (hb : v.size < unbounded)
    (h : d.apply v = .ok w) :
    w.Within v ∧ w.access = d.access v.access ∧ w.swapped = d.swaps v.swapped := by
  cases d with
  | offset delta =>
    have hbounded : v.isUnbounded = false := beq_eq_false_iff_ne.mpr (Nat.ne_of_lt hb)
    simp only [apply, View.offset, hbounded, Bool.false_eq_true, ↓reduceIte] at h
    split at h
    · cases h
    next hd =>
      unfold addWords at h
      split at h
      · rw [← Except.ok.inj h]
        exact ⟨within_derive (by omega) (by omega), rfl, rfl⟩
      · cases h
  | slice start length =>
    obtain ⟨hle, rfl⟩ := slice_eq_derive h
    exact ⟨within_derive (by omega) (by omega), rfl, rfl⟩
  | index i =>
    simp only [apply, View.index] at h
    split at h
    · obtain ⟨hle, rfl⟩ := slice_eq_derive h
      exact ⟨within_derive (by omega) (by omega), rfl, rfl⟩
    · cases h
  | typed width =>
    rw [← Except.ok.inj h]
    exact ⟨.of_eq rfl rfl rfl, rfl, rfl⟩
  | order o =>
    rw [← Except.ok.inj h]
    exact ⟨.of_eq rfl rfl rfl, rfl, rfl⟩
  | readOnly =>
    rw [← Except.ok.inj h]
    exact ⟨.of_eq rfl rfl rfl, rfl, rfl⟩

/-! ## Any number of steps -/

/-- The view after steps, one after another. -/
def derivedBy (v : View) (steps : List Derivation) : Outcome View :=
  steps.foldlM (fun v d => d.apply v) v

theorem derivedBy_cons {d : Derivation} {steps : List Derivation}
    (h : v.derivedBy (d :: steps) = .ok w) :
    ∃ u, d.apply v = .ok u ∧ u.derivedBy steps = .ok w := by
  unfold derivedBy at h
  rw [List.foldlM_cons] at h
  cases hd : d.apply v with
  | error e =>
    rw [hd] at h
    cases h
  | ok u =>
    rw [hd] at h
    exact ⟨u, rfl, h⟩

theorem derivedBy_eq_ok {steps : List Derivation} (hb : v.size < unbounded)
    (h : v.derivedBy steps = .ok w) :
    w.Within v ∧ w.access = steps.foldl (fun access d => d.access access) v.access ∧
      w.swapped = steps.foldl (fun swapped d => d.swaps swapped) v.swapped := by
  induction steps generalizing v with
  | nil =>
    rw [← Except.ok.inj h]
    exact ⟨.of_eq rfl rfl rfl, rfl, rfl⟩
  | cons d steps ih =>
    obtain ⟨u, hd, hrest⟩ := derivedBy_cons h
    obtain ⟨hwithin, haccess, hswapped⟩ := d.apply_eq_ok hb hd
    obtain ⟨hwithin', haccess', hswapped'⟩ := ih (Nat.lt_of_le_of_lt hwithin.size_le hb) hrest
    refine ⟨hwithin'.trans hwithin, ?_, ?_⟩
    · rw [haccess', haccess, List.foldl_cons]
    · rw [hswapped', hswapped, List.foldl_cons]

/-- No step changes what keeps the bytes alive, whether or not the end of the view is known. -/
theorem Derivation.origin_apply {d : Derivation} (h : d.apply v = .ok w) :
    w.origin = v.origin := by
  cases d with
  | offset delta =>
    simp only [apply, View.offset] at h
    split at h
    · rw [← Except.ok.inj h]
      rfl
    · split at h
      · cases h
      · unfold addWords at h
        split at h
        · rw [← Except.ok.inj h]
          rfl
        · cases h
  | slice start length =>
    obtain ⟨-, rfl⟩ := slice_eq_derive h
    rfl
  | index i =>
    simp only [apply, View.index] at h
    split at h
    · obtain ⟨-, rfl⟩ := slice_eq_derive h
      rfl
    · cases h
  | typed width =>
    rw [← Except.ok.inj h]
    rfl
  | order o =>
    rw [← Except.ok.inj h]
    rfl
  | readOnly =>
    rw [← Except.ok.inj h]
    rfl

theorem origin_derivedBy {steps : List Derivation} (h : v.derivedBy steps = .ok w) :
    w.origin = v.origin := by
  induction steps generalizing v with
  | nil =>
    rw [← Except.ok.inj h]
  | cons d steps ih =>
    obtain ⟨u, hd, hrest⟩ := derivedBy_cons h
    rw [ih hrest, d.origin_apply hd]

/-- Permissions are either kept or those of a view that is read only. -/
theorem foldl_access (steps : List Derivation) (access : Access) :
    steps.foldl (fun access d => d.access access) access =
      if .readOnly ∈ steps then .readOnly else access := by
  induction steps generalizing access with
  | nil => rfl
  | cons d steps ih =>
    rw [List.foldl_cons, ih]
    by_cases hd : d = .readOnly
    · subst hd
      simp [Derivation.access]
    · have hkept : d.access access = access := by
        cases d with
        | readOnly => exact absurd rfl hd
        | _ => rfl
      rw [hkept]
      simp only [List.mem_cons, Ne.symm hd, false_or]

theorem foldl_swaps {steps : List Derivation} (h : ∀ o, .order o ∉ steps)
    (swapped : Bool) : steps.foldl (fun swapped d => d.swaps swapped) swapped = swapped := by
  induction steps with
  | nil => rfl
  | cons d steps ih =>
    have hkept : d.swaps swapped = swapped := by
      cases d with
      | order o => exact absurd List.mem_cons_self (h o)
      | _ => rfl
    rw [List.foldl_cons, hkept]
    exact ih fun o hm => h o (List.mem_cons_of_mem d hm)

/-! ## Accesses through what is derived -/

/-- An access that a view inside another admits is the same access through the other. -/
theorem Within.check (h : w.Within v) (hz : v.address ≠ 0) (hw : v.size < wordLimit) {m : Memory}
    {offset width : Nat} {mode : Mode} {address : Nat} (hm : v.access.allows mode = true)
    (hc : m.check w offset width mode = .ok address) :
    m.check v (w.address - v.address + offset) width mode = .ok address := by
  obtain ⟨ha, rfl⟩ := Memory.check_eq_ok hc
  have h1 := h.start
  have h2 := h.stop
  have h3 := ha.inside
  have hadmits : m.Admits v (w.address - v.address + offset) width mode := by
    refine ⟨hz, ?_, hm, by omega, by omega⟩
    rw [← h.origin]
    exact ha.live
  rw [hadmits.check, ← Nat.add_assoc, Nat.add_sub_cancel' h1]

theorem Within.readBits (h : w.Within v) (hz : v.address ≠ 0) (hw : v.size < wordLimit)
    (hm : v.access.read = true) (hs : w.swapped = v.swapped) {m : Memory} {offset width bits : Nat}
    (hr : m.readBits w offset width = .ok bits) :
    m.readBits v (w.address - v.address + offset) width = .ok bits := by
  unfold Memory.readBits Memory.readBytes at hr ⊢
  cases hc : m.check w offset width .read with
  | error e =>
    rw [hc] at hr
    cases hr
  | ok address =>
    rw [hc] at hr
    rw [h.check hz hw (show v.access.allows .read = true from hm) hc, ← hr]
    simp only [bind, Except.bind, pure, Except.pure, decode, hs]

/-- A reading that continues one which two views share is shared by them. -/
theorem bind_eq_ok_of {α β : Type} {c c' : Checked α} {f : α → Checked β} {b : β}
    (h : ∀ a, c = .ok a → c' = .ok a) (hb : c >>= f = .ok b) : c' >>= f = .ok b := by
  cases hc : c with
  | error e =>
    rw [hc] at hb
    cases hb
  | ok a =>
    rw [h a hc]
    rwa [hc] at hb

/-- What a view inside another reads, the other reads at the same place. -/
theorem Within.get (h : w.Within v) (hz : v.address ≠ 0) (hw : v.size < wordLimit)
    (hm : v.access.read = true) (hs : w.swapped = v.swapped) {kind : Kind} {offset : Nat}
    {x x' : World} {value : Value} (hg : w.get kind offset x = (.ok value, x')) :
    v.get kind (w.address - v.address + offset) x = (.ok value, x') := by
  have hbits : ∀ width bits, x.memory.readBits w offset width = .ok bits →
      x.memory.readBits v (w.address - v.address + offset) width = .ok bits :=
    fun _ _ hr => h.readBits hz hw hm hs hr
  have hread : ∀ {α : Type} {f g : Memory → Checked α} {rest : α → Act Value},
      (∀ a, f x.memory = .ok a → g x.memory = .ok a) →
      (Act.read f >>= rest) x = (.ok value, x') → (Act.read g >>= rest) x = (.ok value, x') := by
    intro α f g rest hfg hf
    obtain ⟨a, x₁, ha, hrest⟩ := Act.bind_eq_ok.mp hf
    obtain ⟨hfa, rfl⟩ := Act.read_eq_ok.mp ha
    exact Act.bind_eq_ok.mpr ⟨a, x, Act.read_eq_ok.mpr ⟨hfg a hfa, rfl⟩, hrest⟩
  cases kind with
  | builtin b =>
    cases b with
    | int k => exact hread (fun _ hi => bind_eq_ok_of (hbits k.bytes) hi) hg
    | float k => exact hread (hbits k.bytes) hg
    | bool => exact hread (fun _ hi => bind_eq_ok_of (hbits IntKind.int32.bytes) hi) hg
    | pointer role => exact hread (fun _ hp => bind_eq_ok_of (hbits addressSize) hp) hg
    | string => exact hread (hbits addressSize) hg
    | void => exact absurd hg Act.refuse_ne_ok
    | varargs => exact absurd hg Act.refuse_ne_ok
  | _ => exact absurd hg Act.refuse_ne_ok

/-- A view at another place than the null address is dead with its origin. -/
theorem check_of_released (hz : w.address ≠ 0) {m : Memory} {origin : Origin}
    (ho : w.origin = some origin) (hl : m.isLive origin = false) (offset width : Nat)
    (mode : Mode) : m.check w offset width mode = .error .freed := by
  unfold Memory.check
  rw [if_neg hz, ho]
  simp [hl]

/-! ## Chains -/

/--
A view with a known end, away from the null address and from the end of the address space, and
whatever is derived from it. The derived view lies inside it, has its origin, and its byte order
unless a step sets one. It has only permissions of the first view exactly when it is not made
read-only out of a view that may not be read. Where the first view permits an access, every such
access that the derived one admits is an access of the first, to the same address and with the same
value read; and once the origin has released the region, the derived view admits none.
-/
theorem derivedBy_confined {steps : List Derivation} (hb : v.isUnbounded = false)
    (hz : v.address ≠ 0) (hw : v.address + v.size ≤ wordLimit)
    (h : v.derivedBy steps = .ok w) :
    (v.address ≤ w.address ∧ w.address + w.size ≤ v.address + v.size ∧ w.origin = v.origin) ∧
      ((∀ o, .order o ∉ steps) → w.swapped = v.swapped) ∧
      ((∀ mode, w.access.allows mode = true → v.access.allows mode = true) ↔
        (.readOnly ∈ steps → v.access.allows .read = true)) ∧
      (∀ (m : Memory) (offset width : Nat) (mode : Mode) (address : Nat),
        v.access.allows mode = true → m.check w offset width mode = .ok address →
        m.check v (w.address - v.address + offset) width mode = .ok address) ∧
      (w.swapped = v.swapped → v.access.allows .read = true →
        ∀ (kind : Kind) (offset : Nat) (x x' : World) (value : Value),
        w.get kind offset x = (.ok value, x') →
        v.get kind (w.address - v.address + offset) x = (.ok value, x')) ∧
      ∀ (m : Memory) (origin : Origin), v.origin = some origin → m.isLive origin = false →
        ∀ (offset width : Nat) (mode : Mode), m.check w offset width mode = .error .freed := by
  have hsize : v.size < unbounded := by
    have hne : v.size ≠ unbounded := beq_eq_false_iff_ne.mp hb
    have hu : unbounded = wordLimit - 1 := rfl
    omega
  have hword : v.size < wordLimit := Nat.lt_of_lt_of_le hsize (by decide)
  obtain ⟨hwithin, haccess, hswapped⟩ := derivedBy_eq_ok hsize h
  have hstart := hwithin.start
  refine ⟨⟨hwithin.start, hwithin.stop, hwithin.origin⟩, ?_, ?_, ?_, ?_, ?_⟩
  · intro ho
    rw [hswapped, foldl_swaps ho]
  · rw [haccess, foldl_access]
    constructor
    · intro hall hmem
      rw [if_pos hmem] at hall
      exact hall .read rfl
    · intro hread mode hallowed
      split at hallowed
      next hmem =>
        cases mode with
        | read => exact hread hmem
        | write => cases hallowed
      · exact hallowed
  · intro m offset width mode address hm hc
    exact hwithin.check hz hword hm hc
  · intro hs hm kind offset x x' value hg
    exact hwithin.get hz hword hm hs hg
  · intro m origin ho hl offset width mode
    exact check_of_released (by omega) (hwithin.origin.trans ho) hl offset width mode

/-- Four numbers of four bytes each. -/
def numbers : View := ⟨0x1000, 16, 4, .readWrite, false, some (.owner 0)⟩

theorem derivedBy_confined_element :
    ∃ w, numbers.derivedBy [.offset 4, .order .big, .index 1, .readOnly] = .ok w ∧
      (numbers.address ≤ w.address ∧ w.address + w.size ≤ numbers.address + numbers.size ∧
        w.origin = numbers.origin) ∧
      (∀ mode, w.access.allows mode = true → numbers.access.allows mode = true) ∧
      ∀ (m : Memory) (address : Nat), m.check w 0 4 .read = .ok address →
        m.check numbers 8 4 .read = .ok address := by
  have hw : numbers.derivedBy [.offset 4, .order .big, .index 1, .readOnly] =
    .ok ⟨0x1008, 4, 4, .readOnly, true, some (.owner 0)⟩ := rfl
  obtain ⟨hwithin, -, haccess, hcheck, -, -⟩ :=
    derivedBy_confined (by decide) (by decide) (by decide) hw
  refine ⟨_, hw, hwithin, haccess.mpr fun _ => rfl, ?_⟩
  intro m address hc
  exact hcheck m 0 4 .read address rfl hc

/-- A view that may only be written, made read-only, may be read. -/
theorem derivedBy_readable :
    ∃ w, (numbers.withAccess (.ofBits 2)).derivedBy [.readOnly] = .ok w ∧
      ∃ m : Memory, m.check w 0 4 .read = .ok 0x1000 ∧
        m.check (numbers.withAccess (.ofBits 2)) 0 4 .read =
          .error (.runtime "memory is not readable") :=
  ⟨_, rfl, ⟨.empty 0x2000 fun _ _ => false, #[⟨.allocation, 0x1000, 16, true, false⟩]⟩, rfl, rfl⟩

end View

end ForeignCall
