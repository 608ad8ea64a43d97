import ForeignCall.Proofs.Call.Arguments
import ForeignCall.Proofs.Call.Prepared

/-!
# Further arguments and their promotion

A further argument of a variadic call is passed as C promotes it. It is converted by the promoted
type, after an integer has been checked against the declared one. That comes to the same as
converting it by its own type and promoting what comes out (`Ty.promote_toArgument`), but for two
things: a symbol that is given for an integer narrower than `int` is looked up in the tables as an
`int`, and a number that is given for a `float32` is not rounded to one.

Main statement: `VariadicFunction.extras_promoted`.
-/

namespace ForeignCall

open Abi

/-! ## One argument -/

/-- A kind of integers that is narrower than a C `int`. -/
def IntKind.narrow (k : IntKind) : Bool := k.width == .w8 || k.width == .w16

theorem IntKind.narrow_range {k : IntKind} (h : k.narrow = true) {i : Int}
    (hi : k.min ≤ i ∧ i ≤ k.max) : IntKind.int32.min ≤ i ∧ i ≤ IntKind.int32.max := by
  obtain ⟨signed, width⟩ := k
  cases width <;> cases h <;> cases signed <;>
    simp [min, max, modulus, Width.modulus, int32] at * <;> omega

theorem Value.toInt_of_range {k : IntKind} {i : Int} (h : k.min ≤ i ∧ i ≤ k.max) :
    (Value.int i).toInt k = .ok i :=
  if_neg (by omega)

namespace Ty

theorem promote_of_narrow {k : IntKind} (h : k.narrow = true) :
    (Ty.builtin (.int k)).promote = .int32 := by
  obtain ⟨signed, width⟩ := k
  cases width <;> cases h <;> rfl

theorem promote_of_wide {k : IntKind} (h : k.narrow = false) :
    (Ty.builtin (.int k)).promote = .builtin (.int k) := by
  obtain ⟨signed, width⟩ := k
  cases width <;> cases h <;> rfl

/-- The bytes of a type as C promotes them: the same number in a wider type. -/
def widened (t : Ty) (bytes : List UInt8) : List UInt8 :=
  match t with
  | .builtin (.int k) =>
    if k.narrow then Bytes.ofInt 4 (k.ofBits (Bytes.toNat bytes)) else bytes
  | .builtin (.float .float32) =>
    Bytes.ofNat 8 (FloatKind.float64.ofDouble (FloatKind.float32.toDouble (Bytes.toNat bytes)))
  | _ => bytes

/-- The bytes that a value is passed as where it is a further argument, out of those of its own
type: those of the double for a `float32`, else the promoted ones. -/
def passed (t : Ty) (value : Value) (bytes : List UInt8) : List UInt8 :=
  match t, value.toFloat with
  | .builtin (.float .float32), .ok bits => Bytes.ofNat 8 (FloatKind.float64.ofDouble bits)
  | t, _ => t.widened bytes

end Ty

/-- A value that a `float32` holds without rounding, if it is a number. -/
def Value.Single (value : Value) : Prop :=
  ∀ bits, value.toFloat = .ok bits → Binary.widen (Binary.narrow bits) = bits

/-- A symbol that is given for an integer narrower than `int`. -/
def SymbolForNarrow (a : Ty × Value) : Prop :=
  (∃ k : IntKind, a.1 = .builtin (.int k) ∧ k.narrow = true) ∧ ∃ name, a.2 = .symbol name

/-- What is passed, with a change of the bytes that are passed by themselves. A struct is passed as
it stands. -/
def Passed.map (f : List UInt8 → List UInt8) : Passed → Passed
  | .bytes content => .bytes (f content)
  | .region address size => .region address size

theorem Passed.map_id : Passed.map id = id := by
  funext p
  cases p <;> rfl

section

variable {t : Ty} {value : Value} {enums : Option Enums} {w w' : World} {passed : Passed}

namespace Ty

theorem passed_of_ne (h : t ≠ .builtin (.float .float32)) (value : Value) (bytes : List UInt8) :
    t.passed value bytes = t.widened bytes := by
  unfold passed
  split
  · exact absurd rfl h
  · rfl

/-- An integer is declared for a type that it converts to. -/
theorem checkDeclared_int {k : IntKind} {i : Int}
    (h : (Ty.builtin (.int k)).checkDeclared (.int i) = .ok ()) : k.min ≤ i ∧ i ≤ k.max := by
  unfold checkDeclared at h
  cases hi : (Value.int i).toInt k with
  | ok j =>
    obtain ⟨hv, hr⟩ := Value.toInt_eq_ok hi
    cases hv
    exact hr
  | error e =>
    dsimp only at h
    rw [hi] at h
    cases h

/-- An integer outside its declared type does not convert by it either. -/
theorem toArgument_of_checkDeclared {e : Fault} (h : t.checkDeclared value = .error e) :
    t.toArgument enums value = Act.refuse e := by
  unfold checkDeclared at h
  split at h
  next k i =>
    show (Act.ofChecked ((Value.int i).toInt k) >>= _) = _
    cases hi : (Value.int i).toInt k with
    | ok j =>
      rw [hi] at h
      cases h
    | error f =>
      rw [hi] at h
      cases h
      rfl
  next => cases h

/-- Only a parameter of the kind of `int` looks symbols up in the tables. -/
theorem toArgument_symbol {k : IntKind} (hk : k.narrow = true) (name : String)
    (enums : Option Enums) : (Ty.builtin (.int k)).toArgument enums (.symbol name) =
      Act.refuse ((Value.symbol name).mismatch "integer") := by
  have hne : k ≠ .int32 := by
    rintro rfl
    cases hk
  exact if_neg hne

theorem promote_toArgument_int {k : IntKind} (hk : k.narrow = true)
    (hc : (Ty.builtin (.int k)).checkDeclared value = .ok ()) (hs : ∀ name, value ≠ .symbol name) :
    Ty.int32.toArgument enums value =
      Passed.map (Ty.builtin (.int k)).widened <$>
        (Ty.builtin (.int k)).toArgument enums value := by
  cases value with
  | int i =>
    have hr := checkDeclared_int hc
    have hbytes : (Ty.builtin (.int k)).widened (Bytes.ofInt k.bytes i) = Bytes.ofInt 4 i := by
      have hi := k.ofBits_ofInt (Nat.le_refl _) hr
      rw [Bytes.fit_of_length (Bytes.length_ofInt _ _)] at hi
      simp only [widened, hk, if_true, hi]
    show (Act.ofChecked ((Value.int i).toInt .int32) >>= fun i =>
        pure (Passed.bytes (Bytes.ofInt 4 i))) =
      _ <$> (Act.ofChecked ((Value.int i).toInt k) >>= fun i =>
        pure (Passed.bytes (Bytes.ofInt k.bytes i)))
    rw [Value.toInt_of_range hr, Value.toInt_of_range (k.narrow_range hk hr)]
    show (pure (Passed.bytes (Bytes.ofInt 4 i)) : Act _) =
      pure (Passed.bytes ((Ty.builtin (.int k)).widened _))
    rw [hbytes]
  | symbol name => exact absurd rfl (hs name)
  | _ => rfl

theorem promote_toArgument_float32 :
    (Ty.builtin (.float .float64)).toArgument enums value =
      Passed.map ((Ty.builtin (.float .float32)).passed value) <$>
        (Ty.builtin (.float .float32)).toArgument enums value := by
  show (Act.ofChecked value.toFloat >>= fun bits =>
      pure (Passed.bytes (Bytes.ofNat 8 (FloatKind.float64.ofDouble bits)))) =
    _ <$> (Act.ofChecked value.toFloat >>= fun bits =>
      pure (Passed.bytes (Bytes.ofNat 4 (FloatKind.float32.ofDouble bits))))
  cases hb : value.toFloat with
  | error e => rfl
  | ok bits =>
    show (pure _ : Act _) = pure (Passed.bytes (Ty.passed _ _ _))
    unfold Ty.passed
    rw [hb]

/-- Converted by its promoted type, an argument is what its own type makes of it, promoted. -/
theorem promote_toArgument (hc : t.checkDeclared value = .ok ())
    (hs : ¬SymbolForNarrow (t, value)) :
    t.promote.toArgument enums value =
      Passed.map (t.passed value) <$> t.toArgument enums value := by
  -- all types but the narrow integers and `float32` are passed as they are
  have hsame : t.promote = t → (∀ bytes, t.passed value bytes = bytes) →
      t.promote.toArgument enums value =
        Passed.map (t.passed value) <$> t.toArgument enums value := by
    intro ht hb
    rw [ht, show t.passed value = id from funext hb, Passed.map_id, id_map]
  cases t with
  | builtin b =>
    cases b with
    | int k =>
      have hpassed : (Ty.builtin (.int k)).passed value = (Ty.builtin (.int k)).widened := rfl
      cases hk : k.narrow with
      | true =>
        rw [promote_of_narrow hk, hpassed]
        exact promote_toArgument_int hk hc fun name hn => hs ⟨⟨k, rfl, hk⟩, name, hn⟩
      | false =>
        refine hsame (promote_of_wide hk) fun bytes => ?_
        rw [hpassed]
        simp only [widened, hk, Bool.false_eq_true, if_false]
    | float k =>
      cases k with
      | float32 => exact promote_toArgument_float32
      | float64 => exact hsame rfl fun _ => rfl
    | _ => exact hsame rfl fun _ => rfl
  | _ => exact hsame rfl fun _ => rfl

/-- What is passed is the promoted value, but for doubles that a `float32` does not hold. -/
theorem map_passed_eq_widened (h : t.toArgument enums value w = (.ok passed, w'))
    (hs : t = .builtin (.float .float32) → value.Single) :
    passed.map (t.passed value) = passed.map t.widened := by
  by_cases ht : t = .builtin (.float .float32)
  · subst ht
    obtain ⟨bits, w₁, hb, hp⟩ := Act.bind_eq_ok.mp h
    obtain ⟨hbits, -⟩ := Act.ofChecked_eq_ok.mp hb
    obtain ⟨rfl, -⟩ := Act.pure_eq_ok.mp hp
    have hround := toDouble_float32 bits
    rw [Bytes.fit_of_length (Bytes.length_ofNat _ _), hs rfl bits hbits] at hround
    refine congrArg Passed.bytes ?_
    unfold Ty.passed
    rw [hbits]
    exact congrArg (fun b => Bytes.ofNat 8 (FloatKind.float64.ofDouble b)) hround.symm
  · rw [show t.passed value = t.widened from funext (passed_of_ne ht value)]

end Ty

/-! ## Several arguments -/

/-- Further arguments as they are passed: each with its promoted type. -/
def promoted (extras : List (Ty × Value)) : List (Ty × Value) :=
  extras.map fun a => (a.1.promote, a.2)

/-- The frame of further arguments, out of the one that their own types make. -/
def passedFrame (extras : List (Ty × Value)) (frame : Frame) : Frame :=
  List.zipWith (fun a r => (a.1.promote.record, r.2.map (a.1.passed a.2))) extras frame

/-- The frame of types as C promotes them. -/
def widenedFrame (types : List Ty) (frame : Frame) : Frame :=
  List.zipWith (fun t r => (t.promote.record, r.2.map t.widened)) types frame

theorem Act.atArgument_map {α β : Type} (f : α → β) (x : Act α) (i : Nat) :
    (f <$> x).atArgument i = f <$> x.atArgument i := by
  refine Act.ext fun w => ?_
  have hmap : ∀ y : Act α, (f <$> y) w = ((y w).1.map f, (y w).2) := by
    intro y
    rcases hy : y w with ⟨e | a, w'⟩
    · exact Act.bind_error hy
    · exact Act.map_ok hy
  rw [hmap]
  unfold Act.atArgument
  rw [hmap]
  rcases x w with ⟨(e | e) | a, w'⟩ <;> rfl

theorem toArgumentsFrom_append (k : Nat) (l l' : List (Ty × Value)) :
    toArgumentsFrom enums k (l ++ l') = (do
      let frame ← toArgumentsFrom enums k l
      let frame' ← toArgumentsFrom enums (k + l.length) l'
      return frame ++ frame') := by
  induction l generalizing k with
  | nil =>
    show toArgumentsFrom enums k l' = pure [] >>= fun frame => _
    rw [pure_bind]
    exact (bind_pure _).symm
  | cons a l ih =>
    rw [List.cons_append, toArgumentsFrom_cons, toArgumentsFrom_cons, ih]
    simp only [bind_assoc, pure_bind, List.length_cons, List.cons_append, Nat.add_assoc,
      Nat.add_comm 1]

theorem toArgumentsFrom_promoted (k : Nat) {extras : List (Ty × Value)}
    (hc : ∀ a ∈ extras, a.1.checkDeclared a.2 = .ok ()) (hs : ∀ a ∈ extras, ¬SymbolForNarrow a) :
    toArgumentsFrom enums k (promoted extras) =
      passedFrame extras <$> toArgumentsFrom enums k extras := by
  induction extras generalizing k with
  | nil => rfl
  | cons a extras ih =>
    show toArgumentsFrom enums k ((a.1.promote, a.2) :: promoted extras) = _
    rw [toArgumentsFrom_cons, toArgumentsFrom_cons, Ty.promote_toArgument (hc a List.mem_cons_self)
      (hs a List.mem_cons_self), Act.atArgument_map,
      ih (k + 1) (fun b hb => hc b (List.mem_cons_of_mem _ hb))
        fun b hb => hs b (List.mem_cons_of_mem _ hb)]
    simp only [map_bind, bind_map_left, map_pure]
    rfl

/-- An argument outside its declared type keeps the arguments from converting. -/
theorem toArgumentsFrom_ne_ok {k : Nat} {arguments : List (Ty × Value)} {a : Ty × Value} {e : Fault}
    (ha : a ∈ arguments) (hc : a.1.checkDeclared a.2 = .error e)
    {frame : Frame} :
    toArgumentsFrom enums k arguments w ≠ (.ok frame, w') := by
  intro h
  obtain ⟨ids, w₁, bytes, w₂, -, hb⟩ := exists_toArgument_of_mem h ha
  rw [Ty.toArgument_of_checkDeclared hc] at hb
  exact Act.refuse_ne_ok hb

theorem length_toArgumentsFrom {k : Nat} {arguments : List (Ty × Value)}
    {frame : Frame}
    (h : toArgumentsFrom enums k arguments w = (.ok frame, w')) :
    frame.length = arguments.length := by
  induction arguments generalizing k w frame with
  | nil =>
    obtain ⟨rfl, -⟩ := Act.pure_eq_ok.mp h
    rfl
  | cons a rest ih =>
    obtain ⟨bytes, w₁, frame', -, hrest, rfl⟩ := toArgumentsFrom_cons_eq_ok.mp h
    rw [List.length_cons, List.length_cons, ih hrest]

theorem passedFrame_eq_widenedFrame {k : Nat} {extras : List (Ty × Value)}
    {frame : Frame}
    (h : toArgumentsFrom enums k extras w = (.ok frame, w'))
    (hs : ∀ a ∈ extras, a.1 = .builtin (.float .float32) → a.2.Single) :
    passedFrame extras frame = widenedFrame (extras.map Prod.fst) frame := by
  induction extras generalizing k w frame with
  | nil => rfl
  | cons a rest ih =>
    obtain ⟨passed, w₁, frame', hb, hrest, rfl⟩ := toArgumentsFrom_cons_eq_ok.mp h
    have htail := ih hrest fun b hb => hs b (List.mem_cons_of_mem _ hb)
    show (a.1.promote.record, passed.map (a.1.passed a.2)) :: passedFrame rest frame' = _
    rw [htail, Ty.map_passed_eq_widened hb (hs a List.mem_cons_self)]
    rfl

end

/-! ## A call -/

namespace VariadicFunction

variable {f : VariadicFunction} {arguments : List Value} {extra : List (TypeSpec × Value)}
  {declared types : List Ty} {w w' : World}

/-- The types that further arguments are declared to have. -/
def declaredTypes (f : VariadicFunction) (extra : List (TypeSpec × Value)) : Checked (List Ty) :=
  extra.mapM fun (spec, _) => do return (← spec.resolve f.options.typedefs).ty

/-- The function with more fixed parameters, and nothing prepared. -/
def withFixed (f : VariadicFunction) (types : List Ty) : VariadicFunction :=
  { f with fixed := f.fixed ++ types, prepared := [] }

/-- The further arguments of a call, with their declared types. -/
abbrev extrasOf (declared : List Ty) (extra : List (TypeSpec × Value)) : List (Ty × Value) :=
  declared.zip (extra.map Prod.snd)

theorem declaredTypes_cons {spec : TypeSpec} {value : Value} :
    f.declaredTypes ((spec, value) :: extra) = .ok declared ↔
      ∃ d rest, spec.resolve f.options.typedefs = .ok d ∧ f.declaredTypes extra = .ok rest ∧
        declared = d.ty :: rest := by
  unfold declaredTypes
  rw [List.mapM_cons, Checked.bind_eq_ok]
  constructor
  · rintro ⟨t, ht, h⟩
    obtain ⟨d, hd, hp⟩ := Checked.bind_eq_ok.mp ht
    obtain ⟨rest, hrest, hp'⟩ := Checked.bind_eq_ok.mp h
    obtain rfl := Except.ok.inj hp
    exact ⟨d, rest, hd, hrest, (Except.ok.inj hp').symm⟩
  · rintro ⟨d, rest, hd, hrest, rfl⟩
    exact ⟨d.ty, Checked.bind_eq_ok.mpr ⟨d, hd, rfl⟩, Checked.bind_eq_ok.mpr ⟨rest, hrest, rfl⟩⟩

theorem promoteAll_cons {spec : TypeSpec} {value : Value} :
    f.promoteAll ((spec, value) :: extra) = .ok types ↔
      ∃ d rest, spec.resolve f.options.typedefs = .ok d ∧ d.ty.checkDeclared value = .ok () ∧
        f.promoteAll extra = .ok rest ∧ types = d.ty.promote :: rest := by
  unfold promoteAll
  rw [List.mapM_cons, Checked.bind_eq_ok]
  constructor
  · rintro ⟨t, ht, h⟩
    obtain ⟨d, hd, hp⟩ := Checked.bind_eq_ok.mp ht
    obtain ⟨u, hc, hp⟩ := Checked.bind_eq_ok.mp hp
    obtain ⟨rest, hrest, hp'⟩ := Checked.bind_eq_ok.mp h
    obtain rfl := Except.ok.inj hp
    exact ⟨d, rest, hd, hc, hrest, (Except.ok.inj hp').symm⟩
  · rintro ⟨d, rest, hd, hc, hrest, rfl⟩
    exact ⟨d.ty.promote, Checked.bind_eq_ok.mpr ⟨d, hd, Checked.bind_eq_ok.mpr ⟨(), hc, rfl⟩⟩,
      Checked.bind_eq_ok.mpr ⟨rest, hrest, rfl⟩⟩

theorem length_declaredTypes (h : f.declaredTypes extra = .ok declared) :
    declared.length = extra.length := by
  induction extra generalizing declared with
  | nil => rw [← Except.ok.inj h]; rfl
  | cons x extra ih =>
    obtain ⟨d, rest, -, hrest, rfl⟩ := declaredTypes_cons.mp h
    rw [List.length_cons, List.length_cons, ih hrest]

/-- The further arguments of a call pass the check of their declared types, or none is passed. -/
theorem promoteAll_eq_ok (hd : f.declaredTypes extra = .ok declared) :
    f.promoteAll extra = .ok types ↔
      (∀ a ∈ extrasOf declared extra, a.1.checkDeclared a.2 = .ok ()) ∧
        types = declared.map Ty.promote := by
  induction extra generalizing declared types with
  | nil =>
    obtain rfl := Except.ok.inj hd
    exact ⟨fun h => ⟨nofun, (Except.ok.inj h).symm⟩, fun h => by rw [h.2]; rfl⟩
  | cons x extra ih =>
    obtain ⟨spec, value⟩ := x
    obtain ⟨d, rest, hspec, hrest, rfl⟩ := declaredTypes_cons.mp hd
    rw [promoteAll_cons]
    show _ ↔ (∀ a ∈ (d.ty, value) :: extrasOf rest extra, _) ∧ _
    rw [List.forall_mem_cons, List.map_cons]
    constructor
    · rintro ⟨d', types', hspec', hc, ht, rfl⟩
      obtain rfl := Except.ok.inj (hspec.symm.trans hspec')
      obtain ⟨hall, rfl⟩ := (ih hrest).mp ht
      exact ⟨⟨hc, hall⟩, rfl⟩
    · rintro ⟨⟨hc, hall⟩, rfl⟩
      exact ⟨d, _, hspec, hc, (ih hrest).mpr ⟨hall, rfl⟩, rfl⟩

/-- A type and its promotion are accepted for the same parameters. -/
theorem checkParameter_promote (i : Nat) (t : Ty) :
    t.promote.checkParameter i = t.checkParameter i := by
  cases t with
  | builtin b =>
    cases b with
    | int k =>
      obtain ⟨signed, width⟩ := k
      cases width <;> rfl
    | float k => cases k <;> rfl
    | _ => rfl
  | _ => rfl

theorem forM_checkParameter_promote (k : Nat) (l declared : List Ty) :
    ((l ++ declared.map Ty.promote).zipIdx k).forM (fun (t, i) => t.checkParameter i) =
      ((l ++ declared).zipIdx k).forM fun (t, i) => t.checkParameter i := by
  induction l generalizing k with
  | cons t l ih =>
    show (t.checkParameter k >>= fun _ => _) = (t.checkParameter k >>= fun _ => _)
    exact congrArg _ (funext fun _ => ih (k + 1))
  | nil =>
    rw [List.nil_append, List.nil_append]
    induction declared generalizing k with
    | nil => rfl
    | cons t declared ih =>
      show (t.promote.checkParameter k >>= fun _ => _) = (t.checkParameter k >>= fun _ => _)
      rw [checkParameter_promote]
      exact congrArg _ (funext fun _ => ih (k + 1))

theorem accepts_promote (f : VariadicFunction) (declared : List Ty) :
    f.accepts (declared.map Ty.promote) = f.accepts declared := by
  unfold accepts
  rw [forM_checkParameter_promote]

theorem accepts_withFixed (f : VariadicFunction) (declared : List Ty) :
    (f.withFixed declared).accepts [] = f.accepts declared := by
  unfold accepts withFixed
  rw [List.append_nil]

/-- Arguments that convert in a world convert for a call there; identities make no difference. -/
theorem Faithful.converts (h : f.Faithful) (hp : f.passes arguments extra = .ok types)
    {frame : Frame}
    (hf : toArguments f.options.enums ((f.fixed ++ types).zip (arguments ++ extra.map Prod.snd)) w =
      (.ok frame, w')) :
    ∃ id n, f.Converts arguments extra w (f.signature types id) frame (w'.numbered n) := by
  obtain ⟨hl, ht, ha⟩ := passes_eq_ok.mp hp
  obtain ⟨id, f', hs, -⟩ := h.signatureFor_of_ok ha w
  have hblind := blind_toArguments f.options.enums
    ((f.fixed ++ types).zip (arguments ++ extra.map Prod.snd)) w (w.identities + f.drawn types)
  rw [hf] at hblind
  exact ⟨id, w.identities + f.drawn types, hl, types, f', _, ht, hs, hblind⟩

theorem Faithful.of_converts (h : f.Faithful) {s : Signature} {frame : Frame}
    (hc : f.Converts arguments extra w s frame w') : ∃ types w₁ n,
      f.passes arguments extra = .ok types ∧ w' = w₁.numbered n ∧
      toArguments f.options.enums ((f.fixed ++ types).zip (arguments ++ extra.map Prod.snd)) w =
        (.ok frame, w₁) := by
  obtain ⟨hl, types, f', w₂, ht, hs, hf⟩ := hc
  cases ha : f.accepts types with
  | error e =>
    rw [h.signatureFor_of_error ha] at hs
    cases (Prod.mk.inj hs).1
  | ok u =>
    obtain ⟨id, f₁, hs₁, -⟩ := h.signatureFor_of_ok ha w
    obtain ⟨he, rfl⟩ := Prod.mk.inj (hs.symm.trans hs₁)
    obtain ⟨rfl, rfl⟩ := Prod.mk.inj (Except.ok.inj he)
    have hblind := (blind_toArguments _ _ w _).symm.trans hf
    obtain ⟨hframe, hw⟩ := Prod.mk.inj hblind
    exact ⟨types, _, _, passes_eq_ok.mpr ⟨hl, ht, ha⟩, hw.symm, Prod.ext hframe rfl⟩

/-! ## The same arguments as fixed ones -/

/-- What it takes for fixed parameters of the declared types to take the further arguments. -/
theorem of_converts_withFixed (hd : f.declaredTypes extra = .ok declared) {s : Signature}
    {frame : Frame}
    (hc : (f.withFixed declared).Converts (arguments ++ extra.map Prod.snd) [] w s frame w') :
    arguments.length = f.fixed.length ∧ f.accepts declared = .ok () ∧ ∃ w₁ n,
      w' = w₁.numbered n ∧
      toArguments f.options.enums ((f.fixed ++ declared).zip (arguments ++ extra.map Prod.snd)) w =
        (.ok frame, w₁) := by
  obtain ⟨types, w₁, n, hp, hw, hf⟩ := (faithful_emptied (f.withFixed declared)).of_converts hc
  obtain ⟨hl, ht, ha⟩ := passes_eq_ok.mp hp
  obtain rfl := Except.ok.inj ht
  change (arguments ++ extra.map Prod.snd).length = (f.fixed ++ declared).length at hl
  rw [List.length_append, List.length_append, List.length_map, ← length_declaredTypes hd] at hl
  change (f.withFixed declared).accepts [] = _ at ha
  rw [accepts_withFixed] at ha
  change toArguments f.options.enums
    ((f.fixed ++ declared ++ []).zip (arguments ++ extra.map Prod.snd ++ [])) w = _ at hf
  rw [List.append_nil, List.append_nil] at hf
  exact ⟨Nat.add_right_cancel hl, ha, w₁, n, hw, hf⟩

theorem converts_withFixed (hd : f.declaredTypes extra = .ok declared)
    (hl : arguments.length = f.fixed.length) (ha : f.accepts declared = .ok ())
    {frame : Frame}
    (hf : toArguments f.options.enums
      ((f.fixed ++ declared).zip (arguments ++ extra.map Prod.snd)) w = (.ok frame, w')) :
    ∃ s w'', (f.withFixed declared).Converts (arguments ++ extra.map Prod.snd) [] w s frame
      w'' := by
  have hp : (f.withFixed declared).passes (arguments ++ extra.map Prod.snd) [] = .ok [] := by
    refine passes_eq_ok.mpr ⟨?_, rfl, (accepts_withFixed f declared).trans ha⟩
    show (arguments ++ extra.map Prod.snd).length = (f.fixed ++ declared).length
    rw [List.length_append, List.length_append, List.length_map, ← length_declaredTypes hd, hl]
  have hnone : toArguments f.options.enums
      ((f.fixed ++ declared ++ []).zip (arguments ++ extra.map Prod.snd ++ [])) w =
        (.ok frame, w') := by
    rw [List.append_nil, List.append_nil]
    exact hf
  obtain ⟨id, n, hc⟩ := (faithful_emptied (f.withFixed declared)).converts hp hnone
  exact ⟨_, _, hc⟩

/-- The frame of a call whose further arguments are passed by their own types. -/
theorem toArguments_declared (enums : Option Enums) (hl : arguments.length = f.fixed.length) :
    toArguments enums ((f.fixed ++ declared).zip (arguments ++ extra.map Prod.snd)) = (do
      let fixedFrame ← toArgumentsFrom enums 0 (f.fixed.zip arguments)
      let extraFrame ← toArgumentsFrom enums (0 + (f.fixed.zip arguments).length)
        (extrasOf declared extra)
      return fixedFrame ++ extraFrame) := by
  rw [List.zip_append hl.symm]
  exact toArgumentsFrom_append 0 _ _

theorem toArguments_promoted (enums : Option Enums) (hl : arguments.length = f.fixed.length)
    (hc : ∀ a ∈ extrasOf declared extra, a.1.checkDeclared a.2 = .ok ())
    (hs : ∀ a ∈ extrasOf declared extra, ¬SymbolForNarrow a) :
    toArguments enums
        ((f.fixed ++ declared.map Ty.promote).zip (arguments ++ extra.map Prod.snd)) = (do
      let fixedFrame ← toArgumentsFrom enums 0 (f.fixed.zip arguments)
      let extraFrame ← toArgumentsFrom enums (0 + (f.fixed.zip arguments).length)
        (extrasOf declared extra)
      return fixedFrame ++ passedFrame (extrasOf declared extra) extraFrame) := by
  rw [toArguments_declared enums hl]
  have hzip : extrasOf (declared.map Ty.promote) extra = promoted (extrasOf declared extra) :=
    List.zip_map_left
  rw [hzip, toArgumentsFrom_promoted _ hc hs]
  simp only [bind_map_left]

/-- What fixed parameters of the declared types take, further arguments take too. -/
theorem Faithful.converts_promoted (h : f.Faithful) (hd : f.declaredTypes extra = .ok declared)
    (hs : ∀ a ∈ extrasOf declared extra, ¬SymbolForNarrow a) {s : Signature}
    {frame : Frame}
    (hc : (f.withFixed declared).Converts (arguments ++ extra.map Prod.snd) [] w s frame w') :
    ∃ id n fixedFrame extraFrame, frame = fixedFrame ++ extraFrame ∧
      fixedFrame.length = arguments.length ∧
      f.Converts arguments extra w (f.signature (declared.map Ty.promote) id)
        (fixedFrame ++ passedFrame (extrasOf declared extra) extraFrame) (w'.numbered n) ∧
      ((∀ a ∈ extrasOf declared extra, a.1 = .builtin (.float .float32) → a.2.Single) →
        passedFrame (extrasOf declared extra) extraFrame = widenedFrame declared extraFrame) := by
  obtain ⟨hl, ha, w₁, n, rfl, hf⟩ := of_converts_withFixed hd hc
  rw [toArguments_declared _ hl] at hf
  obtain ⟨fixedFrame, w₂, hfixed, hf⟩ := Act.bind_eq_ok.mp hf
  obtain ⟨extraFrame, w₃, hextra, hf⟩ := Act.bind_eq_ok.mp hf
  obtain ⟨rfl, rfl⟩ := Act.pure_eq_ok.mp hf
  -- what converts by its own type is within it
  have hdeclared : ∀ a ∈ extrasOf declared extra, a.1.checkDeclared a.2 = .ok () := by
    intro a hmem
    cases hc : a.1.checkDeclared a.2 with
    | ok u => rfl
    | error e => exact absurd hextra (toArgumentsFrom_ne_ok hmem hc)
  have hp : f.passes arguments extra = .ok (declared.map Ty.promote) :=
    passes_eq_ok.mpr ⟨hl, (promoteAll_eq_ok hd).mpr ⟨hdeclared, rfl⟩,
      (accepts_promote f declared).trans ha⟩
  have hframe : toArguments f.options.enums
      ((f.fixed ++ declared.map Ty.promote).zip (arguments ++ extra.map Prod.snd)) w =
        (.ok (fixedFrame ++ passedFrame (extrasOf declared extra) extraFrame), w₃) := by
    rw [toArguments_promoted _ hl hdeclared hs, Act.bind_ok hfixed, Act.bind_ok hextra]
    rfl
  obtain ⟨id, k, hc'⟩ := h.converts hp hframe
  refine ⟨id, k, fixedFrame, extraFrame, rfl, ?_, hc', fun hsingle => ?_⟩
  · rw [length_toArgumentsFrom hfixed, List.length_zip, ← hl, Nat.min_self]
  · rw [passedFrame_eq_widenedFrame hextra hsingle, List.map_fst_zip]
    exact Nat.le_of_eq (by rw [List.length_map, length_declaredTypes hd])

/-- What further arguments take, fixed parameters of the declared types take too. -/
theorem Faithful.converts_declared (h : f.Faithful) (hd : f.declaredTypes extra = .ok declared)
    (hs : ∀ a ∈ extrasOf declared extra, ¬SymbolForNarrow a) {s : Signature}
    {frame : Frame} (hc : f.Converts arguments extra w s frame w') :
    ∃ s' frame' w'', (f.withFixed declared).Converts (arguments ++ extra.map Prod.snd) [] w s'
      frame' w'' := by
  obtain ⟨types, w₁, n, hp, -, hf⟩ := h.of_converts hc
  obtain ⟨hl, ht, ha⟩ := passes_eq_ok.mp hp
  obtain ⟨hdeclared, rfl⟩ := (promoteAll_eq_ok hd).mp ht
  rw [toArguments_promoted _ hl hdeclared hs] at hf
  obtain ⟨fixedFrame, w₂, hfixed, hf⟩ := Act.bind_eq_ok.mp hf
  obtain ⟨extraFrame, w₃, hextra, -⟩ := Act.bind_eq_ok.mp hf
  have hown : toArguments f.options.enums
      ((f.fixed ++ declared).zip (arguments ++ extra.map Prod.snd)) w =
        (.ok (fixedFrame ++ extraFrame), w₃) := by
    rw [toArguments_declared _ hl, Act.bind_ok hfixed, Act.bind_ok hextra]
    rfl
  obtain ⟨s', w'', hc'⟩ :=
    converts_withFixed hd hl ((accepts_promote f declared).symm.trans ha) hown
  exact ⟨s', _, w'', hc'⟩

/--
Further arguments of a variadic call, beside the same function with fixed parameters of their
declared types, where no symbol is given for an integer narrower than `int`.

* Where the fixed parameters take the arguments, the variadic call enters its function once. The
  fixed arguments are what they are there, and each further one is passed by its promoted type: its
  bytes there, promoted as C does, except that the double given for a `float32` is passed as it is
  when a `float32` does not hold it.
* Where they do not, the variadic call answers with a fault whatever code there is.
* A symbol for a narrower integer is refused by a fixed parameter, and passed by the tables as an
  `int` where it is a further argument.
-/
theorem extras_promoted (h : f.Reachable) (hd : f.declaredTypes extra = .ok declared)
    (hs : ∀ a ∈ extrasOf declared extra, ¬SymbolForNarrow a) (m : Machine) :
    (∀ s frame w, (f.withFixed declared).Converts (arguments ++ extra.map Prod.snd) [] m.world s
        frame w → ∃ n fixedFrame extraFrame, frame = fixedFrame ++ extraFrame ∧
      fixedFrame.length = arguments.length ∧
      EntersOnce (fun enter => f.call enter arguments extra) m f.address
        (Call.pushAll f.ret.record (Frame.load
          (fixedFrame ++ passedFrame (extrasOf declared extra) extraFrame) w.memory.heap))
        (Machine.entered ⟨w.numbered n, m.thread, m.parked⟩ f.options.blocking none) ∧
      ((∀ a ∈ extrasOf declared extra, a.1 = .builtin (.float .float32) → a.2.Single) →
        passedFrame (extrasOf declared extra) extraFrame = widenedFrame declared extraFrame)) ∧
    ((∀ s frame w, ¬(f.withFixed declared).Converts (arguments ++ extra.map Prod.snd) [] m.world s
        frame w) → ∃ e f' w, ∀ enter : Enter, f.call enter arguments extra m =
          some ((.error (.fault e), f'), ⟨w, m.thread, m.parked⟩)) ∧
    ∀ (k : IntKind) (name : String) (enums : Option Enums), k.narrow = true →
      (Ty.builtin (.int k)).toArgument enums (.symbol name) =
        Act.refuse ((Value.symbol name).mismatch "integer") ∧
      (Ty.builtin (.int k)).checkDeclared (.symbol name) = .ok () ∧
      (Ty.builtin (.int k)).promote.toArgument enums (.symbol name) =
        Ty.int32.toArgument enums (.symbol name) := by
  have hfaithful := h.made.1
  refine ⟨?_, ?_, fun k name enums hk => ?_⟩
  · intro s frame w hc
    obtain ⟨id, n, fixedFrame, extraFrame, hframe, hlength, hc', hsingle⟩ :=
      hfaithful.converts_promoted hd hs hc
    exact ⟨n, fixedFrame, extraFrame, hframe, hlength, entersOnce_call hc', hsingle⟩
  · intro hno
    rcases f.refuses_or_converts arguments extra m.world with
      ⟨e, f', ids, w, hr⟩ | ⟨s, frame, w, hc⟩
    · exact ⟨e, f', w, fun enter => call_eq_error hr⟩
    · obtain ⟨s', frame', w', hc'⟩ := hfaithful.converts_declared hd hs hc
      exact absurd hc' (hno s' frame' w')
  · exact ⟨Ty.toArgument_symbol hk name enums, rfl, by rw [Ty.promote_of_narrow hk]⟩

/-! ## Narrow further arguments -/

/-- The signed integers of one byte, as a type. -/
def int8 : Ty := .builtin (.int ⟨true, .w8⟩)

/-- The type of a further argument, given by its descriptor. -/
def int8Spec : TypeSpec := .descriptor (.ofBuiltin (.int ⟨true, .w8⟩))

/-- A negative number of one byte is passed in four, with its sign. -/
theorem extras_promoted_negative : variadicToPointer.Reachable ∧
    variadicToPointer.declaredTypes [(int8Spec, .int (-3))] = .ok [int8] ∧
    ¬SymbolForNarrow (int8, .int (-3)) ∧ ∃ inside,
      EntersOnce (fun enter => variadicToPointer.call enter [] [(int8Spec, .int (-3))])
        Machine.start 16
        (Call.pushAll variadicToPointer.ret.record [(Ty.int32.record, [253, 255, 255, 255])])
        inside := by
  have hs : ¬SymbolForNarrow (int8, .int (-3)) := fun h => nomatch h.2
  have hc : (variadicToPointer.withFixed [int8]).Converts [.int (-3)] []
      World.start ((variadicToPointer.withFixed [int8]).signature [] 0)
      [(int8.record, .bytes [253])] (World.start.numbered 1) :=
    ⟨rfl, [], _, _, rfl, rfl, rfl⟩
  obtain ⟨hpasses, -⟩ := @extras_promoted variadicToPointer [] [(int8Spec, .int (-3))] [int8]
    reachable_variadicToPointer rfl (fun a ha => List.mem_singleton.mp ha ▸ hs) Machine.start
  obtain ⟨n, fixedFrame, extraFrame, hframe, hlength, hcall, -⟩ := hpasses _ _ _ hc
  obtain rfl := List.eq_nil_of_length_eq_zero hlength
  obtain rfl : [(int8.record, Passed.bytes [253])] = extraFrame := hframe
  exact ⟨reachable_variadicToPointer, rfl, hs, _, hcall⟩

/-- A table with a symbol that stands for no number of one byte. -/
def wideTable : Enumeration := ⟨none, [("big", 300)], by decide⟩

/-- A variadic function that looks symbols up in the table. -/
def variadicWithTable : VariadicFunction :=
  { variadicToPointer with options := { variadicToPointer.options with enums := some [wideTable] } }

/-- The symbol is refused for a fixed parameter of one byte. As a further argument that is declared
to have one byte it is passed, and native code has the number. -/
theorem extras_symbol_passed : variadicWithTable.Reachable ∧
    variadicWithTable.declaredTypes [(int8Spec, .symbol "big")] = .ok [int8] ∧
    (∀ s frame w, ¬(variadicWithTable.withFixed [int8]).Converts [.symbol "big"] []
      World.start s frame w) ∧
    ∃ inside, EntersOnce
      (fun enter => variadicWithTable.call enter [] [(int8Spec, .symbol "big")]) Machine.start 16
      (Call.pushAll variadicWithTable.ret.record [(Ty.int32.record, Bytes.ofInt 4 300)])
      inside := by
  have hmade : make 16 (.descriptor (.ofBuiltin (.pointer .plain))) [] variadicWithTable.options =
      .ok variadicWithTable := rfl
  have hdeclared : variadicWithTable.declaredTypes [(int8Spec, .symbol "big")] =
      .ok [int8] := rfl
  have hpassed : variadicWithTable.Converts [] [(int8Spec, .symbol "big")] World.start
      (variadicWithTable.signature [.int32] 0) [(Ty.int32.record, .bytes (Bytes.ofInt 4 300))]
      (World.start.numbered 1) := ⟨rfl, [.int32], _, _, rfl, rfl, rfl⟩
  have hcall := entersOnce_call (m := Machine.start) hpassed
  refine ⟨.make hmade, hdeclared, ?_, _, hcall⟩
  intro s frame w hc
  obtain ⟨-, -, w₁, n, -, hf⟩ :=
    @of_converts_withFixed variadicWithTable [] _ _ _ _ hdeclared _ _ hc
  obtain ⟨ids, w₂, bytes, w₃, -, hb⟩ := exists_toArgument_of_mem hf List.mem_cons_self
  exact Act.refuse_ne_ok hb

end VariadicFunction

end ForeignCall
