import ForeignCall.Proofs.Call.Bodies
import ForeignCall.Proofs.Call.Liveness

/-!
# Signatures that are kept for later calls

A variadic function keeps the signature of a list of builtin types for the next call with the same
kinds. What it keeps is what it would make anew, but for the identity (`VariadicFunction.Faithful`),
and the identity of a signature is nothing that a call looks at. So a call differs from the same
call of the function without anything prepared in how many identities have been handed out, and in
nothing else.

Main statement: `VariadicFunction.prepared_invisible`.
-/

namespace ForeignCall

open Abi

namespace VariadicFunction

variable {f f' g : VariadicFunction} {types types' : List Ty} {arguments : List Value}
  {extra : List (TypeSpec × Value)} {enter : Enter} {m : Machine} {w w' : World}

/-! ## What is prepared -/

/-- The function with nothing prepared. -/
def emptied (f : VariadicFunction) : VariadicFunction := { f with prepared := [] }

/-- What is kept for a list of further types. -/
def kept? (f : VariadicFunction) (types : List Ty) : Option Signature :=
  (key? types).bind fun key => f.prepared.lookup key

/-- The checks of a signature with further types. -/
def accepts (f : VariadicFunction) (types : List Ty) : Checked Unit := do
  f.ret.checkResult
  (f.fixed ++ types).zipIdx.forM fun (t, i) => t.checkParameter i

/-- The signature with further types, under an identity. -/
def signature (f : VariadicFunction) (types : List Ty) (id : Nat) : Signature :=
  ⟨id, f.ret, f.fixed ++ types, some f.fixed.length, f.options.convention, f.options.enums,
    f.options.blocking, f.options.savesErrno⟩

/-- What is kept is what would be made anew, but for the identity. -/
def Faithful (f : VariadicFunction) : Prop :=
  ∀ types s, f.kept? types = some s → f.accepts types = .ok () ∧ ∃ id, s = f.signature types id

theorem ofTypes_of_ok (h : f.accepts types = .ok ()) (w : World) :
    Signature.ofTypes f.ret (f.fixed ++ types) (some f.fixed.length) f.options w =
      (.ok (f.signature types w.identities), w.numbered (w.identities + 1)) := by
  unfold accepts at h
  cases hr : f.ret.checkResult with
  | error e => rw [hr] at h; cases h
  | ok u =>
    rw [hr] at h
    have hp : ((f.fixed ++ types).zipIdx.forM fun (t, i) => t.checkParameter i) = .ok () := h
    unfold Signature.ofTypes
    rw [hr, hp]
    rfl

theorem ofTypes_of_error {e : Fault} (h : f.accepts types = .error e) (w : World) :
    Signature.ofTypes f.ret (f.fixed ++ types) (some f.fixed.length) f.options w =
      (.error (.fault e), w) := by
  unfold accepts at h
  unfold Signature.ofTypes
  cases hr : f.ret.checkResult with
  | error e' =>
    rw [hr] at h
    cases h
    rfl
  | ok u =>
    rw [hr] at h
    have hp : ((f.fixed ++ types).zipIdx.forM fun (t, i) => t.checkParameter i) = .error e := h
    rw [hp]
    rfl

/-- How many identities the signature for further types takes. -/
def drawn (f : VariadicFunction) (types : List Ty) : Nat := if (f.kept? types).isSome then 0 else 1

theorem kept?_emptied (f : VariadicFunction) (types : List Ty) : f.emptied.kept? types = none := by
  unfold kept?
  cases key? types <;> rfl

theorem faithful_emptied (f : VariadicFunction) : f.emptied.Faithful := by
  intro types s hs
  rw [kept?_emptied] at hs
  cases hs

/-- The function with one more signature kept keeps it for the same types only. -/
theorem Faithful.cons (h : f.Faithful) {key : List Kind} (hk : key? types = some key)
    (ha : f.accepts types = .ok ()) (id : Nat) :
    Faithful { f with prepared := (key, f.signature types id) :: f.prepared } := by
  intro types' s hs
  obtain ⟨key', hk', hl⟩ := Option.bind_eq_some_iff.mp hs
  by_cases he : key' = key
  · subst he
    rw [List.lookup_cons_self] at hl
    obtain rfl := eq_of_key? hk hk'
    exact ⟨ha, id, (Option.some.inj hl).symm⟩
  · simp only [List.lookup_cons, beq_false_of_ne he] at hl
    exact h types' s (Option.bind_eq_some_iff.mpr ⟨key', hk', hl⟩)

/-- Types that are refused are refused every time, since nothing is kept for them. -/
theorem Faithful.kept?_of_error (h : f.Faithful) {e : Fault} (ha : f.accepts types = .error e) :
    f.kept? types = none := by
  cases hk : f.kept? types with
  | none => rfl
  | some s =>
    obtain ⟨hok, -⟩ := h types s hk
    rw [ha] at hok
    cases hok

theorem signatureFor_eq (f : VariadicFunction) (types : List Ty) :
    f.signatureFor types = match f.kept? types with
      | some s => pure (s, f)
      | none => do
        let s ← Signature.ofTypes f.ret (f.fixed ++ types) (some f.fixed.length) f.options
        match key? types with
        | some key => return (s, { f with prepared := (key, s) :: f.prepared })
        | none => return (s, f) := rfl

theorem Faithful.signatureFor_of_error (h : f.Faithful) {e : Fault}
    (ha : f.accepts types = .error e) (w : World) :
    f.signatureFor types w = (.error (.fault e), w) := by
  rw [signatureFor_eq, h.kept?_of_error ha]
  exact Act.bind_error (ofTypes_of_error ha w)

/-- The signature for types that are accepted is the same in every world, but for the identity. -/
theorem Faithful.signatureFor_of_ok (h : f.Faithful) (ha : f.accepts types = .ok ()) (w : World) :
    ∃ id f', f.signatureFor types w =
      (.ok (f.signature types id, f'), w.numbered (w.identities + f.drawn types)) ∧
      f'.emptied = f.emptied ∧ f'.Faithful := by
  rw [signatureFor_eq]
  unfold drawn
  cases hk : f.kept? types with
  | some s =>
    obtain ⟨-, id, rfl⟩ := h types s hk
    exact ⟨id, f, rfl, rfl, h⟩
  | none =>
    refine ⟨w.identities, ?_⟩
    dsimp only
    rw [Act.bind_ok (ofTypes_of_ok ha w)]
    cases hkey : key? types with
    | some key => exact ⟨_, rfl, rfl, h.cons hkey ha _⟩
    | none => exact ⟨f, rfl, rfl, h⟩

/-! ## One call -/

/-- The types that a call passes further arguments as, if it is not refused before its arguments
are converted. -/
def passes (f : VariadicFunction) (arguments : List Value) (extra : List (TypeSpec × Value)) :
    Checked (List Ty) := do
  if arguments.length ≠ f.fixed.length then throw (.arity arguments.length f.fixed.length)
  let types ← f.promoteAll extra
  f.accepts types
  return types

/-- A call once its signature has been found. The identity of the signature is not looked at. -/
def finish (f : VariadicFunction) (enter : Enter) (types : List Ty) (values : List Value) :
    Run (Outcome Value) :=
  enter.proceed (f.signature types 0) f.address values

theorem passes_eq_ok : f.passes arguments extra = .ok types ↔
    arguments.length = f.fixed.length ∧ f.promoteAll extra = .ok types ∧
      f.accepts types = .ok () := by
  unfold passes
  by_cases hl : arguments.length = f.fixed.length
  · rw [if_neg (not_not.mpr hl)]
    show (f.promoteAll extra >>= fun types => f.accepts types >>= fun _ => pure types :
      Checked (List Ty)) = _ ↔ _
    rw [Checked.bind_eq_ok]
    constructor
    · rintro ⟨types', ht, h⟩
      obtain ⟨u, ha, hp⟩ := Checked.bind_eq_ok.mp h
      obtain rfl := Except.ok.inj hp
      exact ⟨hl, ht, ha⟩
    · rintro ⟨-, ht, ha⟩
      exact ⟨types, ht, Checked.bind_eq_ok.mpr ⟨(), ha, rfl⟩⟩
  · rw [if_pos hl]
    exact iff_of_false nofun fun h => hl h.1

/-- A call that is refused before its arguments are converted leaves everything as it was. -/
theorem Faithful.call_of_error (h : f.Faithful) {e : Fault}
    (hp : f.passes arguments extra = .error e) :
    f.call enter arguments extra m = some ((.error (.fault e), f), m) := by
  unfold passes at hp
  by_cases hl : arguments.length = f.fixed.length
  · rw [if_neg (not_not.mpr hl)] at hp
    rcases ht : f.promoteAll extra with e' | types
    · rw [ht] at hp
      obtain rfl := Except.error.inj hp
      exact call_eq_error (.declared hl ht)
    · rw [ht] at hp
      change (f.accepts types >>= fun _ => pure types : Checked _) = _ at hp
      rcases ha : f.accepts types with e' | u <;> rw [ha] at hp <;> cases hp
      exact call_eq_error (.signature hl ht (h.signatureFor_of_error ha m.world))
  · rw [if_pos hl] at hp
    obtain rfl := Except.error.inj hp
    exact call_eq_error (.arity hl)

/-- Any other call goes on as it would with nothing prepared, from a machine on which one more
identity has been handed out unless the signature was kept. -/
theorem Faithful.call_of_ok (h : f.Faithful) (hp : f.passes arguments extra = .ok types)
    (enter : Enter) (m : Machine) : ∃ f', f'.emptied = f.emptied ∧ f'.Faithful ∧
      f.call enter arguments extra m =
        (f.finish enter types (arguments ++ extra.map Prod.snd) >>= fun a => pure (a, f'))
          (m.numbered (m.world.identities + f.drawn types)) := by
  obtain ⟨hl, ht, ha⟩ := passes_eq_ok.mp hp
  obtain ⟨id, f', hs, hf, hf'⟩ := h.signatureFor_of_ok ha m.world
  have haddress : f'.address = f.address :=
    show f'.emptied.address = f.emptied.address by rw [hf]
  refine ⟨f', hf, hf', (call_eq_proceed hl ht hs).trans ?_⟩
  rw [haddress]
  rfl

/-- Functions that differ in what they have prepared go on in the same way. -/
theorem finish_emptied (h : g.emptied = f.emptied) (types : List Ty) (values : List Value) :
    g.finish enter types values = f.finish enter types values := by
  show g.emptied.finish enter types values = f.emptied.finish enter types values
  rw [h]

theorem passes_emptied (h : g.emptied = f.emptied) :
    g.passes arguments extra = f.passes arguments extra := by
  show g.emptied.passes arguments extra = f.emptied.passes arguments extra
  rw [h]

theorem blind_finish (he : enter.Blind) (types : List Ty) (values : List Value) :
    (f.finish enter types values).Blind := blind_proceed he _ _ _

/-- What a call answers, and the machine that it leaves. -/
def answered (r : (Outcome Value × VariadicFunction) × Machine) : Outcome Value × Machine :=
  (r.1.1, r.2)

theorem map_answered_bind (x : Run (Outcome Value)) (f : VariadicFunction) (m : Machine) :
    ((x >>= fun a => pure (a, f)) m).map answered = x m := by
  show Option.map _ (Option.bind (x m) _) = _
  rcases x m with - | ⟨a, m'⟩ <;> rfl

/-- A call of a function with nothing prepared is the call of the function as it is, with at most
one more identity handed out before it. -/
theorem Faithful.call_emptied (h : f.Faithful) (enter : Enter) (arguments : List Value)
    (extra : List (TypeSpec × Value)) (m : Machine) : ∃ n,
      (n = m.world.identities ∨ n = m.world.identities + 1) ∧
      (f.emptied.call enter arguments extra m).map answered =
        (f.call enter arguments extra (m.numbered n)).map answered := by
  cases hp : f.passes arguments extra with
  | error e =>
    refine ⟨m.world.identities, Or.inl rfl, ?_⟩
    rw [h.call_of_error hp, f.faithful_emptied.call_of_error hp]
    rfl
  | ok types =>
    obtain ⟨f₁, -, -, h₁⟩ := f.faithful_emptied.call_of_ok hp enter m
    have hnone : f.emptied.drawn types = 1 := by
      unfold drawn
      rw [kept?_emptied]
      rfl
    rw [h₁, map_answered_bind, hnone]
    -- a signature that is kept draws no identity, and the same one made anew draws one
    cases hk : f.kept? types with
    | some s =>
      have hdrawn : f.drawn types = 0 := by unfold drawn; rw [hk]; rfl
      refine ⟨m.world.identities + 1, Or.inr rfl, ?_⟩
      obtain ⟨f₂, -, -, h₂⟩ := h.call_of_ok hp enter (m.numbered (m.world.identities + 1))
      rw [h₂, map_answered_bind, hdrawn]
      rfl
    | none =>
      have hdrawn : f.drawn types = 1 := by unfold drawn; rw [hk]; rfl
      refine ⟨m.world.identities, Or.inl rfl, ?_⟩
      obtain ⟨f₂, -, -, h₂⟩ := h.call_of_ok hp enter (m.numbered m.world.identities)
      rw [h₂, map_answered_bind, hdrawn]
      rfl

/-! ## Calls one after another -/

/-- Calls one after another, each with the function that the one before it has left. -/
def callAll (f : VariadicFunction) (enter : Enter) :
    List (List Value × List (TypeSpec × Value)) → Run (List (Outcome Value) × VariadicFunction)
  | [] => pure ([], f)
  | (arguments, extra) :: calls => do
    let (answer, f) ← f.call enter arguments extra
    let (answers, f) ← f.callAll enter calls
    return (answer :: answers, f)

/-- Calls one after another, each with the function as it is. -/
def callEach (f : VariadicFunction) (enter : Enter) :
    List (List Value × List (TypeSpec × Value)) → Run (List (Outcome Value))
  | [] => pure []
  | (arguments, extra) :: calls => do
    let (answer, _) ← f.call enter arguments extra
    let answers ← f.callEach enter calls
    return answer :: answers

/-- Functions that differ in what they have prepared answer the same, on machines that differ in how
many identities have been handed out. -/
theorem Faithful.call_congr (hf : f.Faithful) (hg : g.Faithful) (h : g.emptied = f.emptied)
    (he : enter.Blind) (arguments : List Value) (extra : List (TypeSpec × Value)) (m : Machine)
    (k : Nat) : ∃ n, (g.call enter arguments extra (m.numbered k)).map answered =
      (f.call enter arguments extra m).map fun r => (r.1.1, r.2.numbered n) := by
  cases hp : f.passes arguments extra with
  | error e =>
    refine ⟨k, ?_⟩
    rw [hf.call_of_error hp, hg.call_of_error ((passes_emptied h).trans hp)]
    rfl
  | ok types =>
    obtain ⟨f₁, -, -, h₁⟩ := hf.call_of_ok hp enter m
    obtain ⟨f₂, -, -, h₂⟩ := hg.call_of_ok ((passes_emptied h).trans hp) enter (m.numbered k)
    -- the two go on in the same way, from machines that differ in the count
    obtain ⟨n, hn⟩ := blind_finish (f := f) he types (arguments ++ extra.map Prod.snd)
      (m.numbered (m.world.identities + f.drawn types)) (k + g.drawn types)
    refine ⟨n, ?_⟩
    rw [h₁, h₂, map_answered_bind, finish_emptied h]
    change f.finish enter types _ (m.numbered (k + g.drawn types)) = _ at hn
    show f.finish enter types _ (m.numbered (k + g.drawn types)) =
      Option.map _ (Option.bind (f.finish enter types _ (m.numbered _)) _)
    rw [hn]
    rcases f.finish enter types (arguments ++ extra.map Prod.snd) _ with - | ⟨a, m'⟩ <;> rfl

/-- A call leaves a function that differs in what it has prepared. -/
theorem Faithful.call (h : f.Faithful) {answer : Outcome Value} {m' : Machine}
    (hc : f.call enter arguments extra m = some ((answer, f'), m')) :
    f'.emptied = f.emptied ∧ f'.Faithful := by
  cases hp : f.passes arguments extra with
  | error e =>
    rw [h.call_of_error hp] at hc
    cases hc
    exact ⟨rfl, h⟩
  | ok types =>
    obtain ⟨f₁, hf₁, hfaithful, h₁⟩ := h.call_of_ok hp enter m
    rw [h₁] at hc
    obtain ⟨r, -, hr⟩ := Option.bind_eq_some_iff.mp hc
    cases hr
    exact ⟨hf₁, hfaithful⟩

theorem Faithful.callAll_congr (h : f.Faithful) (he : enter.Blind)
    (calls : List (List Value × List (TypeSpec × Value))) (m : Machine) (k : Nat) : ∃ n,
      f.emptied.callEach enter calls (m.numbered k) =
        (f.callAll enter calls m).map fun r => (r.1.1, r.2.numbered n) := by
  induction calls generalizing f m k with
  | nil => exact ⟨k, rfl⟩
  | cons c calls ih =>
    obtain ⟨arguments, extra⟩ := c
    obtain ⟨n, hn⟩ := h.call_congr f.faithful_emptied rfl he arguments extra m k
    show ∃ n, Option.bind (f.emptied.call enter arguments extra (m.numbered k)) _ =
      Option.map _ (Option.bind (f.call enter arguments extra m) _)
    rcases hc : f.call enter arguments extra m with - | ⟨⟨answer, f'⟩, m'⟩
    · rw [hc] at hn
      rw [Option.map_eq_none_iff.mp hn]
      exact ⟨0, rfl⟩
    · rw [hc] at hn
      obtain ⟨⟨⟨answer', f''⟩, m''⟩, hr, he'⟩ := Option.map_eq_some_iff.mp hn
      obtain rfl : answer' = answer := congrArg Prod.fst he'
      obtain rfl : m'' = m'.numbered n := congrArg Prod.snd he'
      -- the calls that follow find what this one has prepared, and are compared with none again
      obtain ⟨hemptied, hfaithful⟩ := h.call hc
      obtain ⟨n', hn'⟩ := ih hfaithful m' n
      refine ⟨n', ?_⟩
      rw [hr]
      show Option.bind (f.emptied.callEach enter calls (m'.numbered n)) _ =
        Option.map _ (Option.bind (f'.callAll enter calls m') _)
      rw [← hemptied, hn']
      rcases f'.callAll enter calls m' with - | ⟨⟨answers, f₂⟩, m₂⟩ <;> rfl

/-! ## Functions that have been called -/

theorem emptied_make {address : Nat} {ret : TypeSpec} {params : List TypeSpec}
    {o : SignatureOptions} (h : make address ret params o = .ok f) : f.emptied = f := by
  unfold emptied
  rw [← prepared_make h]

/-- However often a function has been called, without what it has prepared it is as it was made. -/
theorem Reachable.made (h : f.Reachable) : f.Faithful ∧ ∃ address ret params o,
    VariadicFunction.make address ret params o = .ok f.emptied := by
  induction h with
  | make h =>
    have he := emptied_make h
    exact ⟨he ▸ faithful_emptied _, _, _, _, _, he.symm ▸ h⟩
  | call h hc ih =>
    obtain ⟨hf, hmade⟩ := ih
    obtain ⟨he, hf'⟩ := hf.call hc
    exact ⟨hf', he.symm ▸ hmade⟩

/--
What a variadic function has prepared is not seen in its calls, however often it has been called.

* With nothing prepared it is the function as it was made, and a call of that is a call of the
  function as it is, on a machine on which at most one more identity has been handed out.
* Where no code looks at the number of identities, any sequence of calls, refused ones among them,
  has the same answers and the same effects whether each call finds what those before it have
  prepared, or nothing; only that number may differ at the end.
* Lists of further types that are kept in the same place are the same list.
* Nothing is kept for types that are refused, and they are refused whatever has been prepared.
-/
theorem prepared_invisible (h : f.Reachable) :
    (∃ address ret params o, make address ret params o = .ok f.emptied) ∧
    (∀ (enter : Enter) (arguments : List Value) (extra : List (TypeSpec × Value)) (m : Machine),
      ∃ n, (n = m.world.identities ∨ n = m.world.identities + 1) ∧
        (f.emptied.call enter arguments extra m).map answered =
          (f.call enter arguments extra (m.numbered n)).map answered) ∧
    (∀ env : Environment, env.Blind → ∀ (fuel : Nat)
        (calls : List (List Value × List (TypeSpec × Value))) (m : Machine), ∃ n,
      f.emptied.callEach (env.enterWithin fuel) calls m =
        (f.callAll (env.enterWithin fuel) calls m).map fun r => (r.1.1, r.2.numbered n)) ∧
    (∀ types types' key, key? types = some key → key? types' = some key → types = types') ∧
    ∀ types e w w', Signature.ofTypes f.ret (f.fixed ++ types) (some f.fixed.length) f.options w =
        (.error e, w') →
      ((key? types).bind fun key => f.prepared.lookup key) = none ∧
      ∀ v, f.signatureFor types v = (.error e, v) := by
  obtain ⟨hf, hmade⟩ := h.made
  refine ⟨hmade, hf.call_emptied, ?_, fun types types' key => eq_of_key?, ?_⟩
  · intro env hb fuel calls m
    exact hf.callAll_congr (Environment.blind_enterWithin hb fuel) calls m m.world.identities
  · intro types e w w' ht
    cases ha : f.accepts types with
    | ok u =>
      rw [ofTypes_of_ok ha] at ht
      cases (Prod.mk.inj ht).1
    | error e' =>
      rw [ofTypes_of_error ha] at ht
      obtain rfl := Except.error.inj (Prod.mk.inj ht).1
      exact ⟨hf.kept?_of_error ha, hf.signatureFor_of_error ha⟩

/-! ## A function that has been called -/

/-- A further argument: nil for a pointer. -/
def nilPointer : TypeSpec × Value := (.descriptor (.ofBuiltin (.pointer .plain)), .nil)

/-- The function after a call with one further pointer. -/
def calledOnce : VariadicFunction :=
  { variadicToPointer with prepared :=
      [([.builtin (.pointer .plain)], variadicToPointer.signature [.builtin (.pointer .plain)] 0)] }

theorem reachable_calledOnce : calledOnce.Reachable := by
  have hcall : (variadicToPointer.call (answering.enterWithin 1) [] [nilPointer]
      Machine.start).map (fun r => r.1.2) = some calledOnce := rfl
  obtain ⟨⟨⟨answer, f⟩, m⟩, hc, rfl⟩ := Option.map_eq_some_iff.mp hcall
  exact .call reachable_variadicToPointer hc

/-- The functions of a session without closures. -/
def nativeOnly : Environment := Catalog.environment answering.native #[]

/-- Called twice more, it finds the signature and answers as it would without. -/
theorem prepared_invisible_twice : calledOnce.Reachable ∧ calledOnce.prepared ≠ [] ∧
    nativeOnly.Blind ∧ ∃ n,
      calledOnce.emptied.callEach (nativeOnly.enterWithin 1)
          [([], [nilPointer]), ([], [nilPointer])] Machine.start =
        (calledOnce.callAll (nativeOnly.enterWithin 1) [([], [nilPointer]), ([], [nilPointer])]
          Machine.start).map fun r => (r.1.1, r.2.numbered n) := by
  have hb : nativeOnly.Blind := Catalog.blind_environment _ _
  obtain ⟨-, -, hcalls, -⟩ := prepared_invisible reachable_calledOnce
  exact ⟨reachable_calledOnce, List.cons_ne_nil _ _, hb, hcalls nativeOnly hb 1 _ _⟩

end VariadicFunction

end ForeignCall
