import ForeignCall.Proofs.Call.Helper
import ForeignCall.Session

/-!
# Interrupting a blocking call

The caller of a blocking call, its helper and whoever holds the interrupt act at the same time. A
`BlockingCall` is the state that they share, and a `Step` is what one of them does: somebody
requests an interrupt, the native code on the helper ends, with a result or without, or the caller
wakes up at the end of an interval, looks at its interrupt, and receives what the helper has left.
`Steps` are the steps of a call in any order in which they can happen, any number of them.

A caller receives at once what is there: an interval is over only while the helper is still running.
That the interval is over and that the caller looks at the interrupt are two steps, since anything
may happen between them. Calls that are run take these steps as well
(`ForeignCall.Proofs.Call.Interleaving`).

Main statement: `BlockingCall.unblocked_once`.
-/

namespace ForeignCall

/-! ## The parties of a call -/

/-- How far the helper of a blocking call is. -/
inductive Helper (α : Type) where
  | running
  /-- It has ended, and its result is on the way. -/
  | delivered (a : α)
  /-- It has ended without a result. -/
  | lost

namespace Helper

variable {α : Type}

/-- What a helper that has ended sends to the caller. -/
def signal? : Helper α → Option (Signal α)
  | running => none
  | delivered a => some (.delivered a)
  | lost => some .lost

/-- What the call has to return for a helper that has ended. -/
def result? : Helper α → Option (Checked α)
  | running => none
  | delivered a => some (.ok a)
  | lost => some (.error (.runtime "blocking call panicked"))

/-- A caller that receives from its helper returns what it has to. -/
theorem await_signal {h : Helper α} {σ : Signal α} (hσ : h.signal? = some σ) (p : Parked)
    (requested : Bool) (rest : List (Signal α)) :
    p.await requested (σ :: rest) = (0, h.result?) := by
  cases h with
  | running => cases hσ
  | delivered a =>
    cases hσ
    rfl
  | lost =>
    cases hσ
    rfl

theorem signal?_isSome (h : Helper α) : h.signal?.isSome = h.result?.isSome := by
  cases h <;> rfl

end Helper

/-- A blocking call in progress. -/
structure BlockingCall (α : Type) where
  world : World
  caller : Parked
  /-- The interval of the caller is over, and it has not looked at its interrupt yet. -/
  woken : Bool
  helper : Helper α
  /-- What the call has returned. -/
  answer : Option (Checked α)

namespace BlockingCall

variable {α : Type}

/-- A call that begins, with the interrupt that its caller watches. -/
def start (w : World) (interrupt : Nat) : BlockingCall α :=
  ⟨w, .start (some interrupt), false, .running, none⟩

/-! ## Steps -/

/-- What one of the parties does. -/
inductive Label (α : Type) where
  /-- Somebody requests an interrupt. -/
  | requested (interrupt : Nat)
  /-- The world changes in another way: native code goes on, and other calls do. -/
  | other
  /-- The native code comes back with its result. -/
  | finished (a : α)
  /-- The native code panics. -/
  | panicked
  /-- The interval of the caller is over. -/
  | expired
  /-- The caller looks at its interrupt at the end of an interval, and these are the events of what
  it does then. -/
  | handled (noted : List Event)
  /-- The caller receives from the helper. -/
  | received (σ : Signal α)

namespace Label

/-- The events of what the caller does. -/
def notes : Label α → List Event
  | handled noted => noted
  | _ => []

/-- What the call has to return after a step of the helper. -/
def result? : Label α → Option (Checked α)
  | finished a => some (.ok a)
  | panicked => some (.error (.runtime "blocking call panicked"))
  | _ => none

/-- Whether a step is one of the caller. -/
def ofCaller : Label α → Bool
  | expired | handled _ | received _ => true
  | _ => false

/-- What a step is to a parked caller that watches an interrupt. -/
def signal? (interrupt : Nat) : Label α → Option (Signal α)
  | requested j => if j = interrupt then some .requested else none
  | handled _ => some .timeout
  | received σ => some σ
  | _ => none

end Label

/-- One step of a call. -/
inductive Step : BlockingCall α → Label α → BlockingCall α → Prop where
  | requested (s : BlockingCall α) (j : Nat) :
      Step s (.requested j) { s with world := s.world.requestInterrupt j }
  | other (s : BlockingCall α) {w : World}
      (h : ∀ (j : Nat) (k : Interrupt),
        s.world.interrupts[j]? = some k → w.interrupts[j]? = some k) :
      Step s .other { s with world := w }
  | finished {s : BlockingCall α} (h : s.helper = .running) (a : α) :
      Step s (.finished a) { s with helper := .delivered a }
  | panicked {s : BlockingCall α} (h : s.helper = .running) :
      Step s .panicked { s with helper := .lost }
  | expired {s : BlockingCall α} (ha : s.answer = none) (hw : s.woken = false)
      (hh : s.helper = .running) :
      Step s .expired { s with woken := true }
  | handled {s : BlockingCall α} (hw : s.woken = true) {w : World} {p : Parked}
      {noted : List Event}
      (hp : (Machine.mk s.world .start [s.caller]).poll = ⟨w, .start, [p]⟩)
      (hn : w.events.toList = s.world.events.toList ++ noted) :
      Step s (.handled noted) { s with world := w, caller := p, woken := false }
  | received {s : BlockingCall α} (ha : s.answer = none) (hw : s.woken = false) {σ : Signal α}
      (hσ : s.helper.signal? = some σ) :
      Step s (.received σ)
        { s with answer := (s.caller.await (s.caller.interrupt.any s.world.isRequested) [σ]).2 }

/-- Any number of steps. -/
inductive Steps : BlockingCall α → List (Label α) → BlockingCall α → Prop where
  | nil (s : BlockingCall α) : Steps s [] s
  | cons {s t u : BlockingCall α} {l : Label α} {ls : List (Label α)} (h : Step s l t)
      (rest : Steps t ls u) : Steps s (l :: ls) u

/-- The events of what the caller does during steps. -/
def notes (ls : List (Label α)) : List Event := ls.flatMap Label.notes

/-- What reaches a parked caller that watches an interrupt during steps. -/
def signals (interrupt : Nat) (ls : List (Label α)) : List (Signal α) :=
  ls.filterMap (Label.signal? interrupt)

/-- Steps one after the other. -/
theorem Steps.of_append {s u : BlockingCall α} {ls ls' : List (Label α)}
    (h : Steps s (ls ++ ls') u) : ∃ t, Steps s ls t ∧ Steps t ls' u := by
  induction ls generalizing s with
  | nil => exact ⟨s, .nil s, h⟩
  | cons l ls ih =>
    cases h with
    | cons hl rest =>
      obtain ⟨t, ht, hu⟩ := ih rest
      exact ⟨t, .cons hl ht, hu⟩

end BlockingCall

/-! ## Looking at an interrupt -/

namespace World

variable {w : World} {i : Nat} {k : Interrupt}

/-- What a request leaves at each interrupt. -/
theorem interrupts_requestInterrupt (h : w.interrupts[i]? = some k) (j : Nat) :
    (w.requestInterrupt j).interrupts[i]? =
      some (if j = i then { k with requested := true } else k) := by
  unfold requestInterrupt
  dsimp only
  rw [Array.getElem?_modify, h]
  split <;> rfl

theorem isRequested_of_interrupts (h : w.interrupts[i]? = some k) :
    w.isRequested i = k.requested := by
  unfold isRequested
  rw [h]
  rfl

@[simp] theorem interrupts_unblock (w : World) (j : Nat) :
    (w.unblock j).interrupts = w.interrupts := by
  unfold unblock
  split
  · dsimp only
    split <;> rfl
  · rfl

@[simp] theorem isRequested_unblock (w : World) (j i : Nat) :
    (w.unblock j).isRequested i = w.isRequested i := by
  unfold isRequested
  rw [interrupts_unblock]

/-- The unblock function of an interrupt is noted when it runs. -/
theorem events_unblock (w : World) (i : Nat) :
    (w.unblock i).events.toList = w.events.toList ++
      if (w.interrupts[i]?.bind Interrupt.unblock).isSome then [.unblocked i] else [] := by
  unfold unblock
  cases w.interrupts[i]?.bind Interrupt.unblock with
  | none => exact (List.append_nil _).symm
  | some u =>
    dsimp only
    split <;> exact Array.toList_push

end World

/-- A single caller that wakes up. -/
theorem Machine.poll_single (w : World) (t : Thread) (p : Parked) :
    (Machine.mk w t [p]).poll =
      match p.due? w.isRequested with
      | some i => ⟨w.unblock i, t, [{ p with unblocked := true }]⟩
      | none => ⟨w, t, [p]⟩ :=
  poll_cons w t p []

/-- Callers that are parked one behind the other wake up one by one. -/
theorem Machine.poll_cons_eq_single (w : World) (t : Thread) (p : Parked) (l : List Parked) :
    (Machine.mk w t (p :: l)).poll =
      ⟨(Machine.mk (Machine.mk w t l).poll.world t [p]).poll.world, t,
        (Machine.mk (Machine.mk w t l).poll.world t [p]).poll.parked ++
          (Machine.mk w t l).poll.parked⟩ := by
  rw [poll_cons, poll_single]
  cases p.due? (Machine.mk w t l).poll.world.isRequested <;> rfl

namespace BlockingCall

variable {α : Type} {s t : BlockingCall α} {l : Label α} {ls : List (Label α)} {i : Nat}
  {f : Option (View × Nat)}

/-! ## What the caller makes of its interrupt -/

/-- The caller watches an interrupt, which has this unblock function. -/
structure Watches (s : BlockingCall α) (i : Nat) (f : Option (View × Nat)) : Prop where
  interrupt : s.caller.interrupt = some i
  function : s.world.interrupts[i]?.map Interrupt.unblock = some f

/-- The events of a caller that has looked at a requested interrupt. -/
def ran (s : BlockingCall α) (i : Nat) (f : Option (View × Nat)) : List Event :=
  if s.caller.unblocked && f.isSome then [.unblocked i] else []

theorem Watches.due? (hs : s.Watches i f) (requested : Nat → Bool) :
    s.caller.due? requested =
      if !s.caller.unblocked && requested i then some i else none := by
  unfold Parked.due?
  rw [hs.interrupt]
  cases s.caller.unblocked <;> cases h : requested i <;> simp [Option.filter, h]

/-- A caller that looks at its interrupt runs the unblock function if there has been a request and
it has not run it before. -/
theorem Watches.poll (hs : s.Watches i f) :
    (Machine.mk s.world .start [s.caller]).poll =
      if !s.caller.unblocked && s.world.isRequested i
      then ⟨s.world.unblock i, .start, [{ s.caller with unblocked := true }]⟩
      else ⟨s.world, .start, [s.caller]⟩ := by
  rw [Machine.poll_single, hs.due?]
  cases !s.caller.unblocked && s.world.isRequested i <;> rfl

/-- The events of a caller that looks at its interrupt. -/
theorem Watches.events (hs : s.Watches i f) :
    (s.world.unblock i).events.toList =
      s.world.events.toList ++ if f.isSome then [.unblocked i] else [] := by
  obtain ⟨k, hk, rfl⟩ := Option.map_eq_some_iff.mp hs.function
  rw [World.events_unblock, hk, Option.bind_some]

/-- What a caller does that looks at its interrupt: it runs the unblock function, or nothing. -/
theorem Watches.looks (hs : s.Watches i f) {w : World} {p : Parked} {noted : List Event}
    (hp : (Machine.mk s.world .start [s.caller]).poll = ⟨w, .start, [p]⟩)
    (hn : w.events.toList = s.world.events.toList ++ noted) :
    s.caller.unblocked = false ∧ s.world.isRequested i = true ∧ w = s.world.unblock i ∧
        p = { s.caller with unblocked := true } ∧
        noted = (if f.isSome then [.unblocked i] else []) ∨
      (s.caller.unblocked = true ∨ s.world.isRequested i = false) ∧ w = s.world ∧ p = s.caller ∧
        noted = [] := by
  rw [hs.poll] at hp
  split at hp
  · rename_i hdue
    cases hp
    rw [hs.events] at hn
    rw [Bool.and_eq_true, Bool.not_eq_true'] at hdue
    exact .inl ⟨hdue.1, hdue.2, rfl, rfl, (List.append_cancel_left hn).symm⟩
  · rename_i hidle
    cases hp
    rw [Bool.and_eq_true, not_and_or, Bool.not_eq_true', Bool.not_eq_false,
      Bool.not_eq_true] at hidle
    exact .inr ⟨hidle, rfl, rfl, List.append_right_eq_self.mp hn.symm⟩

/-- A caller that wakes up after a request can run the unblock function. -/
theorem Watches.handled_due (hs : s.Watches i f) (hw : s.woken = true)
    (hdue : (!s.caller.unblocked && s.world.isRequested i) = true) :
    Step s (.handled (if f.isSome then [.unblocked i] else []))
      { s with
        world := s.world.unblock i
        caller := { s.caller with unblocked := true }
        woken := false } :=
  .handled hw (hs.poll.trans (if_pos hdue)) hs.events

/-- A caller that wakes up otherwise can go back to sleep. -/
theorem Watches.handled_idle (hs : s.Watches i f) (hw : s.woken = true)
    (hidle : ¬(!s.caller.unblocked && s.world.isRequested i) = true) :
    Step s (.handled []) { s with woken := false } :=
  .handled hw (hs.poll.trans (if_neg hidle)) (List.append_nil _).symm

namespace Step

theorem watches (h : Step s l t) (hs : s.Watches i f) : t.Watches i f := by
  cases h with
  | requested j =>
    obtain ⟨k, hk, rfl⟩ := Option.map_eq_some_iff.mp hs.function
    refine ⟨hs.interrupt, ?_⟩
    dsimp only
    rw [World.interrupts_requestInterrupt hk]
    split <;> rfl
  | other h =>
    obtain ⟨k, hk, rfl⟩ := Option.map_eq_some_iff.mp hs.function
    exact ⟨hs.interrupt, by rw [h i k hk]; rfl⟩
  | handled hw hp hn =>
    obtain ⟨-, -, rfl, rfl, -⟩ | ⟨-, rfl, rfl, -⟩ := hs.looks hp hn
    · exact ⟨hs.interrupt, by rw [World.interrupts_unblock]; exact hs.function⟩
    · exact ⟨hs.interrupt, hs.function⟩
  | finished | panicked | expired | received => exact ⟨hs.interrupt, hs.function⟩

/-- An interrupt counts as requested from a request on. -/
theorem isRequested_iff (h : Step s l t) (hs : s.Watches i f) :
    t.world.isRequested i = true ↔ s.world.isRequested i = true ∨ l = .requested i := by
  cases h with
  | requested j =>
    obtain ⟨k, hk, rfl⟩ := Option.map_eq_some_iff.mp hs.function
    rw [World.isRequested_of_interrupts (World.interrupts_requestInterrupt hk j),
      World.isRequested_of_interrupts hk, Label.requested.injEq]
    split <;> simp [*]
  | other h =>
    obtain ⟨k, hk, rfl⟩ := Option.map_eq_some_iff.mp hs.function
    rw [World.isRequested_of_interrupts (h i k hk), World.isRequested_of_interrupts hk]
    simp
  | handled hw hp hn =>
    obtain ⟨-, -, rfl, -, -⟩ | ⟨-, rfl, -, -⟩ := hs.looks hp hn
    · simp
    · simp
  | finished | panicked | expired | received => simp

/-- The caller has looked at a requested interrupt once it does so. -/
theorem unblocked_iff (h : Step s l t) (hs : s.Watches i f) :
    t.caller.unblocked = true ↔ s.caller.unblocked = true ∨
      (∃ noted, l = .handled noted) ∧ s.world.isRequested i = true := by
  cases h with
  | handled hw hp hn =>
    obtain ⟨-, hr, -, rfl, -⟩ | ⟨hidle, -, rfl, -⟩ := hs.looks hp hn
    · simp [hr]
    · rcases hidle with hu | hr
      · simp [hu]
      · simp [hr]
  | requested | other | finished | panicked | expired | received => simp

/-- The caller's own events are those of the one time when it looks at a requested interrupt. -/
theorem ran_eq (h : Step s l t) (hs : s.Watches i f) : s.ran i f ++ l.notes = t.ran i f := by
  cases h with
  | handled hw hp hn =>
    obtain ⟨hu, -, -, rfl, rfl⟩ | ⟨-, -, rfl, rfl⟩ := hs.looks hp hn
    · simp [ran, hu, Label.notes]
    · exact List.append_nil _
  | requested | other | finished | panicked | expired | received => exact List.append_nil _

/-- The caller does nothing before a request. -/
theorem isRequested_of_notes (h : Step s l t) (hs : s.Watches i f) (hn : l.notes ≠ []) :
    s.world.isRequested i = true := by
  by_contra hr
  have hu : t.caller.unblocked = s.caller.unblocked := by
    rw [Bool.eq_iff_iff, h.unblocked_iff hs]
    simp [hr]
  have hran := h.ran_eq hs
  rw [ran, ran, hu] at hran
  exact hn (List.append_right_eq_self.mp hran)

end Step

namespace Steps

theorem watches (h : Steps s ls t) (hs : s.Watches i f) : t.Watches i f := by
  induction h with
  | nil => exact hs
  | cons hl _ ih => exact ih (hl.watches hs)

theorem isRequested_iff (h : Steps s ls t) (hs : s.Watches i f) :
    t.world.isRequested i = true ↔ s.world.isRequested i = true ∨ .requested i ∈ ls := by
  induction h with
  | nil => simp
  | cons hl _ ih =>
    rw [ih (hl.watches hs), hl.isRequested_iff hs, List.mem_cons, or_assoc,
      eq_comm (a := Label.requested i)]

theorem unblocked (h : Steps s ls t) (hs : s.Watches i f) (hu : s.caller.unblocked = true) :
    t.caller.unblocked = true := by
  induction h with
  | nil => exact hu
  | cons hl _ ih => exact ih (hl.watches hs) ((hl.unblocked_iff hs).mpr (.inl hu))

theorem ran_eq (h : Steps s ls t) (hs : s.Watches i f) : s.ran i f ++ notes ls = t.ran i f := by
  induction h with
  | nil => exact List.append_nil _
  | cons hl _ ih =>
    rw [notes, List.flatMap_cons, ← List.append_assoc, hl.ran_eq hs]
    exact ih (hl.watches hs)

end Steps

/-! ## What the caller returns -/

/-- A call that has returned has returned what it has to, and its caller has not woken up since. -/
def Sound (s : BlockingCall α) : Prop :=
  s.answer = none ∨ s.woken = false ∧ s.answer = s.helper.result?

theorem sound_start (w : World) (i : Nat) : (start w i : BlockingCall α).Sound := .inl rfl

/-- How many steps the caller still takes when the helper has ended. -/
def remaining (s : BlockingCall α) : Nat :=
  if s.answer.isSome then 0 else if s.woken then 2 else 1

theorem remaining_le (s : BlockingCall α) : s.remaining ≤ 2 := by
  unfold remaining
  split
  · decide
  · split <;> decide

namespace Step

theorem sound (h : Step s l t) (hs : s.Sound) : t.Sound := by
  cases h with
  | requested | other => exact hs
  | finished h a | panicked h =>
    rcases hs with ha | ⟨-, ha⟩
    · exact .inl ha
    · exact .inl (by rw [ha, h]; rfl)
  | expired ha => exact .inl ha
  | handled hw =>
    rcases hs with ha | ⟨hw', -⟩
    · exact .inl ha
    · rw [hw] at hw'
      cases hw'
  | received ha hw hσ => exact .inr ⟨hw, congrArg Prod.snd (Helper.await_signal hσ _ _ _)⟩

/-- What the call has to return is settled when the helper ends, and stays. -/
theorem result_iff (h : Step s l t) (r : Checked α) :
    t.helper.result? = some r ↔ s.helper.result? = some r ∨ l.result? = some r := by
  cases h with
  | finished h a | panicked h => simp [h, Helper.result?, Label.result?]
  | requested | other | expired | handled | received => simp [Label.result?]

/-- When the helper has ended, the caller takes its last steps, and nothing else delays them. -/
theorem remaining_eq (h : Step s l t) (hs : s.Sound) (hr : s.helper.result? ≠ none) :
    (if l.ofCaller then 1 else 0) + t.remaining = s.remaining := by
  cases h with
  | requested | other => exact Nat.zero_add _
  | finished h | panicked h | expired _ _ h => exact absurd (by rw [h]; rfl) hr
  | handled hw =>
    rcases hs with ha | ⟨hw', -⟩
    · simp [remaining, ha, hw, Label.ofCaller]
    · rw [hw] at hw'
      cases hw'
  | received ha hw hσ =>
    rw [remaining, remaining, ha, hw, Helper.await_signal hσ]
    simp [Option.isSome_iff_ne_none.mpr hr, Label.ofCaller]

end Step

/-- A caller whose helper has ended can go on until it has returned. -/
theorem exists_step (hs : s.Watches i f) (ha : s.answer = none) (hr : s.helper.result? ≠ none) :
    ∃ l t, l.ofCaller = true ∧ Step s l t := by
  cases hw : s.woken with
  | true =>
    by_cases hdue : (!s.caller.unblocked && s.world.isRequested i) = true
    · exact ⟨_, _, rfl, hs.handled_due hw hdue⟩
    · exact ⟨_, _, rfl, hs.handled_idle hw hdue⟩
  | false =>
    obtain ⟨σ, hσ⟩ : ∃ σ, s.helper.signal? = some σ := by
      rw [← Option.isSome_iff_exists, Helper.signal?_isSome, Option.isSome_iff_ne_none]
      exact hr
    exact ⟨_, _, rfl, .received ha hw hσ⟩

namespace Steps

theorem sound (h : Steps s ls t) (hs : s.Sound) : t.Sound := by
  induction h with
  | nil => exact hs
  | cons hl _ ih => exact ih (hl.sound hs)

theorem result_iff (h : Steps s ls t) (r : Checked α) :
    t.helper.result? = some r ↔ s.helper.result? = some r ∨ ∃ l ∈ ls, l.result? = some r := by
  induction h with
  | nil => simp
  | cons hl _ ih => rw [ih, hl.result_iff, List.exists_mem_cons_iff, or_assoc]

theorem remaining_eq (h : Steps s ls t) (hs : s.Sound) (hr : s.helper.result? ≠ none) :
    ls.countP Label.ofCaller + t.remaining = s.remaining := by
  induction h with
  | nil => exact Nat.zero_add _
  | cons hl _ ih =>
    obtain ⟨r, hr'⟩ := Option.ne_none_iff_exists'.mp hr
    have hfirst := hl.remaining_eq hs hr
    have hrest := ih (hl.sound hs) (Option.ne_none_iff_exists'.mpr
      ⟨r, (hl.result_iff r).mpr (.inl hr')⟩)
    rw [List.countP_cons]
    omega

end Steps

/-! ## The parked caller -/

/-- After a call has returned, its caller does nothing. -/
theorem Step.returned (h : Step s l t) (hw : s.woken = false) (ha : s.answer ≠ none) :
    t.woken = false ∧ t.answer = s.answer ∧ t.caller = s.caller := by
  cases h with
  | expired h | received h => exact absurd h ha
  | handled h => rw [hw] at h; cases h
  | requested | other | finished | panicked => exact ⟨hw, rfl, rfl⟩

theorem Steps.returned (h : Steps s ls t) (hw : s.woken = false) (ha : s.answer ≠ none) :
    t.answer = s.answer ∧ t.caller = s.caller := by
  induction h with
  | nil => exact ⟨rfl, rfl⟩
  | cons hl _ ih =>
    obtain ⟨hw', ha', hc⟩ := hl.returned hw ha
    obtain ⟨h₁, h₂⟩ := ih hw' (ha' ▸ ha)
    exact ⟨h₁.trans ha', h₂.trans hc⟩

/-- A step that is nothing to the caller changes nothing that it looks at. -/
theorem Step.silent (h : Step s l t) (hs : s.Watches i f) (hl : l.signal? i = none) :
    t.world.isRequested i = s.world.isRequested i ∧ t.caller = s.caller ∧ t.answer = s.answer := by
  refine ⟨?_, ?_⟩
  · rw [Bool.eq_iff_iff, h.isRequested_iff hs, or_iff_left]
    rintro rfl
    simp [Label.signal?] at hl
  · cases h with
    | handled | received => cases hl
    | requested | other | finished | panicked | expired => exact ⟨rfl, rfl⟩

/-- A caller that looks at its interrupt, as a signal that reaches it. -/
theorem Watches.await_timeout (hs : s.Watches i f) (rest : List (Signal α)) :
    s.caller.await (s.world.isRequested i) (.timeout :: rest) =
      if !s.caller.unblocked && s.world.isRequested i
      then ((Parked.await { s.caller with unblocked := true } (s.world.isRequested i) rest).1 + 1,
        (Parked.await { s.caller with unblocked := true } (s.world.isRequested i) rest).2)
      else s.caller.await (s.world.isRequested i) rest := by
  rw [Parked.await, hs.due?]
  cases !s.caller.unblocked && s.world.isRequested i <;> rfl

/-- A call returns what its parked caller makes of the signals that reach it, and the caller looks
at a requested interrupt as often. -/
theorem Steps.await_eq (h : Steps s ls t) (hs : s.Watches i f) (ha : s.answer = none) :
    s.caller.await (s.world.isRequested i) (signals i ls) =
      (if !s.caller.unblocked && t.caller.unblocked then 1 else 0, t.answer) := by
  induction h with
  | nil s => simp [signals, Parked.await, ha]
  | @cons s s₁ t l ls hl rest ih =>
    have hs₁ := hl.watches hs
    cases hsig : l.signal? i with
    | none =>
      obtain ⟨hq, hc, ha'⟩ := hl.silent hs hsig
      rw [signals, List.filterMap_cons_none hsig, ← hq, ← hc]
      exact ih hs₁ (ha'.trans ha)
    | some σ =>
      rw [signals, List.filterMap_cons_some hsig]
      cases hl with
      | other | finished | panicked | expired => cases hsig
      | requested j =>
        obtain ⟨rfl, rfl⟩ : j = i ∧ Signal.requested = σ := by
          simpa [Label.signal?] using hsig
        have hq : (s.world.requestInterrupt j).isRequested j = true :=
          ((Step.requested s j).isRequested_iff hs).mpr (.inr rfl)
        have hrest := ih hs₁ ha
        dsimp only at hrest
        rw [hq] at hrest
        exact hrest
      | handled hw hp hn =>
        cases hsig
        have hrest := ih hs₁ ha
        rw [hs.await_timeout]
        obtain ⟨hu, hr, rfl, rfl, -⟩ | ⟨hidle, rfl, rfl, -⟩ := hs.looks hp hn
        · dsimp only at hrest
          rw [World.isRequested_unblock] at hrest
          rw [if_pos (by rw [hu, hr]; rfl), ← signals, hrest, rest.unblocked hs₁ rfl, hu]
          rfl
        · rw [if_neg (by rcases hidle with hu | hr <;> simp [*])]
          exact hrest
      | received ha' hw hσ =>
        cases hsig
        have hr := Helper.await_signal hσ s.caller
          (s.caller.interrupt.any s.world.isRequested) []
        obtain ⟨hanswer, hcaller⟩ := rest.returned hw (by
          rw [hr, ← Option.isSome_iff_ne_none, ← Helper.signal?_isSome, hσ]
          rfl)
        rw [Helper.await_signal hσ, hanswer, hcaller, hr]
        simp

/-! ## Any order of steps -/

/--
An interrupt unblocks a call at most once.

Take the steps of a call up to any point, in any order in which they can happen. The call has then
returned, or not, what its parked caller makes of the signals that have reached it, and the caller's
own events are that it ran the unblock function of its interrupt, at most once (`n` times). It ran
it at no time before the interrupt was requested, be it before the call or during it; and when the
caller has looked at the interrupt at the end of an interval after a request, it has run it.

What the call returns is the result of the native code, or, when the native code panics, the fault
that says so. Once the helper has ended in one of these ways, the caller returns that: whatever else
happens, it takes two more steps at most, and it can take one as long as it has not returned.
-/
theorem unblocked_once {w : World} {k : Interrupt} (hk : w.interrupts[i]? = some k)
    (h : Steps (start w i) ls s) :
    (∃ n ≤ 1, (Parked.start (some i)).await (w.isRequested i) (signals i ls) = (n, s.answer) ∧
      notes ls = if k.unblock.isSome then List.replicate n (.unblocked i) else []) ∧
    (∀ pre noted post, ls = pre ++ .handled noted :: post →
      (noted ≠ [] → w.isRequested i = true ∨ .requested i ∈ pre) ∧
      (k.unblock.isSome = true → w.isRequested i = true ∨ .requested i ∈ pre →
        notes (pre ++ [.handled noted]) = [.unblocked i])) ∧
    (∀ r, s.answer = some r → ∃ l ∈ ls, l.result? = some r) ∧
    (∀ l ∈ ls, ∀ r, l.result? = some r → ∀ ls' t, Steps s ls' t →
      ls'.countP Label.ofCaller ≤ 2 ∧ (t.answer = some r ∨
        t.answer = none ∧ ∃ l' u, l'.ofCaller = true ∧ Step t l' u)) := by
  have hw : (start w i : BlockingCall α).Watches i k.unblock := ⟨rfl, by rw [start, hk]; rfl⟩
  refine ⟨⟨if s.caller.unblocked then 1 else 0, by split <;> decide, h.await_eq hw rfl, ?_⟩, ?_, ?_,
    ?_⟩
  · refine (h.ran_eq hw).trans ?_
    unfold ran
    cases s.caller.unblocked <;> cases k.unblock <;> rfl
  · rintro pre noted post rfl
    obtain ⟨t, hpre, hpost⟩ := h.of_append
    cases hpost with
    | @cons _ t' _ _ _ hl _ =>
      have ht := hpre.watches hw
      have hreq := hpre.isRequested_iff hw
      refine ⟨fun hn => hreq.mp (hl.isRequested_of_notes ht hn), fun hf hr => ?_⟩
      have hu := (hl.unblocked_iff ht).mpr (.inr ⟨⟨noted, rfl⟩, hreq.mpr hr⟩)
      calc notes (pre ++ [.handled noted])
        _ = notes pre ++ noted := by simp [notes, Label.notes]
        _ = t.ran i k.unblock ++ noted := congrArg (· ++ noted) (hpre.ran_eq hw)
        _ = t'.ran i k.unblock := hl.ran_eq ht
        _ = [.unblocked i] := by rw [ran, hu, hf]; rfl
  · intro r hr
    rcases h.sound (sound_start w i) with hnone | ⟨-, ha⟩
    · rw [hr] at hnone
      cases hnone
    · exact ((h.result_iff r).mp (ha ▸ hr)).resolve_left nofun
  · intro l hl r hr ls' t ht
    have hs := h.sound (sound_start w i)
    have hsr : s.helper.result? = some r := (h.result_iff r).mpr (.inr ⟨l, hl, hr⟩)
    have htr : t.helper.result? = some r := (ht.result_iff r).mpr (.inl hsr)
    have hcount := ht.remaining_eq hs (Option.ne_none_iff_exists'.mpr ⟨r, hsr⟩)
    have hle := s.remaining_le
    refine ⟨by omega, ?_⟩
    rcases ht.sound hs with hnone | ⟨-, ha⟩
    · exact .inr ⟨hnone, exists_step (ht.watches (h.watches hw)) hnone
        (Option.ne_none_iff_exists'.mpr ⟨r, htr⟩)⟩
    · exact .inl (ha.trans htr)

/-- The interrupt is requested twice between two looks of the caller, and the native code comes back
with 7. -/
theorem unblocked_once_seven : ∃ (w : World) (s : BlockingCall Nat),
    w.interrupts[0]? = some ⟨"stop", false, some (.ofParts 4096 1 1 none, 0)⟩ ∧
    Steps (start w 0) [.expired, .handled [], .requested 0, .requested 0, .expired,
      .handled [.unblocked 0], .finished 7, .received (.delivered 7)] s ∧
    notes [.expired, .handled [], .requested 0, .requested 0, .expired,
      .handled [.unblocked 0], .finished 7, .received (.delivered (7 : Nat))] = [.unblocked 0] ∧
    s.answer = some (.ok 7) := by
  let f : Option (View × Nat) := some (.ofParts 4096 1 1 none, 0)
  let w : World := { World.start with interrupts := #[⟨"stop", false, f⟩] }
  let s₀ : BlockingCall Nat := start w 0
  let s₁ : BlockingCall Nat := { s₀ with woken := true }
  let s₂ : BlockingCall Nat :=
    { s₀ with world := (w.requestInterrupt 0).requestInterrupt 0, woken := true }
  have h₁ : s₁.Watches 0 f := ⟨rfl, rfl⟩
  have h₂ : s₂.Watches 0 f := ⟨rfl, rfl⟩
  have h : Steps s₀ [.expired, .handled [], .requested 0, .requested 0, .expired,
      .handled [.unblocked 0], .finished 7, .received (.delivered 7)] _ :=
    .cons (.expired rfl rfl rfl) <| .cons (h₁.handled_idle rfl (by decide)) <|
    .cons (.requested _ 0) <| .cons (.requested _ 0) <| .cons (.expired rfl rfl rfl) <|
    .cons (h₂.handled_due rfl (by decide)) <| .cons (.finished rfl 7) <|
    .cons (.received rfl rfl rfl) <| .nil _
  obtain ⟨-, hlooks, -, hends⟩ := unblocked_once rfl h
  refine ⟨w, _, rfl, h, ?_, ?_⟩
  · exact (hlooks [.expired, .handled [], .requested 0, .requested 0, .expired] [.unblocked 0]
      [.finished 7, .received (.delivered 7)] rfl).2 rfl (.inr (by simp))
  · exact (hends (.finished 7) (by simp) (.ok 7) rfl [] _ (.nil _)).2.resolve_right nofun

end BlockingCall

end ForeignCall
