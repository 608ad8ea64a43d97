import ForeignCall.World

/-!
# Callbacks

A callback is a code address that enters a closure by a signature. A closure is compiled once per
signature: as long as it lives it keeps the callbacks made for it, and the same signature gives the
same callback again. A callback that the closure does not have is looked for in the directory of the
pool, and only then a slot is bound.

A signature is known by its identity, here as everywhere. It is the address of the signature, so
another one may have it as soon as nothing holds the first.
-/

namespace ForeignCall

namespace World

/-- The callback that a closure has for a signature. -/
def compiled? (w : World) (closure : Nat) (signature : Signature) : Option Nat :=
  match w.closures[closure]? with
  | none => none
  | some c => c.compiled.find? fun id =>
      (w.callbacks[id]?.map fun cb => cb.signature.id == signature.id).getD false

/-- The callback that the pool has bound for a closure and a signature, if it has not gone. -/
def registered? (w : World) (closure : Nat) (signature : Signature) : Option Nat :=
  (w.pool.directory.lookup (closure, signature.id)).filter fun id =>
    !w.gone.contains (.callback id)

/-- The world with a callback in a slot that has been bound in the pool. -/
def pushCallback (w : World) (pool : Pool) (c : Callback) : World :=
  { w with
    pool := pool.register c.key w.callbacks.size
    callbacks := w.callbacks.push c }

/-- The world in which a closure has one more callback. -/
def keepCompiled (w : World) (closure id : Nat) : World :=
  { w with
    closures := w.closures.modify closure fun c => { c with compiled := c.compiled ++ [id] } }

/-- The code address of a callback. -/
def callbackAddress (w : World) (id : Nat) : Nat := (w.callbacks[id]?.map Callback.code).getD 0

/-- An unbounded view at the code of a callback, which keeps the callback alive. -/
def callbackView (w : World) (id : Nat) : View :=
  View.ofParts (w.callbackAddress id) unbounded 1 (some (.callback id))

end World

/--
The callback of a closure for a signature: the one it has, the one that the pool has bound for it,
or a freshly bound slot. `prepared` is the system's answer when a slot is made executable.
-/
def makeCallback (signature : Signature) (closure : Nat) (prepared : Checked Unit := .ok ()) :
    Act Nat := fun w =>
  match w.compiled? closure signature with
  | some id => (.ok id, w)
  | none =>
    match w.registered? closure signature with
    | some id => (.ok id, w.keepCompiled closure id)
    | none =>
      match w.pool.bind signature closure prepared with
      | (.error f, pool) => (.error (.fault f), { w with pool })
      | (.ok slot, pool) =>
        let id := w.callbacks.size
        (.ok id, (w.pushCallback pool ⟨slot, pool.codeAt slot, signature, closure⟩).keepCompiled
          closure id)

/-- Compiling leaves everything but the pool and the tables of callbacks and closures alone. -/
theorem makeCallback_snd (signature : Signature) (closure : Nat) (prepared : Checked Unit)
    (w : World) : ∃ pool callbacks closures,
      (makeCallback signature closure prepared w).2 = { w with pool, callbacks, closures } := by
  unfold makeCallback
  split
  · exact ⟨_, _, _, rfl⟩
  · split
    · exact ⟨_, _, _, rfl⟩
    · split <;> exact ⟨_, _, _, rfl⟩

theorem memory_makeCallback (signature : Signature) (closure : Nat) (prepared : Checked Unit)
    (w : World) : (makeCallback signature closure prepared w).2.memory = w.memory := by
  obtain ⟨pool, callbacks, closures, h⟩ := makeCallback_snd signature closure prepared w
  rw [h]

/-- A callback stored at an offset of a view. -/
def putCallback (v : View) (offset closure : Nat) (signature : Signature) : Act Nat := do
  let id ← makeCallback signature closure
  let address ← Act.view fun w => w.callbackAddress id
  Act.write fun m => m.writeAddress v offset address
  return id

/-- A function that enters a closure when it is called. -/
def Function.ofClosure (signature : Signature) (closure : Nat) : Act Function := do
  let id ← makeCallback signature closure
  let address ← Act.view fun w => w.callbackAddress id
  return ⟨address, signature, some id, none⟩

end ForeignCall
