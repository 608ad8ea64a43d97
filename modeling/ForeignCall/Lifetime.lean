import ForeignCall.World

/-!
# Lifetimes

What holds what, and what happens when the last holder goes. Owners of memory, libraries, callbacks,
closures, the bodies of closures and the maps of structs are held by counting: each lives until
nothing holds it any more. Things that hold each other in a circle live for ever.

`World.collect` follows references that have been given up. Something that nothing else holds is
retired: memory is released, the slot of a callback goes back to the pool, which forgets the
callback. Then what it held itself is given up, before anything that was given up later.
-/

namespace ForeignCall

namespace World

/-- The body of the closure that a callback enters. -/
def bodyOf (w : World) (callback : Nat) : List Ref :=
  (w.callbacks[callback]?.map fun c => Ref.body c.closure).toList

/-- What something holds, in the order in which it is given up. -/
def children (w : World) : Ref → List Ref
  | .owner _ => []
  | .library _ => []
  | .callback id => w.bodyOf id
  | .proc id =>
    match w.closures[id]? with
    | some c => c.compiled.map Ref.callback ++ [.body id]
    | none => []
  | .body id => (w.closures[id]?.map fun c => c.captured.flatMap Value.refs).getD []
  | .retention id => ((w.retentions[id]?.getD []).map fun e => Ref.callback e.2)

/-- Everything that holds something: callbacks, closures, their bodies, and the maps of structs. -/
def holders (w : World) : List Ref :=
  ((List.range w.callbacks.size).map Ref.callback ++
    (List.range w.closures.size).flatMap (fun id => [Ref.proc id, Ref.body id]) ++
    (List.range w.retentions.size).map Ref.retention).filter fun r => !w.gone.contains r

/-- Whether something is held: by one of the given references, or by a thing that is not gone. -/
def isHeld (w : World) (roots : List Ref) (r : Ref) : Bool :=
  roots.contains r || w.holders.any fun h => (w.children h).contains r

/-- The world after a region has been released, once. -/
def releaseOwner (w : World) (id : Nat) : World :=
  match w.memory.owners[id]? with
  | some o =>
    if o.released then w
    else
      let w := { w with memory := w.memory.modifyOwner id fun o => { o with released := true } }
      match o.kind with
      | .foreign label => { w with events := w.events.push (.released label o.address) }
      | _ => w
  | none => w

/-- The world after the last holder of something has gone. -/
def retire (w : World) (r : Ref) : World :=
  let w := { w with gone := r :: w.gone }
  match r with
  | .owner id =>
    if w.memory.owners[id]?.any Owner.autorelease then w.releaseOwner id else w
  | .callback id =>
    match w.callbacks[id]? with
    | some c =>
      let isGone id := w.gone.contains (.callback id)
      { w with pool := (w.pool.forget c.key isGone).release c.slot }
    | none => w
  | _ => w

/-- The world after the references of a list have been given up, at most `fuel` of them. -/
def collectWithin (w : World) (roots : List Ref) : Nat → List Ref → World
  | 0, _ => w
  | _, [] => w
  | fuel + 1, r :: rest =>
    if w.gone.contains r || rest.contains r || w.isHeld roots r then
      w.collectWithin roots fuel rest
    else (w.retire r).collectWithin roots fuel (w.children r ++ rest)

/-- The number of references in the world: as many as can be given up one after another. -/
def references (w : World) : Nat := (w.holders.flatMap w.children).length

/-- The world after what has been given up so far, apart from what the given references hold. -/
def collect (w : World) (roots : List Ref) : World :=
  let dropped := w.dropped
  ({ w with dropped := [] }).collectWithin roots (dropped.length + w.references) dropped

end World

end ForeignCall
