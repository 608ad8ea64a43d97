import ForeignCall.Catalog.Bodies
import ForeignCall.Proofs.Call.Identities

/-!
# Closures of the catalogue and the counter of identities

No body of the catalogue looks at the number of identities, whatever fields and memory it reads and
writes, so the code of every session is blind (`Catalog.blind_environment`).
-/

namespace ForeignCall

open Abi

/-! ## Fields -/

theorem Act.blind_string (bytes : List UInt8) : (Act.string bytes).Blind := fun _ _ => rfl

theorem View.blind_get (v : View) (kind : Kind) (offset : Nat) : (v.get kind offset).Blind := by
  cases kind with
  | builtin b =>
    cases b with
    | string => exact (Act.blind_read _).bind fun _ => Act.blind_stringFrom _
    | void => exact Act.blind_refuse _
    | varargs => exact Act.blind_refuse _
    | _ => exact (Act.blind_read _).bind fun _ => Act.blind_pure _
  | _ => exact Act.blind_refuse _

theorem View.blind_put (v : View) (kind : Kind) (offset : Nat) (value : Value) :
    (v.put kind offset value).Blind := by
  cases kind with
  | builtin b =>
    cases b with
    | string =>
      cases value with
      | str id => exact Act.blind_refuse _
      | _ => exact (Act.blind_ofChecked _).bind fun _ => Act.blind_write _
    | void => exact Act.blind_refuse _
    | varargs => exact Act.blind_refuse _
    | _ => exact (Act.blind_ofChecked _).bind fun _ => Act.blind_write _
  | _ => exact Act.blind_refuse _

theorem Ty.blind_getField (v : View) (retention : Nat) :
    ∀ (t : Ty) (name : String) (offset : Nat), (t.getField v retention name offset).Blind
  | .builtin b, name, offset => by
    cases b with
    | string => exact (Act.blind_read _).bind fun _ => Act.blind_stringFrom _
    | _ => exact v.blind_get _ _
  | .array component length, name, offset =>
    (Act.Blind.mapM (fun _ => (Act.blind_ofChecked _).bind fun _ =>
      component.blind_getField v retention _ _) _).bind fun _ => Act.blind_pure _
  | .charArray _, _, _ => (Act.blind_read _).bind fun _ => Act.blind_string _
  | .struct _, _, _ => (Act.blind_ofOutcome _).bind fun _ => Act.blind_pure _
  | .enumeration table, name, offset => by
    refine (Act.blind_read _).bind fun i => ?_
    split
    · exact Act.blind_pure _
    · exact Act.blind_refuse _
  | .callback _, _, _ => (Act.blind_read _).bind fun _ => Act.blind_pure _

theorem blind_retain (id address : Nat) (callback : Option Nat) :
    (retain id address callback).Blind := fun _ _ => rfl

theorem blind_putFunction (v : View) (retention offset : Nat) (signature : Signature)
    (value : Value) : (putFunction v retention offset signature value).Blind := by
  have hstore : ∀ address callback, Act.Blind (do
      Act.write fun m => m.writeAddress v offset address
      retain retention (wrap (v.address + offset)) callback) :=
    fun _ _ => (Act.blind_write _).bind fun _ => blind_retain _ _ _
  cases value with
  | proc closure =>
    exact (blind_makeCallback signature closure _).bind fun _ =>
      (Act.blind_view fun _ _ => rfl).bind fun _ => hstore _ _
  | function f => exact hstore _ _
  | _ => exact (Act.blind_ofChecked _).bind fun _ => hstore _ _

theorem blind_putStruct (v : View) (offset : Nat) (layout : Layout) (value : Value) :
    (putStruct v offset layout value).Blind := by
  cases value with
  | struct s =>
    unfold putStruct
    dsimp only
    split
    · exact Act.blind_write _
    · exact Act.blind_refuse _
  | _ => exact Act.blind_refuse _

theorem blind_putStaged (v : View) (offset size : Nat) {fill : View → Act Unit}
    (h : ∀ staged, (fill staged).Blind) : (putStaged v offset size fill).Blind := by
  refine Act.Blind.bind ?_ fun staged => (h staged).bind fun _ => Act.blind_write _
  exact (Act.blind_make _).bind fun _ => (Act.blind_ofOutcome _).bind fun _ =>
    (Act.blind_write _).bind fun _ => Act.blind_pure _

theorem Act.Blind.forM {α : Type} {f : α → Act Unit} (h : ∀ a, (f a).Blind) (l : List α) :
    (l.forM f).Blind := by
  induction l with
  | nil => exact Act.blind_pure _
  | cons a l ih => exact (h a).bind fun _ => ih

theorem blind_putItems (length : Nat) {putItem : Nat → Value → Act Unit}
    (h : ∀ i item, (putItem i item).Blind) (value : Value) :
    (putItems length putItem value).Blind := by
  have hitems : ∀ items : List Value,
      (items.zipIdx.forM fun e : Value × Nat => putItem e.2 e.1).Blind :=
    fun items => .forM (fun _ => h _ _) _
  cases value with
  | array items =>
    unfold putItems
    dsimp only
    split
    · exact (Act.blind_refuse _).bind fun _ => hitems items
    · exact hitems items
  | _ => exact Act.blind_refuse _

theorem blind_putChars (staged : View) (length string : Nat) :
    (putChars staged length string).Blind := by
  have hwrite : ∀ bytes : List UInt8, Act.Blind (do
      Act.write fun m => m.clear staged
      Act.write fun m => m.writeBytes staged 0 bytes) :=
    fun bytes => (Act.blind_write _).bind fun _ => Act.blind_write _
  refine (Act.blind_view fun _ _ => rfl).bind fun bytes => ?_
  split
  · exact (Act.blind_refuse _).bind fun _ => hwrite bytes
  · exact hwrite bytes

theorem Ty.blind_putField (retention : Nat) : ∀ (t : Ty) (v : View) (offset : Nat) (value : Value),
    (t.putField v retention offset value).Blind
  | .builtin b, v, offset, value => by
    cases b with
    | string =>
      cases value with
      | str id => exact Act.blind_refuse _
      | _ => exact (Act.blind_ofChecked _).bind fun _ => Act.blind_write _
    | _ => exact v.blind_put _ _ _
  | .array component _, v, offset, value =>
    blind_putStaged v offset _ fun staged => blind_putItems _ (fun _ _ =>
      (Act.blind_ofChecked _).bind fun _ => component.blind_putField retention staged _ _) value
  | .charArray _, v, offset, value => by
    refine blind_putStaged v offset _ fun staged => ?_
    split
    · exact blind_putChars _ _ _
    · exact blind_putItems _ (fun i item => staged.blind_put _ _ _) _
  | .struct layout, v, offset, value => blind_putStruct v offset layout value
  | .enumeration _, v, offset, value => (Act.blind_ofChecked _).bind fun _ => Act.blind_write _
  | .callback signature, v, offset, value => blind_putFunction v retention offset signature value

theorem Instance.blind_field (s : Instance) (name : String) : (s.field name).Blind := by
  unfold Instance.field
  split
  · exact Act.blind_pure _
  · exact Act.blind_refuse _

theorem Instance.blind_get (s : Instance) (name : String) : (s.get name).Blind :=
  (s.blind_field name).bind fun f => f.ty.blind_getField _ _ _ _

theorem Instance.blind_put (s : Instance) (name : String) (value : Value) :
    (s.put name value).Blind :=
  (s.blind_field name).bind fun f => f.ty.blind_putField _ _ _ _

namespace Catalog

/-! ## Bodies -/

theorem Body.blind_swapFields (f g : String) (s : Instance) : (swapFields f g s).Blind :=
  Act.Blind.bind (Act.blind_read _) fun _ => (Instance.blind_ofBytes _ _).bind fun copy =>
    (s.blind_get f).bind fun a => (s.blind_get g).bind fun b => (copy.blind_put f b).bind fun _ =>
      (copy.blind_put g a).bind fun _ => Act.blind_pure _

mutual
theorem Body.blind_program : ∀ (b : Body) (arguments : List Value), (b.program arguments).Blind
  | .constant _, _ => trivial
  | .argument _, _ => trivial
  | .multiply _, _ => trivial
  | .add _, _ => trivial
  | .sum, _ => trivial
  | .halve, _ => trivial
  | .fail _, _ => trivial
  | .abort _, _ => trivial
  | .field name, arguments => by
    rw [Body.program]
    split
    · exact ⟨Instance.blind_get _ name, fun _ => trivial⟩
    · trivial
  | .swap f g, arguments => by
    rw [Body.program]
    split
    · exact ⟨blind_swapFields f g _, fun _ => trivial⟩
    · trivial
  | .call function swallow, arguments => by
    rw [Body.program]
    intro outcome
    cases outcome with
    | ok value => trivial
    | error e => exact ⟨Act.blind_modify fun _ _ => rfl, fun _ => trivial⟩
  | .callArgument, arguments => by
    rw [Body.program]
    split
    · exact fun _ => trivial
    · trivial
  | .write view offset, arguments => by
    rw [Body.program]
    refine ⟨view.blind_put _ _ _, fun outcome => ?_⟩
    cases outcome <;> trivial
  | .sequence counter bodies, arguments => by
    rw [Body.program]
    exact ⟨fun _ _ => rfl, fun runs => blind_programAt bodies _ arguments⟩

theorem Body.blind_programAt : ∀ (bodies : List Body) (position : Nat) (arguments : List Value),
    (programAt bodies position arguments).Blind
  | [], _, _ => trivial
  | b :: _, 0, arguments => by
    rw [programAt]
    exact b.blind_program arguments
  | _ :: bodies, position + 1, arguments => by
    rw [programAt]
    exact blind_programAt bodies position arguments
end

/-- The code that the calls of a session find is blind. -/
theorem blind_environment (native : Nat → Option NativeFunction) (bodies : Array Body) :
    (environment native bodies).Blind := by
  intro closure arguments
  unfold environment
  dsimp only
  split
  · exact Body.blind_program _ arguments
  · trivial

end Catalog

end ForeignCall
