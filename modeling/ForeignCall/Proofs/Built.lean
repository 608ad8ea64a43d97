import ForeignCall.Layout.Builder
import ForeignCall.Value

/-!
# Types that have been built

Every type is built from others by checked steps: layouts come out of the builder, and tables have
32-bit values (`Ty.Built`). So an integer that a value is converted to is one of its kind
(`Value.toInt_eq_ok`, `Value.toEnum_range`).
-/

namespace ForeignCall

/-- The values of an enumeration are those of a C `int`. -/
def Enumeration.InRange (table : Enumeration) : Prop :=
  ∀ p ∈ table.pairs, IntKind.int32.min ≤ p.2 ∧ p.2 ≤ IntKind.int32.max

/-- A type whose layouts have all been built, and whose enumerations have 32-bit values. -/
inductive Ty.Built : Ty → Prop where
  | builtin (b : Builtin) : Built (.builtin b)
  | array {c : Ty} (n : Nat) (h : Built c) : Built (.array c n)
  | charArray (n : Nat) : Built (.charArray n)
  | enumeration {table : Enumeration} (h : table.InRange) : Built (.enumeration table)
  | callback (s : Signature) : Built (.callback s)
  | struct {plan : LayoutPlan} {l : Layout} (h : plan.build = .ok l)
      (hf : ∀ f ∈ l.fields, Built f.ty) : Built (.struct l)

/-- The values of all tables at hand are those of a C `int`. -/
def Enums.InRange (tables : Option Enums) : Prop :=
  ∀ all ∈ tables, ∀ table ∈ all, Enumeration.InRange table

/-! ## Integers of values -/

theorem Enumeration.InRange.find? {table : Enumeration} (h : table.InRange) {name : String}
    {i : Int} (hi : table.find? name = some i) : IntKind.int32.min ≤ i ∧ i ≤ IntKind.int32.max := by
  obtain ⟨p, hp, rfl⟩ := Option.map_eq_some_iff.mp hi
  exact h p (List.mem_of_find?_eq_some hp)

theorem Value.toInt_eq_ok {k : IntKind} {value : Value} {i : Int} (h : value.toInt k = .ok i) :
    value = .int i ∧ k.min ≤ i ∧ i ≤ k.max := by
  cases value with
  | int j =>
    simp only [toInt] at h
    split at h
    · cases h
    next hr =>
      obtain rfl := Except.ok.inj h
      exact ⟨rfl, by omega, by omega⟩
  | _ => cases h

/-- A symbol resolves to a 32-bit value, and nothing but a 32-bit integer passes as one. -/
theorem Value.toEnum_range {own : Option Enumeration} {tables : Option Enums}
    (ho : ∀ table ∈ own, table.InRange) (ht : Enums.InRange tables) {value : Value} {i : Int}
    (h : value.toEnum own tables = .ok i) : IntKind.int32.min ≤ i ∧ i ≤ IntKind.int32.max := by
  cases value with
  | symbol name =>
    simp only [toEnum] at h
    split at h
    next j hj =>
      obtain rfl := Except.ok.inj h
      cases hown : own.bind fun e => e.find? name with
      | some j' =>
        rw [hown] at hj
        obtain rfl := Option.some.inj hj
        obtain ⟨table, hmem, hf⟩ := Option.bind_eq_some_iff.mp hown
        exact (ho table hmem).find? hf
      | none =>
        rw [hown] at hj
        have htables : (tables.bind fun t => t.findValue? name) = some j := hj
        obtain ⟨all, hall, hf⟩ := Option.bind_eq_some_iff.mp htables
        obtain ⟨table, hmem, hf⟩ := List.exists_of_findSome?_eq_some hf
        exact (ht all hall table hmem).find? hf
    next => cases h
  | int j =>
    have hint : (Value.int j).toInt .int32 = .ok i := h
    exact (Value.toInt_eq_ok hint).2
  | _ => cases h

end ForeignCall
