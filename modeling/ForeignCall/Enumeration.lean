/-!
# Enumerations

An enumeration is a table of symbols with 32-bit values, read in both directions. No symbol stands
twice in it; a value may, and then its first symbol is the one that it reads back as.

Main statements: `ofPairs?_eq_error_iff` (exactly a repeated symbol is refused),
`find?_eq_some_iff`, `symbol?_eq_some_iff` and `find?_of_symbol?` (the two directions agree).
-/

namespace ForeignCall

/-- A table of symbols and values, in the order of declaration. -/
structure Enumeration where
  tag : Option String
  pairs : List (String × Int)
  distinct : (pairs.map Prod.fst).Nodup

namespace Enumeration

/-- The first symbol that an earlier pair has declared already. -/
def firstRepeated? : List String → List (String × Int) → Option String
  | _, [] => none
  | seen, (symbol, _) :: rest =>
    if symbol ∈ seen then some symbol else firstRepeated? (symbol :: seen) rest

theorem firstRepeated?_eq_none_iff (seen : List String) (pairs : List (String × Int)) :
    firstRepeated? seen pairs = none ↔
      (pairs.map Prod.fst).Nodup ∧ ∀ s ∈ pairs.map Prod.fst, s ∉ seen := by
  induction pairs generalizing seen with
  | nil => simp [firstRepeated?]
  | cons p rest ih =>
    obtain ⟨symbol, value⟩ := p
    by_cases h : symbol ∈ seen
    · simp [firstRepeated?, h]
    · rw [firstRepeated?, if_neg h, ih]
      simp only [List.map_cons, List.nodup_cons, List.mem_cons, not_or]
      constructor
      · rintro ⟨hn, hs⟩
        refine ⟨⟨fun hm => (hs _ hm).1 rfl, hn⟩, ?_⟩
        rintro s (rfl | hm)
        · exact h
        · exact (hs s hm).2
      · rintro ⟨⟨hm, hn⟩, hs⟩
        exact ⟨hn, fun s hsm => ⟨fun he => hm (he ▸ hsm), hs s (Or.inr hsm)⟩⟩

/-- A table of the given pairs, or the symbol that is declared twice. -/
def ofPairs? (tag : Option String) (pairs : List (String × Int)) : Except String Enumeration :=
  match h : firstRepeated? [] pairs with
  | some symbol => .error symbol
  | none => .ok ⟨tag, pairs, ((firstRepeated?_eq_none_iff [] pairs).mp h).1⟩

/-- A table of symbols numbered from zero. -/
def sequential? (tag : Option String) (symbols : List String) : Except String Enumeration :=
  ofPairs? tag (symbols.zipIdx.map fun (s, i) => (s, (i : Int)))

/-- The value of a symbol. -/
def find? (e : Enumeration) (symbol : String) : Option Int :=
  (e.pairs.find? fun p => p.1 == symbol).map Prod.snd

/-- The first symbol declared with a value. -/
def symbol? (e : Enumeration) (value : Int) : Option String :=
  (e.pairs.find? fun p => p.2 == value).map Prod.fst

/-- The number of symbols. -/
def size (e : Enumeration) : Nat := e.pairs.length

/-! ## Making a table -/

theorem pairs_ofPairs? {tag : Option String} {pairs : List (String × Int)} {e : Enumeration}
    (h : ofPairs? tag pairs = .ok e) : e.pairs = pairs := by
  unfold ofPairs? at h
  split at h
  · cases h
  · rw [← Except.ok.inj h]

theorem ofPairs?_eq_error_iff (tag : Option String) (pairs : List (String × Int)) :
    (∃ s, ofPairs? tag pairs = .error s) ↔ ¬(pairs.map Prod.fst).Nodup := by
  have hnone := firstRepeated?_eq_none_iff [] pairs
  unfold ofPairs?
  split
  next s hs =>
    rw [hs] at hnone
    simpa using hnone
  next hs =>
    rw [hs] at hnone
    simpa using hnone

/-! ## Both directions -/

variable {e : Enumeration} {symbol : String} {value : Int}

theorem find?_eq_some_iff : e.find? symbol = some value ↔ (symbol, value) ∈ e.pairs := by
  obtain ⟨tag, pairs, distinct⟩ := e
  unfold find?
  dsimp only
  induction pairs with
  | nil => simp
  | cons p rest ih =>
    obtain ⟨s, v⟩ := p
    obtain ⟨hs, hrest⟩ := List.nodup_cons.mp distinct
    by_cases h : s = symbol
    · subst h
      -- no later pair has the symbol
      have hlater : (s, value) ∉ rest := fun hm => hs (List.mem_map.mpr ⟨_, hm, rfl⟩)
      simp [hlater, eq_comm]
    · rw [List.find?_cons_of_neg (by simpa using h), ih hrest]
      simp [Ne.symm h]

/-- A symbol is the first that is declared with a value. -/
def DeclaredFirst (e : Enumeration) (value : Int) (symbol : String) : Prop :=
  ∃ before after, e.pairs = before ++ (symbol, value) :: after ∧ ∀ p ∈ before, p.2 ≠ value

theorem symbol?_eq_some_iff : e.symbol? value = some symbol ↔ e.DeclaredFirst value symbol := by
  unfold symbol? DeclaredFirst
  rw [Option.map_eq_some_iff]
  constructor
  · rintro ⟨⟨s, v⟩, hp, rfl⟩
    obtain ⟨hv, before, after, hpairs, hbefore⟩ := List.find?_eq_some_iff_append.mp hp
    obtain rfl := eq_of_beq hv
    exact ⟨before, after, hpairs, fun p hp => by simpa using hbefore p hp⟩
  · rintro ⟨before, after, hpairs, hbefore⟩
    refine ⟨(symbol, value), List.find?_eq_some_iff_append.mpr ⟨beq_self_eq_true value, ?_⟩, rfl⟩
    exact ⟨before, after, hpairs, fun p hp => by simpa using hbefore p hp⟩

theorem symbol?_eq_none_iff : e.symbol? value = none ↔ ∀ p ∈ e.pairs, p.2 ≠ value := by
  simp [symbol?]

/-- The symbol of a value has it. -/
theorem find?_of_symbol? (h : e.symbol? value = some symbol) : e.find? symbol = some value := by
  obtain ⟨before, after, hpairs, -⟩ := symbol?_eq_some_iff.mp h
  rw [find?_eq_some_iff, hpairs]
  exact List.mem_append_right _ List.mem_cons_self

/-- The value of a symbol has one. -/
theorem exists_symbol? (h : e.find? symbol = some value) :
    ∃ first, e.symbol? value = some first := by
  rw [← Option.ne_none_iff_exists']
  intro hnone
  exact symbol?_eq_none_iff.mp hnone _ (find?_eq_some_iff.mp h) rfl

end Enumeration

/-- The tables that a signature resolves bare symbols with, earliest first. -/
abbrev Enums := List Enumeration

namespace Enums

/-- The first table with a tag. -/
def find? (tables : Enums) (tag : String) : Option Enumeration :=
  List.find? (fun e => e.tag == some tag) tables

/-- The value of a symbol in the first table that has it. -/
def findValue? (tables : Enums) (symbol : String) : Option Int :=
  List.findSome? (fun e => e.find? symbol) tables

theorem findValue?_eq_some_iff {tables : Enums} {symbol : String} {value : Int} :
    tables.findValue? symbol = some value ↔ ∃ before e after, tables = before ++ e :: after ∧
      e.find? symbol = some value ∧ ∀ other ∈ before, other.find? symbol = none :=
  List.findSome?_eq_some_iff

theorem findValue?_eq_none_iff {tables : Enums} {symbol : String} :
    tables.findValue? symbol = none ↔ ∀ e ∈ tables, e.find? symbol = none :=
  List.findSome?_eq_none_iff

end Enums

end ForeignCall
