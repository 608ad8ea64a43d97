import ForeignCall.Describe

/-!
# Names for addresses

Addresses differ from run to run; what a reader wants to know is which things share one. An `Atlas`
names an address by the region that it lies in, by the code that stands there, or else by a number
in the order of first appearance. Addresses that no memory can have are written as numbers.
-/

namespace ForeignCall

/-- A region with a name. -/
structure Region where
  name : String
  start : Nat
  size : Nat

/-- Whether an address lies in a region, or right behind it. -/
def Region.covers (r : Region) (a : Nat) : Bool := r.start ≤ a && a ≤ r.start + r.size

/-- The named regions, the newest first, and the other addresses that have appeared. -/
structure Atlas where
  regions : List Region
  seen : Array Nat

namespace Atlas

/-- The atlas with one more region. -/
def add (t : Atlas) (name : String) (start size : Nat) : Atlas :=
  { t with regions := ⟨name, start, size⟩ :: t.regions }

/-- Whether an address lies in a named region. -/
def covers (t : Atlas) (a : Nat) : Bool := t.regions.any fun r => r.covers a

/-- Whether memory can have an address. -/
def isReal (a : Nat) : Bool := 0x100000000 ≤ a && a < 0x800000000000

/-- The text of an address as a number. -/
def hex (a : Nat) : String := "0x" ++ Text.hex a

/-- The name of an address, and the atlas in which it has appeared. -/
def name (code : Nat → Option String) (a : Nat) (t : Atlas) : String × Atlas :=
  if a = 0 then ("null", t)
  else if !isReal a then (hex a, t)
  else match t.regions.find? fun r => r.covers a with
    | some r => (s!"{r.name}+{a - r.start}", t)
    | none =>
      match code a with
      | some c => (s!"fn:{c}", t)
      | none =>
        match t.seen.findIdx? (· == a) with
        | some k => (s!"#{k}", t)
        | none => (s!"#{t.seen.size}", { t with seen := t.seen.push a })

/-- The text of a piece of a description, with names in angle brackets. -/
def piece (code : Nat → Option String) (closure : Nat → String) (p : Piece) (t : Atlas) :
    String × Atlas :=
  match p with
  | .text s => (s, t)
  | .address a =>
    if isReal a then
      let (s, t) := t.name code a
      (s!"<{s}>", t)
    else (hex a, t)
  | .closure id => (s!"<{closure id}>", t)

/-- The text of a description, with names in angle brackets. -/
def text (code : Nat → Option String) (closure : Nat → String) (d : Description) (t : Atlas) :
    String × Atlas :=
  d.foldl (fun (s, t) p => let (s', t) := t.piece code closure p; (s ++ s', t)) ("", t)

end Atlas

end ForeignCall
