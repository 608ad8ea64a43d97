/-!
# Text as bytes

Strings cross into native code as bytes in UTF-8, and may come back as any bytes. `scan` reads bytes
as characters; where no character can be read it skips the longest run of bytes that begins one, and
at least one byte. `lossy` puts U+FFFD for each such run, `decode?` accepts only bytes without one.
-/

namespace ForeignCall.Utf8

/-- The bytes of a text. -/
def encode (s : String) : List UInt8 := s.toUTF8.data.toList

/-! ## Reading one character -/

/-- The range of a byte that continues a character. -/
def tail : Nat × Nat := (0x80, 0xBF)

/-- What a first byte says: its own bits of the code point, and the ranges of the bytes to follow.
-/
def first? (b : Nat) : Option (Nat × List (Nat × Nat)) :=
  if b < 0x80 then some (b, [])
  else if 0xC2 ≤ b ∧ b ≤ 0xDF then some (b % 32, [tail])
  else if b = 0xE0 then some (0, [(0xA0, 0xBF), tail])
  else if b = 0xED then some (b % 16, [(0x80, 0x9F), tail])
  else if 0xE1 ≤ b ∧ b ≤ 0xEF then some (b % 16, [tail, tail])
  else if b = 0xF0 then some (0, [(0x90, 0xBF), tail, tail])
  else if 0xF1 ≤ b ∧ b ≤ 0xF3 then some (b % 8, [tail, tail, tail])
  else if b = 0xF4 then some (b % 8, [(0x80, 0x8F), tail, tail])
  else none

/-- The code point of a character begun with `bits`, unless a byte is out of its range; and the
bytes after the last one that was in range. -/
def follow (bits : Nat) : List (Nat × Nat) → List UInt8 → Option Nat × List UInt8
  | [], bs => (some bits, bs)
  | _ :: _, [] => (none, [])
  | (low, high) :: ranges, b :: bs =>
    if low ≤ b.toNat ∧ b.toNat ≤ high then follow (bits * 64 + b.toNat % 64) ranges bs
    else (none, b :: bs)

theorem length_follow_le (bits : Nat) (ranges : List (Nat × Nat)) (bs : List UInt8) :
    (follow bits ranges bs).2.length ≤ bs.length := by
  induction ranges generalizing bits bs with
  | nil => simp [follow]
  | cons r ranges ih =>
    cases bs with
    | nil => simp [follow]
    | cons b bs =>
      rw [follow]
      split
      · exact Nat.le_succ_of_le (ih ..)
      · exact Nat.le_refl _

/-- The first character of the bytes `b :: bs`, if they begin with one, and the bytes after it. -/
def next (b : UInt8) (bs : List UInt8) : Option Char × List UInt8 :=
  match first? b.toNat with
  | none => (none, bs)
  | some (bits, ranges) =>
    let (code, rest) := follow bits ranges bs
    (code.map Char.ofNat, rest)

theorem length_next_le (b : UInt8) (bs : List UInt8) : (next b bs).2.length ≤ bs.length := by
  unfold next
  split
  · exact Nat.le_refl _
  · exact length_follow_le ..

/-! ## Reading text -/

/-- The characters of bytes; `none` stands for a run of bytes that is no character. -/
def scan : List UInt8 → List (Option Char)
  | [] => []
  | b :: bs => (next b bs).1 :: scan (next b bs).2
termination_by bs => bs.length
decreasing_by exact Nat.lt_succ_of_le (length_next_le b bs)

/-- The character put where no character can be read. -/
def replacement : Char := '\uFFFD'

/-- The text of bytes, each run that is no character replaced. -/
def lossy (bs : List UInt8) : String :=
  String.ofList ((scan bs).map fun c => c.getD replacement)

/-- The text of bytes that are text throughout. -/
def decode? (bs : List UInt8) : Option String :=
  ((scan bs).mapM id).map String.ofList

end ForeignCall.Utf8
