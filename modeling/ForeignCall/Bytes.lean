/-!
# Little-endian bytes

Numbers as lists of bytes, least significant first: the form in which numbers lie in memory, in
registers and on the stack. `ofNat` writes the low bytes of a number, `toNat` reads them back, and
`toNat_ofNat` says that the pair loses exactly what does not fit.
-/

namespace ForeignCall.Bytes

/-- The `width` low bytes of a number. -/
def ofNat : Nat → Nat → List UInt8
  | 0, _ => []
  | width + 1, n => UInt8.ofNat (n % 256) :: ofNat width (n / 256)

/-- The number that bytes stand for. -/
def toNat : List UInt8 → Nat
  | [] => 0
  | b :: bs => b.toNat + 256 * toNat bs

@[simp] theorem length_ofNat (width n : Nat) : (ofNat width n).length = width := by
  induction width generalizing n with
  | zero => rfl
  | succ w ih => simp [ofNat, ih]

/-- One past the largest number of `width` bytes. -/
def limit : Nat → Nat
  | 0 => 1
  | width + 1 => 256 * limit width

theorem toNat_lt (bs : List UInt8) : toNat bs < limit bs.length := by
  induction bs with
  | nil => simp [toNat, limit]
  | cons b bs ih =>
    have hb : b.toNat < 256 := b.toNat_lt
    rw [toNat, List.length_cons, limit]
    omega

theorem toNat_ofNat (width n : Nat) : toNat (ofNat width n) = n % limit width := by
  induction width generalizing n with
  | zero => simp [ofNat, toNat, limit, Nat.mod_one]
  | succ w ih =>
    have hb : (UInt8.ofNat (n % 256)).toNat = n % 256 := by
      simp [UInt8.toNat_ofNat']
    rw [ofNat, toNat, ih, hb, limit, Nat.mod_mul]

theorem ofNat_toNat (bs : List UInt8) : ofNat bs.length (toNat bs) = bs := by
  induction bs with
  | nil => rfl
  | cons b bs ih =>
    have hb : b.toNat < 256 := b.toNat_lt
    have h1 : (b.toNat + 256 * toNat bs) % 256 = b.toNat := by omega
    have h2 : (b.toNat + 256 * toNat bs) / 256 = toNat bs := by omega
    rw [List.length_cons, toNat, ofNat, h1, h2, ih]
    simp

/-- The low bytes of a signed number in two's complement. -/
def ofInt (width : Nat) (i : Int) : List UInt8 :=
  ofNat width (i % (limit width : Int)).toNat

@[simp] theorem length_ofInt (width : Nat) (i : Int) : (ofInt width i).length = width :=
  length_ofNat ..

/-- Bytes cut or filled with zeros to a length. -/
def fit (width : Nat) (bs : List UInt8) : List UInt8 :=
  bs.take width ++ List.replicate (width - bs.length) 0

@[simp] theorem length_fit (width : Nat) (bs : List UInt8) : (fit width bs).length = width := by
  simp [fit]
  omega

theorem fit_of_length {width : Nat} {bs : List UInt8} (h : bs.length = width) :
    fit width bs = bs := by
  simp [fit, ← h]

/-- The first bytes of a store replaced by others; a store is never lengthened. -/
def overwrite (store bs : List UInt8) : List UInt8 :=
  bs.take store.length ++ store.drop bs.length

/-- Zero bytes. -/
def zeros (width : Nat) : List UInt8 := List.replicate width 0

/-- Bytes cut into pieces of `width`, the last piece filled with zeros. -/
def words (width : Nat) (bs : List UInt8) : List (List UInt8) :=
  (List.range ((bs.length + width - 1) / width)).map fun i =>
    fit width ((bs.drop (i * width)).take width)

end ForeignCall.Bytes
